/-
Calls to the USB stack.

The program reaches devices through a USB stack, and the calls it makes are part of what
can be seen of it.  A write to a device is one control transfer: the low half of the
address travels in the value field of the transfer, the high half in the index field.
-/
import UsbBoot.Device.Id
import UsbBoot.Pass.Port

namespace UsbBoot.Usb

/-- One control transfer, as the stack is asked for it. -/
structure Transfer where
  /-- Which way it goes, whose request it is, and what part of the device it is for. -/
  requestType : UInt8
  request : UInt8
  value : UInt16
  index : UInt16
  data : List UInt8
  /-- How long it may take, in milliseconds. -/
  timeout : Nat
  deriving DecidableEq, Repr

/-- A call to the USB stack. -/
inductive Call
  | start
  | stop
  | list
  /-- Open the first device with these numbers. -/
  | open (id : Device.Id)
  | claim (interface : UInt8)
  /-- Take an interface from the kernel's driver. -/
  | detach (interface : UInt8)
  | transfer (transfer : Transfer)
  | release (interface : UInt8)
  | close
  deriving DecidableEq, Repr

/-- The interface that is claimed while a device is loaded. -/
def interfaceNumber : UInt8 := 0

/-- The type of all transfers: out, by a request of the vendor's, to the device. -/
def requestType : UInt8 := 0x40

/-- How long a transfer may take, in milliseconds. -/
def timeout : Nat := 1000

/-- The value field of a transfer to an address. -/
def valueField (address : UInt32) : UInt16 :=
  address.toUInt16

/-- The index field of a transfer to an address. -/
def indexField (address : UInt32) : UInt16 :=
  (address >>> 16).toUInt16

/-- The transfer that makes a write. -/
def Transfer.of (write : ControlWrite) : Transfer where
  requestType := Usb.requestType
  request := write.request.code
  value := valueField write.address
  index := indexField write.address
  data := write.data
  timeout := Usb.timeout

@[simp] theorem Transfer.data_of (write : ControlWrite) : (of write).data = write.data := rfl

end UsbBoot.Usb
