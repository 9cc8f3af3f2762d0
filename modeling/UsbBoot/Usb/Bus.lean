/-
A bus and what is done on it.

A bus says beforehand how everything on it answers: the stack itself, each device, and
each transfer by its number.  Listing and opening are stages; an open device is a port.  Each
of the two begins to use the stack and reads descriptors by itself, so one of them may fail
where the other does not.

A device that was opened is held until it is closed.  Whatever goes wrong while it is
opened, what was begun is ended again, in reverse order.
-/
import UsbBoot.Device.Listing
import UsbBoot.Effect
import UsbBoot.Failure

namespace UsbBoot.Usb

open Device (Id Info)

/-- A device on a bus: how it names itself, and how it answers. -/
structure Attached where
  bus : UInt8
  address : UInt8
  id : Id
  /-- Its release number, as its descriptor holds it. -/
  release : UInt16
  /-- How reading its descriptor fails while devices are listed. -/
  descriptorFault : Option Fault
  /-- How opening it fails. -/
  openFault : Option Fault
  /-- How reading its descriptor fails once it is open. -/
  openDescriptorFault : Option Fault
  /-- How claiming the interface fails the first time. -/
  claimFault : Option Fault
  /-- How claiming the interface fails after that. -/
  reclaimFault : Option Fault
  /-- How taking the interface from the kernel's driver fails. -/
  detachFault : Option Fault
  /-- How giving the interface back fails. -/
  releaseFault : Option Fault
  deriving DecidableEq, Repr

structure Bus where
  devices : List Attached
  /-- How beginning to use the stack fails where devices are to be listed. -/
  startFault : Option Fault
  /-- How asking for the devices fails. -/
  listFault : Option Fault
  /-- How beginning to use the stack fails where a device is to be opened. -/
  openStartFault : Option Fault
  /-- What the transfer with this number returns: how many bytes were written, or a fault by
  its negative code.  All bytes are written where nothing is said. -/
  returned : Nat → Option Int
  /-- Whether the user gives up during the transfer with this number. -/
  interrupts : Nat → Bool

def Bus.empty : Bus :=
  ⟨[], none, none, none, fun _ => none, fun _ => false⟩

/-! ### Devices -/

/-- A digit of a number in base sixteen, the last one having place zero. -/
def hexDigit (place : UInt16) (value : UInt16) : UInt16 :=
  (value >>> (4 * place)) &&& 0xF

/-- A release number as it is told.  Its first two digits are taken for the tens and the ones
of a decimal number and are put back as such; so two digits that spell no decimal number
come out changed. -/
def toldRelease (release : UInt16) : UInt16 :=
  let major := 10 * hexDigit 3 release + hexDigit 2 release
  (major / 10) <<< 12 ||| (major % 10) <<< 8 ||| hexDigit 1 release <<< 4 ||| hexDigit 0 release

namespace Attached

/-- What is told of a device. -/
def info (device : Attached) : Info :=
  ⟨device.bus, device.address, device.id, toldRelease device.release⟩

/-- What is told of a device whose descriptor can be read. -/
def info? (device : Attached) : Option Info :=
  if device.descriptorFault.isNone then some device.info else none

/-- What is said of a device that was met on the bus. -/
def note (device : Attached) : Log.Line :=
  match device.descriptorFault with
  | none => .trace .usb ("Found USB device " ++ device.id.upper ++ " on bus " ++
      toString device.bus.toNat ++ " addr " ++ toString device.address.toNat)
  | some fault => .debug .usb ("Skipping device without descriptor: " ++
      (Failure.usb fault).message)

end Attached

/-! ### Listing -/

/-- A stage that fails if there is a fault. -/
def check (fault : Option Fault) : Stage Failure Unit :=
  match fault with
  | none => .yield ()
  | some fault => .fail (.usb fault)

/-- Ask for the attached devices. -/
def Bus.list (bus : Bus) : Stage Failure (List Info) := do
  .call .start
  check bus.startFault
  .call .list
  (check bus.listFault).onFailure [.call .stop]
  .note (bus.devices.map Attached.note)
  .call .stop
  -- A device that cannot be described is left out, and nothing fails for it.
  return bus.devices.filterMap Attached.info?

/-! ### Opening and closing -/

/-- Claim the interface; when that fails, take it from the kernel's driver and try again. -/
def Attached.claim (device : Attached) : Stage Failure Unit := do
  .call (.claim interfaceNumber)
  match device.claimFault with
  | none => return ()
  | some fault =>
    .note [.debug .usb ("Claim failed (" ++ fault.message ++ "), detaching kernel driver")]
    .call (.detach interfaceNumber)
    .note (device.detachFault.toList.map fun fault =>
      .trace .usb ("Detach kernel driver: " ++ fault.message))
    .call (.claim interfaceNumber)
    check device.reclaimFault

/-- The device that is opened by a pair of numbers, if that can be done. -/
def Bus.openable? (bus : Bus) (id : Id) : Option Attached :=
  (bus.devices.find? (·.id == id)).filter (·.openFault.isNone)

def Bus.open (bus : Bus) (id : Id) : Stage Failure Attached := do
  .call .start
  check bus.openStartFault
  .call (.open id)
  -- Only the first device with the numbers is tried, though another may be there.
  match bus.openable? id with
  | none =>
    .call .stop
    .fail .notFound
  | some device =>
    (do check device.openDescriptorFault; device.claim : Stage Failure Unit).onFailure
      [.call .close, .call .stop]
    .note [.debug .usb ("Opened " ++ device.info.title)]
    return device

/-- What is seen when a device is closed.  An interface that could not be given back is given
back once more. -/
def Attached.closing (device : Attached) : List Effect :=
  .call (.release interfaceNumber) ::
    (match device.releaseFault with
     | none => []
     | some fault => [.log (.trace .usb ("Release interface on " ++ device.info.title ++ ": " ++
         fault.message)), .call (.release interfaceNumber)]) ++
    [.call .close, .call .stop]

/-! ### An open device -/

/-- How far the use of an open device has come. -/
structure Wire where
  /-- The number of transfers so far. -/
  transfers : Nat
  /-- Whether the user gave up during one of them. -/
  interrupted : Bool
  deriving DecidableEq, Repr

/-- A device that has just been opened. -/
def Wire.fresh : Wire :=
  ⟨0, false⟩

/-- How it is told where a write was cut short. -/
def shortWrite (write : ControlWrite) (written : Int) : String :=
  "at 0x" ++ Text.upperHex 8 write.address.toNat ++ ": " ++ toString written ++ " of " ++
    toString write.data.length ++ " bytes"

/-- The answer to a write whose transfer returned this. -/
def replyTo (write : ControlWrite) (returned : Int) : Reply :=
  let note : Log.Line := .trace .usb ("Control write 0x" ++
    Text.upperHex 2 write.request.code.toNat ++ " @ 0x" ++ Text.upperHex 8 write.address.toNat ++
    ", " ++ toString write.data.length ++ " bytes")
  if returned < 0 then ⟨some (.usb (.ofCode returned)), [note]⟩
  else if returned ≠ write.data.length then
    ⟨some (.transport ("short write " ++ shortWrite write returned)),
      [note, .warn .usb ("Short write " ++ shortWrite write returned)]⟩
  else ⟨none, [note]⟩

/-- An open device as a pass sees it. -/
def Bus.port (bus : Bus) (device : Attached) : Port Wire where
  name := device.info.title
  write write wire :=
    (replyTo write ((bus.returned wire.transfers).getD write.data.length),
      ⟨wire.transfers + 1, wire.interrupted || bus.interrupts wire.transfers⟩)
  cancelled := some fun wire => (wire.interrupted, wire)

end UsbBoot.Usb
