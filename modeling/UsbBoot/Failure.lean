/-
Why reading an image, choosing a device or loading it did not succeed.

Causes are told apart by constructors; the wording stands in one place.  The one
question the program asks of a failure is whether it means that the device left the
bus, because firmware that has just been started commonly does, to come back under
another identity.
-/
import UsbBoot.Record.Basic
import UsbBoot.Usb.Fault

namespace UsbBoot

/-- A failure of the loader. -/
inductive Failure
  /-- Reading failed, as the system words it. -/
  | io (text : String)
  | usb (fault : Usb.Fault)
  /-- A line of the image, counted from one, is no record or does not fit. -/
  | malformed (line : Nat) (fault : Record.Fault)
  /-- The image has no end. -/
  | truncated
  /-- A record writes where an earlier one did; the address is where that record starts. -/
  | overlapping (address : UInt32)
  /-- No device fits the request. -/
  | notFound
  /-- More than one device fits the request. -/
  | ambiguous (detail : String)
  /-- The part cannot do what is asked. -/
  | unsupported (detail : String)
  /-- Firmware lies where this pass cannot write. -/
  | outOfRange (address : UInt32) (length : Nat)
  /-- A transfer did not do what it should. -/
  | transport (detail : String)
  | disconnected
  | cancelled
  deriving DecidableEq, Repr

namespace Failure

def message : Failure → String
  | .io text => "I/O error: " ++ text
  | .usb fault => "USB error: " ++ fault.message
  | .malformed line fault => "Malformed record on line " ++ toString line ++ ": " ++ fault.message
  | .truncated => "Truncated image: no end-of-file record"
  | .overlapping address => "Overlapping data at 0x" ++ Text.upperHex 8 address.toNat
  | .notFound => "Device not found"
  | .ambiguous detail => "Ambiguous device selection: " ++ detail
  | .unsupported detail => "Unsupported operation: " ++ detail
  | .outOfRange address length =>
    "Cannot write " ++ toString length ++ " bytes at 0x" ++ Text.upperHex 8 address.toNat ++
      ": outside writable memory"
  | .transport detail => "Transfer failed: " ++ detail
  | .disconnected => "Device disconnected"
  | .cancelled => "Operation cancelled"

/-- What lies behind a failure that only passes on another's words. -/
def source? : Failure → Option String
  | .io text => some text
  | .usb fault => some fault.message
  | _ => none

def isDisconnect : Failure → Bool
  | .disconnected | .usb .io | .usb .noDevice => true
  | _ => false

end Failure
end UsbBoot
