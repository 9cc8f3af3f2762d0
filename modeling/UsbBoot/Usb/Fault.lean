/-
Faults of the USB stack.

The stack answers a call with a number, and a negative number is a fault.  Those it has
names for are told apart here; every other negative number is the same unnamed fault.
-/

namespace UsbBoot.Usb

/-- What went wrong in the USB stack. -/
inductive Fault
  | io
  | invalidParameter
  | access
  | noDevice
  | notFound
  | busy
  | timeout
  | overflow
  | pipe
  | interrupted
  | noMemory
  | notSupported
  | other
  deriving DecidableEq, Repr

namespace Fault

/-- The fault a negative answer stands for. -/
def ofCode (code : Int) : Fault :=
  if code = -1 then .io
  else if code = -2 then .invalidParameter
  else if code = -3 then .access
  else if code = -4 then .noDevice
  else if code = -5 then .notFound
  else if code = -6 then .busy
  else if code = -7 then .timeout
  else if code = -8 then .overflow
  else if code = -9 then .pipe
  else if code = -10 then .interrupted
  else if code = -11 then .noMemory
  else if code = -12 then .notSupported
  else .other

def message : Fault → String
  | .io => "Input/Output Error"
  | .invalidParameter => "Invalid parameter"
  | .access => "Access denied (insufficient permissions)"
  | .noDevice => "No such device (it may have been disconnected)"
  | .notFound => "Entity not found"
  | .busy => "Resource busy"
  | .timeout => "Operation timed out"
  | .overflow => "Overflow"
  | .pipe => "Pipe error"
  | .interrupted => "System call interrupted (perhaps due to signal)"
  | .noMemory => "Insufficient memory"
  | .notSupported => "Operation not supported or unimplemented on this platform"
  | .other => "Other error"

end Fault
end UsbBoot.Usb
