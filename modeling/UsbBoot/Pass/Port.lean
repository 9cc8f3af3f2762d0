/-
The device as a pass sees it.

A pass asks two things of the world: to write some bytes to the device, and whether the
user has given up.  A port answers both, on top of a state of its own; a pass never
looks into that state.  So whatever is shown of a pass over an arbitrary port holds over
a real bus as well as over a schedule, where every answer is laid down beforehand by the
number of the question.
-/
import UsbBoot.Failure
import UsbBoot.Log

namespace UsbBoot

/-- The vendor requests a device understands. -/
inductive Request
  /-- Write on-chip RAM or the CPU control register; the silicon itself does it. -/
  | onChip
  /-- Write the boot EEPROM; a loader does it. -/
  | eeprom
  /-- Write external memory; a loader does it. -/
  | external
  deriving DecidableEq, Repr

/-- The number of a request on the bus. -/
def Request.code : Request → UInt8
  | .onChip => 0xA0
  | .eeprom => 0xA2
  | .external => 0xA3

/-- One write to the device. -/
structure ControlWrite where
  request : Request
  address : UInt32
  data : List UInt8
  deriving DecidableEq, Repr

/-- The answer to a write. -/
structure Reply where
  /-- What went wrong, if anything did. -/
  failure : Option Failure
  /-- What was logged meanwhile. -/
  notes : List Log.Line
  deriving DecidableEq, Repr

/-- A device that can be written to, on top of a state `σ`. -/
structure Port (σ : Type) where
  /-- What the device is called in messages. -/
  name : String
  write : ControlWrite → σ → Reply × σ
  /-- Ask whether the user has given up, if there is a way to ask. -/
  cancelled : Option (σ → Bool × σ)

/-- Answers laid down beforehand. -/
structure Schedule where
  /-- How the write with this number fails, if it does. -/
  failure : Nat → Option Failure
  /-- Whether the question with this number is answered yes; `none` where nobody asks. -/
  cancel : Option (Nat → Bool)

/-- How often a scheduled port was used. -/
structure Tally where
  /-- The writes so far, failed ones included. -/
  writes : Nat
  /-- The questions so far. -/
  questions : Nat
  deriving DecidableEq, Repr

/-- The port that answers by a schedule. -/
def Schedule.port (schedule : Schedule) (name : String) : Port Tally where
  name := name
  write _ tally :=
    (⟨schedule.failure tally.writes, []⟩, { tally with writes := tally.writes + 1 })
  cancelled := schedule.cancel.map fun answer tally =>
    (answer tally.questions, { tally with questions := tally.questions + 1 })

end UsbBoot
