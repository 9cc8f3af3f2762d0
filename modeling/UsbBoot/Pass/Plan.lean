/-
What a pass is to do, and whether it can.

A pass writes some segments to RAM or to the boot EEPROM.  In RAM it may be kept to what is
on the chip, or reach all of memory through a loader that runs on the device; the EEPROM is
always written through a loader.  Whether a profile allows a plan is settled before anything
is sent.
-/
import UsbBoot.Chunk
import UsbBoot.Count
import UsbBoot.Eeprom.Format

namespace UsbBoot.Pass

/-- Where a pass writes. -/
inductive Destination
  | ram
  | eeprom
  deriving DecidableEq, Repr

/-- Which RAM a pass to RAM may write. -/
inductive RamMode
  /-- On-chip RAM, with nothing but the silicon's help. -/
  | onChipOnly
  /-- External memory through a running loader, then on-chip RAM. -/
  | externalFirst
  deriving DecidableEq, Repr

/-- One pass. -/
structure Plan where
  /-- What is written, in image order. -/
  segments : List Segment
  destination : Destination
  /-- The config byte that was asked for.  In a pass to RAM there is no use for it. -/
  config : Option UInt8
  /-- Which RAM may be written.  In a pass to the EEPROM it does not matter. -/
  ramMode : RamMode
  deriving DecidableEq, Repr

namespace Plan

/-- The pass that puts segments on the chip. -/
def onChip (segments : List Segment) : Plan :=
  ⟨segments, .ram, none, .onChipOnly⟩

/-- The pass in which a running loader puts segments into memory. -/
def throughLoader (segments : List Segment) : Plan :=
  { onChip segments with ramMode := .externalFirst }

/-- The pass in which a running loader writes segments to the boot EEPROM. -/
def eeprom (segments : List Segment) (config : Option UInt8) : Plan :=
  ⟨segments, .eeprom, config, .onChipOnly⟩

def length (plan : Plan) : Nat :=
  total (plan.segments.map Segment.length)

/-- The most bytes a chunk of the pass may carry. -/
def limit (plan : Plan) (profile : Chip.Profile) : Option Nat :=
  match plan.destination with
  | .ram => profile.transferLimit
  | .eeprom => some (min (profile.transferLimit.getD Eeprom.maxRecord) Eeprom.maxRecord)

/-- The chunks of the pass, in image order. -/
def chunks (plan : Plan) (profile : Chip.Profile) : List Chunk :=
  UsbBoot.chunks profile (plan.limit profile) plan.segments

/-- What stands in the way of chunks that all have to lie on the chip. -/
def firstOutside? (chunks : List Chunk) : Option Failure :=
  (chunks.find? (!·.onChip)).map fun chunk => .outOfRange chunk.address chunk.data.length

/-- What stands in the way of a plan on parts with this profile, if anything does. -/
def obstacle? (plan : Plan) (profile : Chip.Profile) : Option Failure :=
  if plan.destination = .eeprom ∧ profile.hasEeprom = false then
    some (.unsupported (profile.family.display ++ " does not support EEPROM programming"))
  else if plan.destination = .ram ∧ plan.ramMode = .externalFirst then none
  else firstOutside? (plan.chunks profile)

end Plan
end UsbBoot.Pass
