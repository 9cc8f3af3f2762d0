/-
What a family can do.

A profile says where the CPU control register lies, which windows of on-chip RAM the
silicon can write by itself while the CPU is held, how much one transfer may carry, and
how the boot EEPROM begins.  The families have one profile each; all that follows is
stated for any profile.
-/
import UsbBoot.Chip.Family

namespace UsbBoot.Chip

/-- A range of addresses, its end excluded. -/
structure Window where
  start : UInt32
  stop : UInt32
  deriving DecidableEq, Repr

namespace Window

/-- Whether an address lies in the window. -/
def contains (window : Window) (address : Nat) : Bool :=
  window.start.toNat ≤ address && address < window.stop.toNat

/-- Whether a whole range of addresses lies in the window. -/
def holds (window : Window) (address length : Nat) : Bool :=
  window.start.toNat ≤ address && address + length ≤ window.stop.toNat

end Window

/-- How a part is loaded. -/
structure Profile where
  family : Family
  /-- The most bytes one transfer carries; zero for no limit. -/
  chunkSize : Nat
  /-- The address of the CPU control register. -/
  resetRegister : UInt32
  /-- What halts the CPU when written there. -/
  holdValue : UInt8
  /-- What lets it run. -/
  releaseValue : UInt8
  /-- Whether a boot EEPROM can be written through a loader. -/
  hasEeprom : Bool
  /-- Whether the boot EEPROM's header ends in a config byte. -/
  hasConfigByte : Bool
  /-- The first byte of that header. -/
  bootMarker : UInt8
  /-- The bits of the config byte the part heeds. -/
  configMask : UInt8
  /-- The windows of on-chip RAM that can be written while the CPU is held. -/
  onChip : List Window
  deriving DecidableEq, Repr

namespace Profile

/-- The most bytes one transfer carries, if there is a limit. -/
def transferLimit (profile : Profile) : Option Nat :=
  if profile.chunkSize = 0 then none else some profile.chunkSize

/-- Whether an address lies in some on-chip window. -/
def isOnChip (profile : Profile) (address : Nat) : Bool :=
  profile.onChip.any (·.contains address)

/-- Whether one on-chip window holds the whole range. -/
def holds (profile : Profile) (address : UInt32) (length : Nat) : Bool :=
  profile.onChip.any (·.holds address.toNat length)

/-- Where windows begin or end. -/
def edges (profile : Profile) : List UInt32 :=
  profile.onChip.flatMap fun window => [window.start, window.stop]

/-- The smaller of two edges, where there are two. -/
def nearerEdge (edge : UInt32) : Option UInt32 → Option UInt32
  | none => some edge
  | some other => some (if other < edge then other else edge)

/-- The first edge after an address. -/
def nextEdge? (profile : Profile) (address : UInt32) : Option UInt32 :=
  (profile.edges.filter (address < ·)).foldr nearerEdge none

/-- The length of the boot EEPROM's header. -/
def bootHeaderLength (profile : Profile) : Nat :=
  if profile.hasConfigByte then 8 else 7

end Profile

/-- The most bytes one transfer to a known family carries. -/
def usualChunkSize : Nat := 1023

/-- The profile of a family. -/
def Family.profile : Family → Profile
  | .an21 => {
      family := .an21, chunkSize := usualChunkSize
      resetRegister := 0x7F92, holdValue := 0x01, releaseValue := 0x00
      hasEeprom := true, hasConfigByte := false, bootMarker := 0xB2, configMask := 0x00
      onChip := [⟨0x0000, 0x1B40⟩] }
  | .fx => {
      family := .fx, chunkSize := usualChunkSize
      resetRegister := 0x7F92, holdValue := 0x01, releaseValue := 0x00
      hasEeprom := true, hasConfigByte := true, bootMarker := 0xB6, configMask := 0x07
      onChip := [⟨0x0000, 0x1B40⟩] }
  | .fx2 => {
      family := .fx2, chunkSize := usualChunkSize
      resetRegister := 0xE600, holdValue := 0x01, releaseValue := 0x00
      hasEeprom := true, hasConfigByte := true, bootMarker := 0xC2, configMask := 0x4F
      onChip := [⟨0x0000, 0x2000⟩, ⟨0xE000, 0xE200⟩] }
  | .fx2lp => {
      family := .fx2lp, chunkSize := usualChunkSize
      resetRegister := 0xE600, holdValue := 0x01, releaseValue := 0x00
      hasEeprom := true, hasConfigByte := true, bootMarker := 0xC2, configMask := 0x4F
      onChip := [⟨0x0000, 0x4000⟩, ⟨0xE000, 0xE200⟩] }

end UsbBoot.Chip
