/-
Cutting segments into transfers.

A chunk is what one transfer carries.  Segments are cut where a transfer would grow too
long and at every edge of an on-chip window, so that each chunk lies wholly within
on-chip RAM or wholly outside of it.  Chunks come in the order of the segments, and by
rising address within one.
-/
import UsbBoot.Chip.Profile
import UsbBoot.Image.Basic

namespace UsbBoot

/-- What one transfer carries. -/
structure Chunk where
  /-- Where its first byte goes. -/
  address : UInt32
  data : List UInt8
  /-- Whether it lies within on-chip RAM. -/
  onChip : Bool
  deriving DecidableEq, Repr

namespace Chunk

/-- A length under a limit, if there is one; a limit below one counts as one. -/
def limited (limit : Option Nat) (length : Nat) : Nat :=
  match limit with
  | none => length
  | some most => min length (max most 1)

/-- How many of `left` bytes at `address` make up the next chunk. -/
def take (profile : Chip.Profile) (limit : Option Nat) (address : UInt32) (left : Nat) : Nat :=
  match profile.nextEdge? address with
  | none => limited limit left
  | some edge => min (limited limit left) (edge.toNat - address.toNat)

end Chunk

theorem Chip.Profile.mem_of_foldr_nearerEdge {edge : UInt32} {edges : List UInt32}
    (h : edges.foldr Chip.Profile.nearerEdge none = some edge) : edge ∈ edges := by
  induction edges generalizing edge with
  | nil => simp at h
  | cons first rest ih =>
    rw [List.foldr_cons] at h
    cases hrest : rest.foldr Chip.Profile.nearerEdge none with
    | none => rw [hrest] at h; simp_all [Chip.Profile.nearerEdge]
    | some other =>
      rw [hrest] at h
      simp only [Chip.Profile.nearerEdge, Option.some.injEq] at h
      split at h
      · exact List.mem_cons_of_mem _ (ih (h ▸ hrest))
      · exact h ▸ List.mem_cons_self

/-- The edge found after an address does lie after it. -/
theorem Chip.Profile.lt_of_nextEdge? {profile : Chip.Profile} {address edge : UInt32}
    (h : profile.nextEdge? address = some edge) : address < edge := by
  have := Chip.Profile.mem_of_foldr_nearerEdge h
  simpa using (List.mem_filter.mp this).2

theorem Chunk.limited_pos (limit : Option Nat) {left : Nat} (hleft : 0 < left) :
    0 < Chunk.limited limit left := by
  cases limit <;> simp only [Chunk.limited] <;> omega

/-- A chunk holds at least one byte as long as there is one. -/
theorem Chunk.take_pos (profile : Chip.Profile) (limit : Option Nat) (address : UInt32)
    {left : Nat} (hleft : 0 < left) : 0 < Chunk.take profile limit address left := by
  have hlimited := Chunk.limited_pos limit hleft
  unfold Chunk.take
  cases hedge : profile.nextEdge? address with
  | none => exact hlimited
  | some edge =>
    have := UInt32.lt_iff_toNat_lt.mp (Chip.Profile.lt_of_nextEdge? hedge)
    simp only
    omega

/-- The chunks of some bytes that start at an address. -/
def runChunks (profile : Chip.Profile) (limit : Option Nat) (address : UInt32)
    (bytes : List UInt8) : List Chunk :=
  match bytes with
  | [] => []
  | first :: rest =>
    -- No chunk crosses an edge, so it lies on the chip as a whole or not at all.
    let count := Chunk.take profile limit address (rest.length + 1)
    ⟨address, (first :: rest).take count, profile.holds address count⟩ ::
      runChunks profile limit (address + count.toUInt32) ((first :: rest).drop count)
termination_by bytes.length
decreasing_by
  have : 0 < count := Chunk.take_pos profile limit address (by omega)
  simp only [List.length_drop, List.length_cons]
  omega

def chunks (profile : Chip.Profile) (limit : Option Nat) (segments : List Segment) : List Chunk :=
  segments.flatMap fun segment => runChunks profile limit segment.base segment.bytes

/-- Whether a family's on-chip RAM holds the whole image, so that no loader is needed. -/
def Image.fits (image : Image) (family : Chip.Family) : Bool :=
  (chunks family.profile family.profile.transferLimit image.segments).all (·.onChip)

/-- The families whose on-chip RAM holds the whole image. -/
def Image.fittingFamilies (image : Image) : List Chip.Family :=
  Chip.Family.all.filter image.fits

end UsbBoot
