/-
What cutting comes to.

A chunk ends where its segment stops, where a window begins or ends, or when a transfer is
full, whichever comes first.  It is cut at every edge, whatever windows there are: they may
be empty or upside down, they may touch or overlap, and they come in no order.  That is why
one mark serves a whole chunk.  A window that holds the first byte of a chunk cannot end
before the last one does, and a window that does not hold the first byte cannot begin later.

Where two windows touch, a chunk ends between them, although every byte around is on the
chip.  So a chunk that is on the chip always has a window of its own.
-/
import UsbBoot.Proofs.Image.Joined

namespace UsbBoot

variable {profile : Chip.Profile} {limit : Option Nat}

/-! ### Edges as places -/

/-- Some window begins or ends at a place. -/
def Chip.Profile.HasEdge (profile : Chip.Profile) (place : Nat) : Prop :=
  ∃ window ∈ profile.onChip, place = window.start.toNat ∨ place = window.stop.toNat

theorem Chip.Profile.hasEdge_iff {place : Nat} :
    profile.HasEdge place ↔ ∃ edge ∈ profile.edges, place = edge.toNat := by
  constructor
  · rintro ⟨window, hmem, rfl | rfl⟩
    · exact ⟨window.start, start_mem_edges hmem, rfl⟩
    · exact ⟨window.stop, stop_mem_edges hmem, rfl⟩
  · rintro ⟨edge, hedge, rfl⟩
    obtain ⟨window, hmem, hbound⟩ := List.mem_flatMap.mp hedge
    rw [List.mem_pair] at hbound
    exact ⟨window, hmem, hbound.imp (congrArg _) (congrArg _)⟩

/-! ### Where chunks start and stop -/

theorem Chunk.stop_segment (chunk : Chunk) :
    chunk.segment.stop = chunk.address.toNat + chunk.data.length := rfl

/-- Of contiguous segments each starts behind the bytes of those before it. -/
theorem Contiguous.base_eq {address : Nat} {front back : List Segment} {segment : Segment}
    (h : Contiguous address (front ++ segment :: back)) :
    segment.base.toNat = address + (bytesOf front).length := by
  induction front generalizing address with
  | nil => simpa using h.1
  | cons first rest ih =>
      have hrest := ih h.2
      simp only [bytesOf_cons, List.length_append, Segment.length] at hrest ⊢
      omega

theorem bytesOf_map_segment (list : List Chunk) :
    bytesOf (list.map Chunk.segment) = list.flatMap Chunk.data := by
  simp only [bytesOf, List.flatMap_map, Chunk.segment]

/-- A chunk only stops short of its segment's end at an edge, or when a transfer is full. -/
theorem runChunks_full (profile : Chip.Profile) (limit : Option Nat) {address : UInt32}
    {bytes : List UInt8} (hfits : (Segment.mk address bytes).Fits) :
    ∀ chunk ∈ runChunks profile limit address bytes,
      chunk.segment.stop = (Segment.mk address bytes).stop
        ∨ profile.HasEdge chunk.segment.stop
        ∨ ∃ most, limit = some most ∧ chunk.data.length = max most 1 := by
  fun_induction runChunks profile limit address bytes with
  | case1 => simp
  | case2 address first rest count ih =>
      intro chunk hmem
      have hle : count ≤ (first :: rest).length := Chunk.take_le ..
      rcases List.mem_cons.mp hmem with rfl | htail
      · have hlength : ((first :: rest).take count).length = count := by
          rw [List.length_take, Nat.min_eq_left hle]
        rw [Chunk.stop_segment, hlength]
        rcases Chunk.take_eq profile limit address (rest.length + 1) with
          hall | hfull | ⟨edge, hedge, hlt, hreach⟩
        · exact Or.inl (congrArg (address.toNat + ·) hall)
        · exact Or.inr (Or.inr hfull)
        · have hbelow := UInt32.lt_iff_toNat_lt.mp hlt
          have hstop : address.toNat + count = edge.toNat := by omega
          exact Or.inr (Or.inl (Chip.Profile.hasEdge_iff.mpr ⟨edge, hedge, hstop⟩))
      · rcases Nat.eq_or_lt_of_le hle with hlast | hlt
        · -- Behind the last chunk there is none.
          rw [List.drop_eq_nil_of_le (Nat.le_of_eq hlast.symm), runChunks_nil] at htail
          cases htail
        · have hstop : (Segment.mk (address + count.toUInt32) ((first :: rest).drop count)).stop
              = (Segment.mk address (first :: rest)).stop := by
            simp only [Segment.stop, Segment.length, hfits.toNat_next hlt, List.length_drop]
            omega
          rw [← hstop]
          exact ih hfits.drop chunk htail

/-! ### Cuts -/

/-- What is asked of each chunk of a segment. -/
structure Chunk.CutFrom (profile : Chip.Profile) (limit : Option Nat) (segment : Segment)
    (chunk : Chunk) : Prop where
  /-- It carries something. -/
  nonempty : chunk.data ≠ []
  /-- It is no longer than a transfer may be; one byte is always allowed. -/
  bounded : ∀ most, limit = some most → chunk.data.length ≤ max most 1
  /-- No window begins or ends between its bytes. -/
  uncut : ∀ place, profile.HasEdge place →
    ¬(chunk.address.toNat < place ∧ place < chunk.segment.stop)
  /-- Its mark tells whether its first byte is in a window. -/
  marked : chunk.onChip = true
    ↔ ∃ window ∈ profile.onChip, window.contains chunk.address.toNat = true
  /-- If it is on the chip, one window has all of its bytes. -/
  inside : chunk.onChip = true → ∃ window ∈ profile.onChip,
    ∀ address, chunk.segment.Covers address → window.contains address = true
  /-- If it is not, no window has any of them. -/
  outside : chunk.onChip = false → ∀ window ∈ profile.onChip,
    ∀ address, chunk.segment.Covers address → window.contains address = false
  /-- It could not be longer. -/
  full : chunk.segment.stop = segment.stop ∨ profile.HasEdge chunk.segment.stop
    ∨ ∃ most, limit = some most ∧ chunk.data.length = max most 1

/-- What is asked of the chunks of a segment together. -/
structure IsCut (profile : Chip.Profile) (limit : Option Nat) (segment : Segment)
    (cut : List Chunk) : Prop where
  /-- They carry the bytes of the segment, in order. -/
  whole : cut.flatMap Chunk.data = segment.bytes
  /-- Each goes to the address its first byte has in the segment. -/
  placed : ∀ front chunk back, cut = front ++ chunk :: back →
    chunk.address.toNat = segment.base.toNat + (front.flatMap Chunk.data).length
  each : ∀ chunk ∈ cut, chunk.CutFrom profile limit segment

theorem Chunk.Sound.bounded_max {chunk : Chunk} (h : chunk.Sound profile limit) {most : Nat}
    (hmost : limit = some most) : chunk.data.length ≤ max most 1 := by
  have hlimited := h.bounded
  subst hmost
  simp only [limited] at hlimited
  omega

theorem Chunk.Sound.inside {chunk : Chunk} (h : chunk.Sound profile limit)
    (honChip : chunk.onChip = true) : ∃ window ∈ profile.onChip,
      ∀ address, chunk.segment.Covers address → window.contains address = true := by
  rw [h.marked, Chip.Profile.holds, List.any_eq_true] at honChip
  obtain ⟨window, hmem, hholds⟩ := honChip
  simp only [Chip.Window.holds, Bool.and_eq_true, decide_eq_true_eq] at hholds
  refine ⟨window, hmem, fun address hcovers => ?_⟩
  simp only [Chip.Window.contains, Bool.and_eq_true, decide_eq_true_eq]
  exact ⟨Nat.le_trans hholds.1 hcovers.1, Nat.lt_of_lt_of_le hcovers.2 hholds.2⟩

theorem Chunk.Sound.outside {chunk : Chunk} (h : chunk.Sound profile limit)
    (honChip : chunk.onChip = false) : ∀ window ∈ profile.onChip,
      ∀ address, chunk.segment.Covers address → window.contains address = false := by
  intro window hmem address hcovers
  have hside := h.isOnChip hcovers.1 hcovers.2
  rw [honChip, Chip.Profile.isOnChip, List.any_eq_false] at hside
  simpa using hside window hmem

theorem isCut_runChunks (profile : Chip.Profile) (limit : Option Nat) {segment : Segment}
    (hfits : segment.Fits) :
    IsCut profile limit segment (runChunks profile limit segment.base segment.bytes) := by
  have hcontiguous := contiguous_runChunks profile limit segment.base segment.bytes hfits
  have hsound := runChunks_sound profile limit segment.base segment.bytes
  refine ⟨?_, ?_, fun chunk hmem => ?_⟩
  · rw [← bytesOf_map_segment]
    exact bytesOf_runChunks ..
  · intro front chunk back heq
    rw [heq, List.map_append, List.map_cons] at hcontiguous
    rw [← bytesOf_map_segment]
    exact hcontiguous.base_eq
  · have hown := hsound chunk hmem
    have hfirst : profile.isOnChip chunk.address.toNat = chunk.onChip :=
      hown.isOnChip (Nat.le_refl _) (Nat.lt_add_of_pos_right hown.nonempty)
    exact {
      nonempty := List.ne_nil_of_length_pos hown.nonempty
      bounded := fun most hmost => hown.bounded_max hmost
      uncut := by
        rintro place hplace ⟨hlow, hhigh⟩
        obtain ⟨edge, hedge, rfl⟩ := Chip.Profile.hasEdge_iff.mp hplace
        exact Nat.not_lt_of_le (hown.uncut edge hedge (UInt32.lt_iff_toNat_lt.mpr hlow)) hhigh
      marked := by rw [← hfirst, Chip.Profile.isOnChip, List.any_eq_true]
      inside := hown.inside
      outside := hown.outside
      full := runChunks_full profile limit hfits chunk hmem }

/--
**Segments are cut at edges and where transfers are full, and nowhere else.**

The chunks of segments that fit are those of the first segment, then those of the next one,
and so on.  Those of one segment carry its bytes in order, each chunk from the address of its
first byte on.  No chunk is empty or longer than a transfer may be, and none reaches across
an edge.  A chunk is marked as on the chip exactly if its first byte is in a window; then one
window has all its bytes, and otherwise no window has any.  Each chunk ends with its segment,
at an edge, or when the transfer is full.  All this holds of any windows and any limit.
-/
theorem chunks_cut (profile : Chip.Profile) (limit : Option Nat) {segments : List Segment}
    (hfits : ∀ segment ∈ segments, segment.Fits) :
    ∃ cuts, chunks profile limit segments = cuts.flatten ∧
      List.Forall₂ (IsCut profile limit) segments cuts := by
  refine ⟨segments.map fun segment => runChunks profile limit segment.base segment.bytes,
    by rw [chunks, List.flatMap_def], ?_⟩
  induction segments with
  | nil => exact .nil
  | cons segment rest ih =>
      obtain ⟨hfirst, hrest⟩ := List.forall_mem_cons.mp hfits
      exact .cons (isCut_runChunks profile limit hfirst) (ih hrest)

/-- Windows that touch, one inside another, and one upside down; a segment that runs through
them all, behind one that holds the last addresses there are. -/
theorem chunks_cut_touching :
    let profile := { Chip.Family.fx2.profile with onChip := [⟨8, 12⟩, ⟨4, 8⟩, ⟨5, 7⟩, ⟨15, 13⟩] }
    let segments : List Segment :=
      [⟨0xFFFFFFFE, [1, 2]⟩, ⟨6, [3, 4, 5, 6, 7, 8, 9, 10, 11]⟩]
    let cuts : List (List Chunk) :=
      [[⟨0xFFFFFFFE, [1, 2], false⟩],
        [⟨6, [3], true⟩, ⟨7, [4], true⟩, ⟨8, [5, 6, 7], true⟩, ⟨11, [8], true⟩,
          ⟨12, [9], false⟩, ⟨13, [10, 11], false⟩]]
    (∀ segment ∈ segments, segment.Fits) ∧ chunks profile (some 3) segments = cuts.flatten ∧
      ∃ found, found.flatten = cuts.flatten ∧
        List.Forall₂ (IsCut profile (some 3)) segments found := by
  intro profile segments cuts
  have hfits : ∀ segment ∈ segments, segment.Fits := by decide
  have hchunks : chunks profile (some 3) segments = cuts.flatten := by decide +kernel
  obtain ⟨found, heq, hcut⟩ := chunks_cut profile (some 3) hfits
  exact ⟨hfits, hchunks, found, heq.symm.trans hchunks, hcut⟩

end UsbBoot
