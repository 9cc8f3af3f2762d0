/-
Segments that lie apart, and segments joined where they touch.

Two segments lie apart when they have no address in common.  For a whole list that is the
same as saying that no address comes twice among the addresses of all bytes, so whatever
keeps the bytes of a list in their places and in their order keeps the segments apart.
Joining does: a segment that starts where the one before it ends is put to that one, and
the bytes do not move.  What is left is cut exactly where one segment does not continue
the one before.
-/
import Mathlib.Data.List.Nodup
import Mathlib.Data.List.SplitBy
import UsbBoot.Proofs.Chunk

namespace UsbBoot

namespace Segment

/-! ### Addresses -/

/-- Whether the segment puts a byte at an address. -/
def Covers (segment : Segment) (address : Nat) : Prop :=
  segment.base.toNat ≤ address ∧ address < segment.stop

/-- Two segments that have no address in common. -/
def Apart (one other : Segment) : Prop :=
  ∀ address, ¬(one.Covers address ∧ other.Covers address)

theorem isSome_byteAt? (segment : Segment) (address : Nat) :
    (segment.byteAt? address).isSome = true ↔ segment.Covers address :=
  Memory.stretch_isSome ..

/-- Of segments that hold something, the bounds tell whether they lie apart. -/
theorem meets_iff {segment other : Segment} (hsegment : segment.bytes ≠ [])
    (hother : other.bytes ≠ []) :
    segment.meets other.base other.length = true ↔ ¬segment.Apart other := by
  have hleft : 0 < segment.length := List.length_pos_of_ne_nil hsegment
  have hright : 0 < other.length := List.length_pos_of_ne_nil hother
  have hstop : segment.stop = segment.base.toNat + segment.length := rfl
  have hotherStop : other.stop = other.base.toNat + other.length := rfl
  rw [meets, Bool.and_eq_true, decide_eq_true_eq, decide_eq_true_eq, ← hotherStop]
  constructor
  · rintro ⟨hbelow, habove⟩ hapart
    -- The higher one of the two starts is in both.
    refine hapart (max segment.base.toNat other.base.toNat) ⟨⟨?_, ?_⟩, ?_, ?_⟩ <;> omega
  · intro h
    by_contra hbounds
    refine h fun address ⟨⟨hlow, hhigh⟩, hotherLow, hotherHigh⟩ => hbounds ⟨?_, ?_⟩ <;> omega

end Segment

/-- The addresses of all bytes, in order. -/
def addressesOf (segments : List Segment) : List Nat :=
  (placedOf segments).map Prod.fst

@[simp] theorem placedOf_cons (segment : Segment) (rest : List Segment) :
    placedOf (segment :: rest) = segment.placed ++ placedOf rest := by
  simp [placedOf]

theorem addressesOf_cons (segment : Segment) (rest : List Segment) :
    addressesOf (segment :: rest)
      = List.range' segment.base.toNat segment.length ++ addressesOf rest := by
  have hrange : segment.placed.map Prod.fst = List.range' segment.base.toNat segment.length := by
    refine List.ext_getElem (by simp [Segment.placed, Segment.length]) fun i hi hother => ?_
    simp [Segment.placed]
  rw [addressesOf, placedOf_cons, List.map_append, hrange, addressesOf]

theorem map_snd_placedOf (segments : List Segment) :
    (placedOf segments).map Prod.snd = bytesOf segments := by
  induction segments with
  | nil => rfl
  | cons segment rest ih =>
      have hbytes : segment.placed.map Prod.snd = segment.bytes := by
        refine List.ext_getElem (by simp [Segment.placed]) fun i hi hother => ?_
        simp [Segment.placed]
      rw [placedOf_cons, List.map_append, hbytes, ih, bytesOf_cons]

theorem mem_addressesOf {segments : List Segment} {address : Nat} :
    address ∈ addressesOf segments ↔ ∃ segment ∈ segments, segment.Covers address := by
  induction segments with
  | nil => simp [addressesOf, placedOf]
  | cons segment rest ih =>
      rw [addressesOf_cons, List.mem_append, List.mem_range'_1, ih, List.exists_mem_cons_iff]
      rfl

/-- **Segments lie apart exactly if no address comes twice.** -/
theorem pairwise_apart_iff (segments : List Segment) :
    segments.Pairwise Segment.Apart ↔ (addressesOf segments).Nodup := by
  induction segments with
  | nil => simp [addressesOf, placedOf]
  | cons segment rest ih =>
      rw [List.pairwise_cons, addressesOf_cons, List.nodup_append', ih]
      have hfirst : (List.range' segment.base.toNat segment.length).Nodup :=
        List.nodup_range'
      have hrest : (∀ other ∈ rest, segment.Apart other) ↔
          (List.range' segment.base.toNat segment.length).Disjoint (addressesOf rest) := by
        constructor
        · intro hapart address hown hother
          obtain ⟨other, hmem, hcovers⟩ := mem_addressesOf.mp hother
          exact hapart other hmem address ⟨List.mem_range'_1.mp hown, hcovers⟩
        · intro hdisjoint other hmem address hshared
          exact hdisjoint (List.mem_range'_1.mpr hshared.1)
            (mem_addressesOf.mpr ⟨other, hmem, hshared.2⟩)
      rw [hrest]
      tauto

instance (segments : List Segment) : Decidable (segments.Pairwise Segment.Apart) :=
  decidable_of_iff _ (pairwise_apart_iff segments).symm

/-- Where segments lie apart, it does not matter which of them counts. -/
theorem Image.byteAt?_of_apart {segments : List Segment}
    (h : segments.Pairwise Segment.Apart) (address : Nat) (byte : UInt8) :
    (Image.mk segments).byteAt? address = some byte
      ↔ ∃ segment ∈ segments, segment.byteAt? address = some byte := by
  induction segments with
  | nil => simp
  | cons segment rest ih =>
      obtain ⟨hfirst, hrest⟩ := List.pairwise_cons.mp h
      rw [Image.byteAt?_cons, List.exists_mem_cons_iff, Option.or_eq_some_iff, ih hrest]
      constructor
      · rintro (hbehind | ⟨-, hown⟩)
        · exact Or.inr hbehind
        · exact Or.inl hown
      · rintro (hown | hbehind)
        · refine Or.inr ⟨Image.byteAt?_eq_none fun other hmem => ?_, hown⟩
          -- The address is taken by the first segment, so no other one has it.
          rw [← Option.not_isSome_iff_eq_none, other.isSome_byteAt?]
          intro hother
          exact hfirst other hmem address
            ⟨(segment.isSome_byteAt? address).mp (by simp [hown]), hother⟩
        · exact Or.inl hbehind

/-! ### Joining -/

/-- What a segment that may still grow, if there is one, and those behind it make up: one that
starts where the one before it ends is put to it. -/
def joinAfter : Option Segment → List Segment → List Segment
  | none, [] => []
  | some last, [] => [last]
  | none, next :: rest => joinAfter (some next) rest
  | some last, next :: rest =>
    if next.base.toNat = last.stop then joinAfter (some (last.extend next.bytes)) rest
    else last :: joinAfter (some next) rest

/-- Segments, each put to the one before it if it starts where that one ends. -/
def joined (segments : List Segment) : List Segment :=
  joinAfter none segments

theorem Segment.placed_extend {last next : Segment} (h : next.base.toNat = last.stop) :
    (last.extend next.bytes).placed = last.placed ++ next.placed := by
  rw [Segment.stop, Segment.length] at h
  simp only [Segment.placed, Segment.extend, List.mapIdx_append, h, Nat.add_assoc,
    Nat.add_comm last.bytes.length]

theorem Segment.stop_extend {last next : Segment} (h : next.base.toNat = last.stop) :
    (last.extend next.bytes).stop = next.stop := by
  rw [Segment.stop] at h
  simp only [Segment.stop, Segment.extend, Segment.length, List.length_append] at h ⊢
  omega

/-- Joining moves no byte. -/
theorem placedOf_joinAfter (last : Option Segment) (rest : List Segment) :
    placedOf (joinAfter last rest) = placedOf (last.toList ++ rest) := by
  induction rest generalizing last with
  | nil => cases last <;> simp [joinAfter]
  | cons next rest ih =>
      cases last with
      | none => exact ih (some next)
      | some last =>
          rw [joinAfter]
          split
          · rename_i htouch
            rw [ih]
            simp [Segment.placed_extend htouch]
          · simp [ih]

theorem placedOf_joined (segments : List Segment) :
    placedOf (joined segments) = placedOf segments :=
  placedOf_joinAfter none segments

theorem bytesOf_joined (segments : List Segment) :
    bytesOf (joined segments) = bytesOf segments := by
  rw [← map_snd_placedOf, placedOf_joined, map_snd_placedOf]

/-- What holds of every segment, and of two that are put together, holds after joining. -/
theorem forall_joinAfter {good : Segment → Prop}
    (hextend : ∀ last next, good last → good next → next.base.toNat = last.stop →
      good (last.extend next.bytes))
    {last : Option Segment} {rest : List Segment}
    (h : ∀ segment ∈ last.toList ++ rest, good segment) :
    ∀ segment ∈ joinAfter last rest, good segment := by
  induction rest generalizing last with
  | nil => cases last <;> exact h
  | cons next rest ih =>
      cases last with
      | none => exact @ih (some next) h
      | some last =>
          simp only [Option.toList_some, List.singleton_append, List.forall_mem_cons] at h
          obtain ⟨hlast, hnext, hrest⟩ := h
          rw [joinAfter]
          split
          · rename_i htouch
            exact ih (List.forall_mem_cons.mpr ⟨hextend last next hlast hnext htouch, hrest⟩)
          · exact List.forall_mem_cons.mpr
              ⟨hlast, @ih (some next) (List.forall_mem_cons.mpr ⟨hnext, hrest⟩)⟩

theorem fits_joined {segments : List Segment} (h : ∀ segment ∈ segments, segment.Fits) :
    ∀ segment ∈ joined segments, segment.Fits := by
  refine forall_joinAfter (fun last next _ hnext htouch => ?_) h
  rw [Segment.Fits, Segment.stop_extend htouch]
  exact hnext

theorem solid_joined {segments : List Segment} (h : ∀ segment ∈ segments, segment.bytes ≠ []) :
    ∀ segment ∈ joined segments, segment.bytes ≠ [] := by
  refine forall_joinAfter (fun last next hlast _ _ => ?_) h
  simp [Segment.extend, hlast]

theorem apart_joined {segments : List Segment} (h : segments.Pairwise Segment.Apart) :
    (joined segments).Pairwise Segment.Apart := by
  rw [pairwise_apart_iff, addressesOf] at h ⊢
  rwa [placedOf_joined]

/-! ### Nothing is left to join -/

/-- Of two segments, the second one does not start where the first one ends. -/
def Segment.LeavesGap (last next : Segment) : Prop :=
  next.base.toNat ≠ last.stop

theorem base_head_joinAfter (last : Segment) (rest : List Segment) :
    ∀ first ∈ (joinAfter (some last) rest).head?, first.base = last.base := by
  induction rest generalizing last with
  | nil => simp [joinAfter]
  | cons next rest ih =>
      rw [joinAfter]
      split
      · exact ih (last.extend next.bytes)
      · simp

theorem isChain_joinAfter (last : Option Segment) (rest : List Segment) :
    (joinAfter last rest).IsChain Segment.LeavesGap := by
  induction rest generalizing last with
  | nil => cases last <;> simp [joinAfter]
  | cons next rest ih =>
      cases last with
      | none => exact ih (some next)
      | some last =>
          rw [joinAfter]
          split
          · exact ih _
          · rename_i hgap
            -- Whatever the next one grows to, it begins where it began.
            refine List.isChain_cons.mpr ⟨fun first hmem => ?_, ih (some next)⟩
            rwa [Segment.LeavesGap, base_head_joinAfter next rest first hmem]

theorem joinAfter_of_isChain {last : Option Segment} {rest : List Segment}
    (h : (last.toList ++ rest).IsChain Segment.LeavesGap) :
    joinAfter last rest = last.toList ++ rest := by
  induction rest generalizing last with
  | nil => cases last <;> simp [joinAfter]
  | cons next rest ih =>
      cases last with
      | none => exact @ih (some next) h
      | some last =>
          obtain ⟨hgap, hrest⟩ := List.isChain_cons_cons.mp h
          rw [joinAfter, if_neg hgap, @ih (some next) hrest]
          rfl

/-! ### Where the cuts are -/

/-- Whether a segment starts where another one ends. -/
def Segment.continues (last next : Segment) : Bool :=
  next.base.toNat == last.stop

/-- Some segments in one, at the address of the first. -/
def glue (group : List Segment) : Segment :=
  ⟨(group.head?.map Segment.base).getD 0, bytesOf group⟩

theorem glue_singleton (segment : Segment) : glue [segment] = segment := by
  simp [glue]

theorem glue_append_singleton {group : List Segment} (h : group ≠ []) (next : Segment) :
    glue (group ++ [next]) = (glue group).extend next.bytes := by
  obtain ⟨first, rest, rfl⟩ := List.exists_cons_of_ne_nil h
  simp [glue, Segment.extend]

theorem joinAfter_glue {group : List Segment} (hne : group ≠ [])
    (hgroup : group.IsChain fun last next => last.continues next = true)
    (hstop : (group.getLast hne).stop = (glue group).stop) (rest : List Segment) :
    joinAfter (some (glue group)) rest
      = ((group ++ rest).splitBy Segment.continues).map glue := by
  -- By induction on what comes behind a group; the group ends where its last segment does.
  induction rest generalizing group with
  | nil =>
      rw [List.append_nil, List.splitBy_of_isChain hne hgroup]
      rfl
  | cons next rest ih =>
      rw [joinAfter]
      split
      · rename_i htouch
        have hlast : (group.getLast hne).continues next = true := by
          simpa [Segment.continues, hstop] using htouch
        have hne' : group ++ [next] ≠ [] := by simp
        have hchain : (group ++ [next]).IsChain fun last next => last.continues next = true := by
          refine List.isChain_append.mpr ⟨hgroup, List.isChain_singleton _, ?_⟩
          intro last hmem other hother
          rw [← List.getLast_of_mem_getLast? hmem]
          cases hother
          exact hlast
        have hend : ((group ++ [next]).getLast hne').stop = (glue (group ++ [next])).stop := by
          rw [glue_append_singleton hne, Segment.stop_extend htouch, List.getLast_append_singleton]
        have := ih hne' hchain hend
        rwa [glue_append_singleton hne, List.append_assoc] at this
      · rename_i hgap
        have hlast : ∀ last ∈ group.getLast?, last.continues next = false := by
          intro last hmem
          rw [← List.getLast_of_mem_getLast? hmem]
          simpa [Segment.continues, hstop] using hgap
        rw [List.splitBy_append_cons rest hlast, List.splitBy_of_isChain hne hgroup]
        have hnext := @ih [next] (by simp) (List.isChain_singleton _) (by rw [glue_singleton]; rfl)
        rw [glue_singleton] at hnext
        rw [hnext]
        rfl

/-- **Joined segments are cut exactly where one does not continue the one before.** -/
theorem joined_eq_splitBy (segments : List Segment) :
    joined segments = (segments.splitBy Segment.continues).map glue := by
  cases segments with
  | nil => rfl
  | cons first rest =>
      have h := @joinAfter_glue [first] (by simp) (List.isChain_singleton _)
        (by rw [glue_singleton]; rfl) rest
      rwa [glue_singleton] at h

end UsbBoot
