/-
What a pass may write.

A plan is judged before anything is sent, and it is judged by its chunks.  What is asked of
it concerns bytes, though: that each of them lies on the chip, unless a loader can write
outside.  The two come to the same.  An address can change sides at an edge of a window
only, and there a chunk ends; so the first chunk outside starts at the first byte outside,
however much a transfer may carry.  How far that chunk reaches is the only thing that the
limit decides.
-/
import Mathlib.Order.Bounds.Basic
import UsbBoot.Pass.Plan
import UsbBoot.Proofs.Image.Joined

namespace UsbBoot

variable {profile : Chip.Profile} {limit : Option Nat}

/-! ### How far a chunk reaches -/

/-- The lengths at which a chunk has to end that starts at an address: where its bytes stop,
at an edge behind the address, and when a transfer is full. -/
def Chunk.Ends (profile : Chip.Profile) (limit : Option Nat) (address : UInt32) (stop : Nat) :
    Set Nat :=
  {length | length = stop - address.toNat ∨ limit = some length ∨
    ∃ edge ∈ profile.edges, address < edge ∧ length = edge.toNat - address.toNat}

/-- A chunk reaches as far as it can. -/
theorem Chunk.isLeast_take (hlimit : ∀ most, limit = some most → 0 < most) (address : UInt32)
    {left stop : Nat} (hstop : stop = address.toNat + left) :
    IsLeast (Ends profile limit address stop) (take profile limit address left) := by
  have hleft : stop - address.toNat = left := by omega
  constructor
  · rcases take_eq profile limit address left with hall | ⟨most, hmost, hfull⟩ | hedge
    · exact Or.inl (hall.trans hleft.symm)
    · have hmax : max most 1 = most := Nat.max_eq_left (hlimit most hmost)
      exact Or.inr (Or.inl (by rw [hfull, hmax, hmost]))
    · exact Or.inr (Or.inr hedge)
  · rintro length (rfl | rfl | ⟨edge, hedge, hlt, rfl⟩)
    · exact Nat.le_trans (take_le profile limit address left) (Nat.le_of_eq hleft.symm)
    · have hpos := hlimit length rfl
      refine Nat.le_trans (take_le_limited profile _ address left) ?_
      simp only [limited]
      omega
    · have hle := take_le_edge limit left hedge hlt
      omega

/-! ### The first byte outside -/

/-- The places of the bytes of a segment, by rising address, each with where the segment
stops. -/
def Segment.places (segment : Segment) : List (Nat × Nat) :=
  (List.range' segment.base.toNat segment.length).map fun address => (address, segment.stop)

/-- The places of the bytes of some segments, in order. -/
def placesOf (segments : List Segment) : List (Nat × Nat) :=
  segments.flatMap Segment.places

/-- The first place outside all windows, if there is one. -/
def Chip.Profile.firstOutside? (profile : Chip.Profile) (places : List (Nat × Nat)) :
    Option (Nat × Nat) :=
  places.find? fun place => !profile.isOnChip place.1

theorem Chip.Profile.firstOutside?_append (profile : Chip.Profile) (xs ys : List (Nat × Nat)) :
    profile.firstOutside? (xs ++ ys)
      = (profile.firstOutside? xs).or (profile.firstOutside? ys) :=
  List.find?_append

theorem mem_placesOf {segments : List Segment} {place : Nat × Nat} :
    place ∈ placesOf segments
      ↔ ∃ segment ∈ segments, segment.Covers place.1 ∧ place.2 = segment.stop := by
  obtain ⟨address, stop⟩ := place
  simp only [placesOf, List.mem_flatMap, Segment.places, List.mem_map, List.mem_range'_1,
    Prod.mk.injEq, Segment.Covers, Segment.stop]
  constructor
  · rintro ⟨segment, hmem, other, hcovers, rfl, rfl⟩
    exact ⟨segment, hmem, hcovers, rfl⟩
  · rintro ⟨segment, hmem, hcovers, rfl⟩
    exact ⟨segment, hmem, address, hcovers, rfl, rfl⟩

theorem Chip.Profile.firstOutside?_eq_none_iff {places : List (Nat × Nat)} :
    profile.firstOutside? places = none
      ↔ ∀ place ∈ places, profile.isOnChip place.1 = true := by
  simp [firstOutside?]

/-- The chunk starts at the place and reaches as far as it can. -/
def Chunk.StartsAt (profile : Chip.Profile) (limit : Option Nat) (chunk : Chunk)
    (place : Nat × Nat) : Prop :=
  chunk.address.toNat = place.1 ∧
    IsLeast (Ends profile limit chunk.address place.2) chunk.data.length

/-- The places of a segment are those of its front, and those of what is behind it. -/
theorem Segment.places_cut {address : UInt32} {bytes : List UInt8} {count : Nat}
    (hfits : (Segment.mk address bytes).Fits) (hle : count ≤ bytes.length) :
    (Segment.mk address bytes).places
      = ((List.range' address.toNat count).map fun place =>
          (place, (Segment.mk address bytes).stop))
        ++ (Segment.mk (address + count.toUInt32) (bytes.drop count)).places := by
  rcases Nat.eq_or_lt_of_le hle with rfl | hlt
  · simp [places, length]
  · have hrange : List.range' address.toNat bytes.length
        = List.range' address.toNat count
          ++ List.range' (address.toNat + count) (bytes.length - count) := by
      rw [List.range'_append_1, Nat.add_sub_cancel' hle]
    have hstop : address.toNat + count + (bytes.length - count)
        = address.toNat + bytes.length := by
      omega
    simp only [places, stop, length, List.length_drop, hfits.toNat_next hlt, hstop]
    rw [hrange, List.map_append]

/-- The first chunk of a run that lies outside starts at the first byte outside. -/
theorem find?_runChunks (profile : Chip.Profile)
    (hlimit : ∀ most, limit = some most → 0 < most) {address : UInt32} {bytes : List UInt8}
    (hfits : (Segment.mk address bytes).Fits) :
    Option.Rel (Chunk.StartsAt profile limit)
      ((runChunks profile limit address bytes).find? (!·.onChip))
      (profile.firstOutside? (Segment.mk address bytes).places) := by
  fun_induction runChunks profile limit address bytes with
  | case1 => exact .none
  | case2 address first rest count ih =>
      have hle : count ≤ (first :: rest).length := Chunk.take_le ..
      have hpos : 0 < count := Chunk.take_pos profile limit address (Nat.succ_pos _)
      have hlength : ((first :: rest).take count).length = count := by
        rw [List.length_take, Nat.min_eq_left hle]
      have hsound := runChunks_sound profile limit address (first :: rest)
      rw [runChunks, List.forall_mem_cons] at hsound
      have hside : ∀ place, address.toNat ≤ place → place < address.toNat + count →
          profile.isOnChip place = profile.holds address count :=
        fun place hlow hhigh => hsound.1.isOnChip hlow (by rw [hlength]; exact hhigh)
      cases honChip : profile.holds address count with
      | true =>
          -- All of this chunk is on the chip, so the first byte outside is behind it.
          have hnone : profile.firstOutside? ((List.range' address.toNat count).map fun place =>
              (place, (Segment.mk address (first :: rest)).stop)) = none := by
            rw [Chip.Profile.firstOutside?_eq_none_iff, List.forall_mem_map]
            intro place hmem
            obtain ⟨hlow, hhigh⟩ := List.mem_range'_1.mp hmem
            rw [hside place hlow hhigh, honChip]
          rw [List.find?_cons_of_neg (by simp), Segment.places_cut hfits hle,
            Chip.Profile.firstOutside?_append, hnone, Option.none_or]
          exact ih hfits.drop
      | false =>
          have houtside : profile.isOnChip address.toNat = false := by
            rw [hside address.toNat (Nat.le_refl _) (by omega), honChip]
          rw [List.find?_cons_of_pos (by simp), Chip.Profile.firstOutside?, Segment.places,
            Segment.length, List.length_cons, List.range'_succ, List.map_cons,
            List.find?_cons_of_pos (by simp [houtside])]
          refine .some ⟨rfl, ?_⟩
          rw [hlength]
          exact Chunk.isLeast_take hlimit address rfl

/-- **The first chunk that lies outside starts at the first byte outside.** -/
theorem find?_chunks (profile : Chip.Profile) (hlimit : ∀ most, limit = some most → 0 < most)
    {segments : List Segment} (hfits : ∀ segment ∈ segments, segment.Fits) :
    Option.Rel (Chunk.StartsAt profile limit)
      ((chunks profile limit segments).find? (!·.onChip))
      (profile.firstOutside? (placesOf segments)) := by
  induction segments with
  | nil => exact .none
  | cons segment rest ih =>
      obtain ⟨hfirst, hrest⟩ := List.forall_mem_cons.mp hfits
      have hrun := find?_runChunks profile hlimit hfirst
      have hlater := ih hrest
      rw [chunks, List.flatMap_cons, ← chunks, List.find?_append, placesOf, List.flatMap_cons,
        ← placesOf, Chip.Profile.firstOutside?_append]
      generalize (runChunks profile limit segment.base segment.bytes).find? (!·.onChip) = found
        at hrun
      generalize profile.firstOutside? segment.places = place at hrun
      cases hrun with
      | some hstarts => exact .some hstarts
      | none => simpa only [Option.none_or] using hlater

/-! ### Plans -/

namespace Pass.Plan

/-- The plan wants to write an EEPROM that parts with this profile do not have. -/
def LacksEeprom (plan : Plan) (profile : Chip.Profile) : Prop :=
  plan.destination = .eeprom ∧ profile.hasEeprom = false

/-- The plan may write RAM outside the chip. -/
def ReachesOut (plan : Plan) : Prop :=
  plan.destination = .ram ∧ plan.ramMode = .externalFirst

/-- The lengths at which a transfer of the plan is full: the chunk size, unless that is zero, and
for the EEPROM what a record can hold. -/
def FullAt (plan : Plan) (profile : Chip.Profile) : Set Nat :=
  {length | profile.chunkSize ≠ 0 ∧ length = profile.chunkSize ∨
    plan.destination = .eeprom ∧ length = 1023}

/-- The lengths at which the first transfer from an address has to end: where its bytes stop, at
an edge of a window behind the address, and when it is full. -/
def Ends (plan : Plan) (profile : Chip.Profile) (address : UInt32) (stop : Nat) : Set Nat :=
  {length | length = stop - address.toNat ∨ length ∈ plan.FullAt profile ∨
    ∃ window ∈ profile.onChip, ∃ edge, (edge = window.start ∨ edge = window.stop) ∧
      address < edge ∧ length = edge.toNat - address.toNat}

/-- A plan without a limit has no transfer that is full. -/
theorem fullAt_eq_empty {plan : Plan} {profile : Chip.Profile}
    (h : plan.limit profile = none) : plan.FullAt profile = ∅ := by
  unfold limit Chip.Profile.transferLimit at h
  cases hdestination : plan.destination with
  | eeprom => simp [hdestination] at h
  | ram =>
      have hnone : profile.chunkSize = 0 := by simpa [hdestination] using h
      simp [FullAt, hdestination, hnone]

/-- The limit of a plan is the least of the lengths at which a transfer is full. -/
theorem isLeast_fullAt {plan : Plan} {profile : Chip.Profile} {most : Nat}
    (h : plan.limit profile = some most) : IsLeast (plan.FullAt profile) most := by
  unfold limit Chip.Profile.transferLimit at h
  cases hdestination : plan.destination with
  | ram =>
      obtain ⟨hsome, rfl⟩ : profile.chunkSize ≠ 0 ∧ profile.chunkSize = most := by
        simpa [hdestination] using h
      refine ⟨Or.inl ⟨hsome, rfl⟩, ?_⟩
      rintro length (⟨-, rfl⟩ | ⟨heeprom, -⟩)
      · exact Nat.le_refl _
      · cases hdestination.symm.trans heeprom
  | eeprom =>
      simp only [hdestination, Option.some.injEq] at h
      by_cases hnone : profile.chunkSize = 0
      · rw [if_pos hnone] at h
        subst h
        refine ⟨Or.inr ⟨hdestination, rfl⟩, ?_⟩
        rintro length (⟨hsome, -⟩ | ⟨-, rfl⟩)
        · exact absurd hnone hsome
        · exact Nat.le_refl _
      · rw [if_neg hnone] at h
        subst h
        constructor
        · rcases Nat.le_total profile.chunkSize Eeprom.maxRecord with hle | hle
          · exact Or.inl ⟨hnone, Nat.min_eq_left hle⟩
          · exact Or.inr ⟨hdestination, Nat.min_eq_right hle⟩
        · rintro length (⟨-, rfl⟩ | ⟨-, rfl⟩)
          · exact Nat.min_le_left ..
          · exact Nat.min_le_right ..

theorem limit_pos (plan : Plan) (profile : Chip.Profile) :
    ∀ most, plan.limit profile = some most → 0 < most := by
  intro most h
  rcases (isLeast_fullAt h).1 with ⟨hsome, rfl⟩ | ⟨-, rfl⟩
  · exact Nat.pos_of_ne_zero hsome
  · decide

/-- A chunk that reaches as far as the limit lets it reaches as far as a transfer can. -/
theorem isLeast_ends {plan : Plan} {profile : Chip.Profile} {address : UInt32}
    {stop length : Nat}
    (h : IsLeast (Chunk.Ends profile (plan.limit profile) address stop) length) :
    IsLeast (plan.Ends profile address stop) length := by
  obtain ⟨hends, hleast⟩ := h
  constructor
  · rcases hends with hstop | hlimit | ⟨edge, hedge, hafter⟩
    · exact Or.inl hstop
    · exact Or.inr (Or.inl (isLeast_fullAt hlimit).1)
    · obtain ⟨window, hwindow, hside⟩ := List.mem_flatMap.mp hedge
      exact Or.inr (Or.inr ⟨window, hwindow, edge, by simpa using hside, hafter⟩)
  · rintro other (hstop | hfull | ⟨window, hwindow, edge, hside, hafter⟩)
    · exact hleast (Or.inl hstop)
    · cases hlimit : plan.limit profile with
      | none =>
          rw [fullAt_eq_empty hlimit] at hfull
          exact absurd hfull (Set.notMem_empty other)
      | some most =>
          have hmost := (isLeast_fullAt hlimit).2 hfull
          exact Nat.le_trans (hleast (Or.inr (Or.inl hlimit))) hmost
    · have hedge : edge ∈ profile.edges :=
        List.mem_flatMap.mpr ⟨window, hwindow, by simpa using hside⟩
      exact hleast (Or.inr (Or.inr ⟨edge, hedge, hafter⟩))

/-- What judging a plan comes to. -/
inductive Judged (profile : Chip.Profile) (plan : Plan) : Option Failure → Prop
  | unsupported (detail : String) (hlacks : plan.LacksEeprom profile) :
    Judged profile plan (some (.unsupported detail))
  | allowed (hhas : ¬plan.LacksEeprom profile)
    (hreach : plan.ReachesOut ∨ profile.firstOutside? (placesOf plan.segments) = none) :
    Judged profile plan none
  | outside (chunk : Chunk) (place : Nat × Nat) (hhas : ¬plan.LacksEeprom profile)
    (hkept : ¬plan.ReachesOut)
    (hfirst : profile.firstOutside? (placesOf plan.segments) = some place)
    (haddress : chunk.address.toNat = place.1)
    (hlength : IsLeast (plan.Ends profile chunk.address place.2) chunk.data.length) :
    Judged profile plan (some (.outOfRange chunk.address chunk.data.length))

theorem judged_firstOutside? {plan : Plan} {profile : Chip.Profile}
    (hfits : ∀ segment ∈ plan.segments, segment.Fits) (hhas : ¬plan.LacksEeprom profile)
    (hkept : ¬plan.ReachesOut) : plan.Judged profile (firstOutside? (plan.chunks profile)) := by
  have hfound := find?_chunks profile (plan.limit_pos profile) hfits
  rw [firstOutside?, chunks]
  generalize (UsbBoot.chunks profile (plan.limit profile) plan.segments).find? (!·.onChip)
    = found at hfound
  generalize hfirst : profile.firstOutside? (placesOf plan.segments) = place at hfound
  cases hfound with
  | none => exact .allowed hhas (Or.inr hfirst)
  | @some chunk place hstarts =>
      exact .outside chunk place hhas hkept hfirst hstarts.1 (isLeast_ends hstarts.2)

theorem judged (profile : Chip.Profile) {plan : Plan}
    (hfits : ∀ segment ∈ plan.segments, segment.Fits) :
    plan.Judged profile (plan.obstacle? profile) := by
  rw [obstacle?]
  split
  · next hlacks => exact .unsupported _ hlacks
  · next hhas =>
    split
    · next hreaches => exact .allowed hhas (Or.inl hreaches)
    · next hkept => exact judged_firstOutside? hfits hhas hkept

theorem firstOutside?_placesOf_iff {profile : Chip.Profile} {segments : List Segment} :
    profile.firstOutside? (placesOf segments) = none ↔ ∀ segment ∈ segments, ∀ address,
      segment.Covers address → profile.isOnChip address = true := by
  rw [Chip.Profile.firstOutside?_eq_none_iff]
  constructor
  · intro h segment hmem address hcovers
    exact h (address, segment.stop) (mem_placesOf.mpr ⟨segment, hmem, hcovers, rfl⟩)
  · intro h place hmem
    obtain ⟨segment, hin, hcovers, -⟩ := mem_placesOf.mp hmem
    exact h segment hin place.1 hcovers

/-- What a plan has to be like so that nothing stands in its way. -/
theorem obstacle?_eq_none_iff (profile : Chip.Profile) {plan : Plan}
    (hfits : ∀ segment ∈ plan.segments, segment.Fits) :
    plan.obstacle? profile = none ↔ ¬plan.LacksEeprom profile ∧
      (plan.ReachesOut ∨ ∀ segment ∈ plan.segments, ∀ address,
        segment.Covers address → profile.isOnChip address = true) := by
  rw [← firstOutside?_placesOf_iff]
  have hjudged := judged profile hfits
  generalize plan.obstacle? profile = verdict at hjudged
  cases hjudged with
  | unsupported detail hlacks => simp [hlacks]
  | allowed hhas hreach => simp [hhas, hreach]
  | outside chunk place hhas hkept hfirst => simp [hkept, hfirst]

theorem outOfRange_iff (profile : Chip.Profile) {plan : Plan}
    (hfits : ∀ segment ∈ plan.segments, segment.Fits) (address : UInt32) (length : Nat) :
    plan.obstacle? profile = some (.outOfRange address length) ↔
      ¬plan.LacksEeprom profile ∧ ¬plan.ReachesOut ∧
      ∃ stop, profile.firstOutside? (placesOf plan.segments) = some (address.toNat, stop) ∧
        IsLeast (plan.Ends profile address stop) length := by
  have hjudged := judged profile hfits
  generalize plan.obstacle? profile = verdict at hjudged
  cases hjudged with
  | unsupported detail hlacks => simp [hlacks]
  | allowed hhas hreach =>
      rcases hreach with hreaches | hnone
      · simp [hreaches]
      · simp [hnone]
  | outside chunk place hhas hkept hfirst haddress hlength =>
      simp only [Option.some.injEq, Failure.outOfRange.injEq]
      constructor
      · rintro ⟨rfl, rfl⟩
        exact ⟨hhas, hkept, place.2, by rw [hfirst, haddress], hlength⟩
      · rintro ⟨-, -, stop, hplace, hleast⟩
        obtain rfl := Option.some.inj (hfirst.symm.trans hplace)
        have hsame : chunk.address = address := UInt32.toNat_inj.mp haddress
        subst hsame
        exact ⟨rfl, hlength.unique hleast⟩

/-- Where the first byte outside lies does not depend on how much a transfer may carry. -/
theorem exists_outOfRange_iff (profile : Chip.Profile) {plan : Plan}
    (hfits : ∀ segment ∈ plan.segments, segment.Fits) (address : UInt32) :
    (∃ length, plan.obstacle? profile = some (.outOfRange address length)) ↔
      ¬plan.LacksEeprom profile ∧ ¬plan.ReachesOut ∧
      ∃ stop, profile.firstOutside? (placesOf plan.segments) = some (address.toNat, stop) := by
  simp only [outOfRange_iff profile hfits]
  constructor
  · rintro ⟨length, hhas, hkept, stop, hfirst, -⟩
    exact ⟨hhas, hkept, stop, hfirst⟩
  · rintro ⟨hhas, hkept, stop, hfirst⟩
    obtain ⟨segment, -, hcovers, rfl⟩ := mem_placesOf.mp (List.mem_of_find?_eq_some hfirst)
    obtain ⟨left, hleft⟩ := Nat.exists_eq_add_of_le (Nat.le_of_lt hcovers.2)
    exact ⟨_, hhas, hkept, segment.stop, hfirst,
      isLeast_ends (Chunk.isLeast_take (plan.limit_pos profile) address hleft)⟩

/-- In a plan that is allowed all chunks lie on the chip, unless a loader writes memory. -/
theorem onChip_of_allowed {profile : Chip.Profile} {plan : Plan} (hkept : ¬plan.ReachesOut)
    (hallowed : plan.obstacle? profile = none) :
    ∀ chunk ∈ plan.chunks profile, chunk.onChip = true := by
  have hnone : firstOutside? (plan.chunks profile) = none := by
    rw [obstacle?] at hallowed
    split at hallowed
    · cases hallowed
    · split at hallowed
      · next hreaches => exact absurd hreaches hkept
      · exact hallowed
  intro chunk hmem
  rw [firstOutside?, Option.map_eq_none_iff, List.find?_eq_none] at hnone
  simpa using hnone chunk hmem

/--
**A plan is refused for what it asks, not for how it is cut.**

Whatever its destination, its mode and its config byte: a plan whose segments fit is refused as
unsupported exactly if it wants to write an EEPROM that the part does not have.  Otherwise it is
allowed exactly if it may write RAM outside the chip or every byte lies in a window.  Otherwise it
is refused with the address of the first byte outside, in the order of the segments and by rising
address in each, and with the number of bytes from there to where the segment stops, to the next
edge, or to a full transfer, whichever is least.  So the chunk size decides neither whether a plan
is allowed nor which address is told.
-/
theorem obstacle?_exact (profile : Chip.Profile) (plan : Plan)
    (hfits : ∀ segment ∈ plan.segments, segment.Fits) :
    ((∃ detail, plan.obstacle? profile = some (.unsupported detail))
      ↔ plan.destination = .eeprom ∧ profile.hasEeprom = false) ∧
    (plan.obstacle? profile = none ↔ ¬(plan.destination = .eeprom ∧ profile.hasEeprom = false) ∧
      (plan.destination = .ram ∧ plan.ramMode = .externalFirst ∨
        ∀ segment ∈ plan.segments, ∀ address,
          segment.Covers address → profile.isOnChip address = true)) ∧
    (∀ address length, plan.obstacle? profile = some (.outOfRange address length) ↔
      ¬(plan.destination = .eeprom ∧ profile.hasEeprom = false) ∧
      ¬(plan.destination = .ram ∧ plan.ramMode = .externalFirst) ∧
      ∃ stop, profile.firstOutside? (placesOf plan.segments) = some (address.toNat, stop) ∧
        IsLeast (plan.Ends profile address stop) length) ∧
    (∀ failure, plan.obstacle? profile = some failure →
      (∃ detail, failure = .unsupported detail) ∨
        ∃ address length, failure = .outOfRange address length) ∧
    ∀ chunkSize, let other := { profile with chunkSize := chunkSize }
      (plan.obstacle? other = none ↔ plan.obstacle? profile = none) ∧
      ∀ address, (∃ length, plan.obstacle? other = some (.outOfRange address length))
        ↔ ∃ length, plan.obstacle? profile = some (.outOfRange address length) := by
  refine ⟨?_, obstacle?_eq_none_iff profile hfits, outOfRange_iff profile hfits, ?_, ?_⟩
  · have hjudged := judged profile hfits
    show _ ↔ plan.LacksEeprom profile
    generalize plan.obstacle? profile = verdict at hjudged
    cases hjudged with
    | unsupported detail hlacks => simp [hlacks]
    | allowed hhas hreach => simp [hhas]
    | outside chunk place hhas => simp [hhas]
  · intro failure hfailure
    have hjudged := judged profile hfits
    rw [hfailure] at hjudged
    cases hjudged with
    | unsupported detail => exact Or.inl ⟨detail, rfl⟩
    | outside chunk => exact Or.inr ⟨chunk.address, chunk.data.length, rfl⟩
  · -- Nothing that is asked of a plan looks at the chunk size.
    intro chunkSize other
    have hsame : plan.obstacle? other = none ↔ plan.obstacle? profile = none :=
      (obstacle?_eq_none_iff other hfits).trans (obstacle?_eq_none_iff profile hfits).symm
    refine ⟨hsame, fun address => ?_⟩
    exact (exists_outOfRange_iff other hfits address).trans
      (exists_outOfRange_iff profile hfits address).symm

/-- A segment that leaves a window amid its bytes is cut there.  In transfers of two bytes fewer
of them are told, and nothing else changes.  The EEPROM is out of reach even where RAM outside the
chip is not. -/
theorem obstacle?_exact_straddling :
    let profile := Chip.Family.fx2.profile
    let narrow := { profile with chunkSize := 2 }
    let plan : Plan :=
      ⟨[⟨0xE1FF, []⟩, ⟨0x1FFD, [1, 2, 3, 4, 5, 6]⟩, ⟨0x0000, [7]⟩], .eeprom, some 0x41,
        .externalFirst⟩
    (∀ segment ∈ plan.segments, segment.Fits) ∧
      plan.obstacle? profile = some (.outOfRange 0x2000 3) ∧
      IsLeast (plan.Ends profile 0x2000 0x2003) 3 ∧
      plan.obstacle? narrow = some (.outOfRange 0x2000 2) ∧
      IsLeast (plan.Ends narrow 0x2000 0x2003) 2 ∧
      { plan with destination := .ram }.obstacle? profile = none := by
  intro profile narrow plan
  have hfits : ∀ segment ∈ plan.segments, segment.Fits := by decide
  have hobstacle : plan.obstacle? profile = some (.outOfRange 0x2000 3) := by decide +kernel
  have hnarrow : plan.obstacle? narrow = some (.outOfRange 0x2000 2) := by decide +kernel
  have hfirst : profile.firstOutside? (placesOf plan.segments) = some (0x2000, 0x2003) := by
    decide +kernel
  obtain ⟨-, -, hexact, -⟩ := obstacle?_exact profile plan hfits
  obtain ⟨-, -, hcut, -⟩ := obstacle?_exact narrow plan hfits
  obtain ⟨-, hreached, -⟩ := obstacle?_exact profile { plan with destination := .ram } hfits
  obtain ⟨-, -, stop, hplace, hleast⟩ := (hexact 0x2000 3).mp hobstacle
  obtain ⟨-, rfl⟩ := Prod.mk.inj (Option.some.inj (hfirst.symm.trans hplace))
  obtain ⟨-, -, stop, hsame, hfull⟩ := (hcut 0x2000 2).mp hnarrow
  obtain ⟨-, rfl⟩ := Prod.mk.inj (Option.some.inj (hfirst.symm.trans hsame))
  exact ⟨hfits, hobstacle, hleast, hnarrow, hfull, hreached.mpr ⟨nofun, Or.inl ⟨rfl, rfl⟩⟩⟩

end Pass.Plan
end UsbBoot
