/-
What is read is what the lines say.

The reader goes through the lines once and holds a base, some closed segments and one that
may still grow.  What it will have read in the end is told from there: the contents still
to come are joined to the open segment and put behind the closed ones.  `Builds` says that
of an image, with what must hold of the contents for the reader to accept them, and one
step of the reader takes it from one line to the next.  So a file is read exactly if its
lines come to an end and what they say lies apart and within the addresses, and the image
is what they say, joined where it touches.
-/
import UsbBoot.Proofs.Image.Contents
import UsbBoot.Proofs.Image.Joined

namespace UsbBoot.Image

/-! ### One record -/

/-- What the reader holds when it comes from these records: the base they selected, and
segments that all hold something and lie apart. -/
structure State.Follows (state : State) (earlier : List Record) : Prop where
  base : state.base.toNat = (baseAfter earlier).value
  solid : ∀ segment ∈ state.segments, segment.bytes ≠ []
  apart : state.segments.Pairwise Segment.Apart

theorem State.follows_initial : State.initial.Follows [] where
  base := rfl
  solid := nofun
  apart := .nil

/-- What comes of a segment that the reader comes upon. -/
inductive State.Admits (state : State) (line : Nat) (segment : Segment) :
    Except Failure State → Prop
  /-- It reaches past the last address. -/
  | pastEnd (hpast : ¬segment.Fits) : Admits state line segment (.error (.malformed line .pastEnd))
  /-- It has an address in common with what was read before. -/
  | overlapping (hfits : segment.Fits) (hmeets : ¬∀ other ∈ state.segments, other.Apart segment) :
    Admits state line segment (.error (.overlapping segment.base))
  /-- It is taken in. -/
  | taken (hfits : segment.Fits) (hapart : ∀ other ∈ state.segments, other.Apart segment) :
    Admits state line segment (.ok (state.add segment.base segment.bytes))

theorem State.Follows.admits {state : State} {earlier : List Record}
    (h : state.Follows earlier) (line : Nat) {record : Record} (hcarries : record.Carries) :
    state.Admits line (record.placedAt (baseAfter earlier)) (state.take line record) := by
  obtain ⟨hkind, hpayload⟩ := hcarries
  -- Bases are low enough for the sum not to start over at zero.
  have haddress : state.base + record.address.toUInt32
      = (record.placedAt (baseAfter earlier)).base := by
    have hinside := record.address_inside (baseAfter earlier)
    rw [← UInt32.toNat_inj, Record.toNat_base_placedAt, UInt32.toNat_add, h.base,
      UInt16.toNat_toUInt32]
    exact Nat.mod_eq_of_lt hinside
  have hmeets : state.segments.any (Segment.meets ·
        (record.placedAt (baseAfter earlier)).base record.payload.length) = true
      ↔ ¬∀ other ∈ state.segments, other.Apart (record.placedAt (baseAfter earlier)) := by
    rw [List.any_eq_true]
    constructor
    · rintro ⟨other, hmem, hshared⟩ hapart
      exact (Segment.meets_iff (h.solid other hmem) hpayload).mp hshared (hapart other hmem)
    · intro hsome
      obtain ⟨other, hother⟩ := Classical.not_forall.mp hsome
      obtain ⟨hmem, hshared⟩ := Classical.not_imp.mp hother
      exact ⟨other, hmem, (Segment.meets_iff (h.solid other hmem) hpayload).mpr hshared⟩
  simp only [State.take, hkind, State.takeData, List.isEmpty_iff, hpayload, if_false, haddress]
  split
  · rename_i hpast
    exact .pastEnd (Nat.not_le.mpr hpast)
  · rename_i hnear
    have hfits : (record.placedAt (baseAfter earlier)).Fits := Nat.not_lt.mp hnear
    split
    · rename_i hany
      exact .overlapping hfits (hmeets.mp hany)
    · rename_i hnone
      exact .taken hfits (Classical.not_not.mp (mt hmeets.mpr hnone))

/-- A record that carries nothing changes the base at most. -/
theorem State.Follows.silent {state : State} {earlier : List Record}
    (h : state.Follows earlier) (line : Nat) {record : Record} (hlegible : record.Legible)
    (hsilent : ¬record.Carries) :
    ∃ base, state.take line record = .ok { state with base := base } ∧
      State.Follows { state with base := base } (earlier ++ [record]) := by
  have hfollows : ∀ base : UInt32,
      base.toNat = (record.selects?.getD (baseAfter earlier)).value →
      State.Follows { state with base := base } (earlier ++ [record]) := by
    intro base hbase
    exact ⟨by rw [baseAfter_append_singleton]; exact hbase, h.solid, h.apart⟩
  cases hsets : record.kind.setsBase with
  | true =>
      obtain ⟨base, hselects, hvalue⟩ := hlegible.selects? hsets
      refine ⟨record.base?.getD 0, ?_, hfollows _ (by rw [hselects]; exact hvalue)⟩
      cases hkind : record.kind with
      | extendedSegment | extendedLinear => simp [State.take, hkind]
      | data | endOfFile | other => simp [hkind, Record.Kind.setsBase] at hsets
  | false =>
      refine ⟨state.base, ?_, hfollows _ (by rw [Record.selects?_of_kind hsets]; exact h.base)⟩
      cases hkind : record.kind with
      | data =>
          have hempty : record.payload = [] := by simpa [Record.Carries, hkind] using hsilent
          simp [State.take, State.takeData, hkind, hempty]
      | endOfFile | other => simp [State.take, hkind]
      | extendedSegment | extendedLinear => simp [hkind, Record.Kind.setsBase] at hsets

/-! ### Taking a segment in -/

/-- A segment that is taken in stands behind the others, or is put to the open one. -/
theorem State.segments_add (state : State) (segment : Segment) :
    (state.add segment.base segment.bytes).segments = state.segments ++ [segment] ∨
      ∃ last, state.current = some last ∧ segment.base.toNat = last.stop ∧
        (state.add segment.base segment.bytes).segments
          = state.closed ++ [last.extend segment.bytes] := by
  rw [State.add]
  cases hcurrent : state.current with
  | none => exact Or.inl (by simp [State.segments, hcurrent])
  | some last =>
      dsimp only
      split
      · rename_i htouch
        exact Or.inr ⟨last, rfl, htouch.symm, rfl⟩
      · exact Or.inl (by simp [State.segments, hcurrent])

theorem State.placedOf_add (state : State) (segment : Segment) :
    placedOf (state.add segment.base segment.bytes).segments
      = placedOf (state.segments ++ [segment]) := by
  rcases state.segments_add segment with heq | ⟨last, hcurrent, htouch, heq⟩
  · rw [heq]
  · rw [heq, State.segments, hcurrent]
    simp [Segment.placed_extend htouch]

theorem State.solid_add {state : State} {segment : Segment}
    (h : ∀ other ∈ state.segments, other.bytes ≠ []) (hsegment : segment.bytes ≠ []) :
    ∀ other ∈ (state.add segment.base segment.bytes).segments, other.bytes ≠ [] := by
  rcases state.segments_add segment with heq | ⟨last, hcurrent, -, heq⟩
  · rw [heq, List.forall_mem_append]
    exact ⟨h, List.forall_mem_singleton.mpr hsegment⟩
  · rw [State.segments, hcurrent, List.forall_mem_append] at h
    rw [heq, List.forall_mem_append]
    exact ⟨h.1, List.forall_mem_singleton.mpr (by simp [Segment.extend, hsegment])⟩

theorem State.base_add (state : State) (segment : Segment) :
    (state.add segment.base segment.bytes).base = state.base := by
  rw [State.add]
  split
  · split <;> rfl
  · rfl

theorem State.joinAfter_add (state : State) (segment : Segment) (rest : List Segment) :
    (state.add segment.base segment.bytes).closed
        ++ joinAfter (state.add segment.base segment.bytes).current rest
      = state.closed ++ joinAfter state.current (segment :: rest) := by
  rw [State.add]
  cases hcurrent : state.current with
  | none => simp [joinAfter]
  | some last =>
      dsimp only
      rw [joinAfter]
      split
      · rename_i htouch
        rw [if_pos htouch.symm]
      · rename_i hgap
        rw [if_neg (Ne.symm hgap)]
        simp

theorem State.Follows.taken {state : State} {earlier : List Record} (h : state.Follows earlier)
    {record : Record} (hcarries : record.Carries) {segment : Segment}
    (hsegment : segment = record.placedAt (baseAfter earlier))
    (hapart : ∀ other ∈ state.segments, other.Apart segment) :
    State.Follows (state.add segment.base segment.bytes) (earlier ++ [record]) where
  base := by
    have hselects : record.selects? = none :=
      Record.selects?_of_kind (by rw [hcarries.1]; rfl)
    rw [state.base_add, baseAfter_append_singleton, hselects]
    exact h.base
  solid := State.solid_add h.solid (by rw [hsegment]; exact hcarries.2)
  apart := by
    rw [pairwise_apart_iff, addressesOf, state.placedOf_add, ← addressesOf, ← pairwise_apart_iff]
    exact List.pairwise_append.mpr ⟨h.apart, List.pairwise_singleton _ _,
      fun other hmem next hnext => List.mem_singleton.mp hnext ▸ hapart other hmem⟩

/-! ### What the reader makes of contents to come -/

/-- Behind what the reader holds, the contents to come make up the image. -/
structure State.Builds (state : State) (contents : List Segment) (image : Image) : Prop where
  fits : ∀ segment ∈ contents, segment.Fits
  apart : (state.segments ++ contents).Pairwise Segment.Apart
  segments : image.segments = state.closed ++ joinAfter state.current contents

theorem State.builds_base (state : State) (base : UInt32) (contents : List Segment)
    (image : Image) : State.Builds { state with base := base } contents image
      ↔ state.Builds contents image :=
  ⟨fun h => ⟨h.fits, h.apart, h.segments⟩, fun h => ⟨h.fits, h.apart, h.segments⟩⟩

theorem State.builds_nil {state : State} (h : state.segments.Pairwise Segment.Apart)
    (image : Image) : state.Builds [] image ↔ image = ⟨state.segments⟩ := by
  have hopen : joinAfter state.current [] = state.current.toList := by
    cases state.current <;> rfl
  constructor
  · intro hbuilds
    have hsegments := hbuilds.segments
    rw [hopen] at hsegments
    cases image
    exact congrArg Image.mk hsegments
  · rintro rfl
    exact ⟨nofun, by rwa [List.append_nil], by rw [hopen]; rfl⟩

theorem State.builds_cons (state : State) (segment : Segment) (rest : List Segment)
    (image : Image) :
    state.Builds (segment :: rest) image ↔
      segment.Fits ∧ (∀ other ∈ state.segments, other.Apart segment) ∧
        (state.add segment.base segment.bytes).Builds rest image := by
  -- Taking the segment in moves no byte, so the same addresses are asked to differ.
  have hadded : (state.segments ++ segment :: rest).Pairwise Segment.Apart
      ↔ ((state.add segment.base segment.bytes).segments ++ rest).Pairwise Segment.Apart := by
    rw [pairwise_apart_iff, pairwise_apart_iff, addressesOf, addressesOf, List.append_cons,
      placedOf_append, placedOf_append _ rest, state.placedOf_add]
  constructor
  · rintro ⟨hfits, hapart, hsegments⟩
    obtain ⟨hfirst, hrest⟩ := List.forall_mem_cons.mp hfits
    refine ⟨hfirst, fun other hmem => ?_, hrest, hadded.mp hapart, ?_⟩
    · exact (List.pairwise_append.mp hapart).2.2 other hmem segment List.mem_cons_self
    · rw [state.joinAfter_add, hsegments]
  · rintro ⟨hfirst, -, hrest, hapart, hsegments⟩
    refine ⟨List.forall_mem_cons.mpr ⟨hfirst, hrest⟩, hadded.mpr hapart, ?_⟩
    rw [hsegments, state.joinAfter_add]

/-! ### One record, and what is built from there -/

/-- What comes of a record: the reader goes on, and what it will have built is settled by the
contents that are still to come; or it stops, and nothing could have been built. -/
inductive State.Steps (state : State) (earlier : List Record) (record : Record) :
    Except Failure State → Prop
  | goes {next : State} (hfollows : next.Follows (earlier ++ [record]))
    (hbuilds : ∀ later image, state.Builds (contentsAfter earlier (record :: later)) image
      ↔ next.Builds (contentsAfter (earlier ++ [record]) later) image) :
    Steps state earlier record (.ok next)
  | stops {failure : Failure}
    (hnone : ∀ later image, ¬state.Builds (contentsAfter earlier (record :: later)) image)
    (hcause : ∀ later, (∀ segment ∈ contentsAfter earlier (record :: later), segment.Fits) →
      ∃ address, failure = .overlapping address) :
    Steps state earlier record (.error failure)

theorem State.Follows.steps {state : State} {earlier : List Record} (h : state.Follows earlier)
    (line : Nat) {record : Record} (hlegible : record.Legible) :
    state.Steps earlier record (state.take line record) := by
  by_cases hcarries : record.Carries
  · have hcontents : ∀ later, contentsAfter earlier (record :: later)
        = record.placedAt (baseAfter earlier) :: contentsAfter (earlier ++ [record]) later :=
      fun later => if_pos hcarries
    have hadmits := h.admits line hcarries
    generalize state.take line record = result at hadmits
    cases hadmits with
    | pastEnd hpast =>
        refine .stops (fun later image hbuilds => ?_) fun later hfits => ?_
        · rw [hcontents, State.builds_cons] at hbuilds
          exact hpast hbuilds.1
        · rw [hcontents, List.forall_mem_cons] at hfits
          exact absurd hfits.1 hpast
    | overlapping hfits hmeets =>
        refine .stops (fun later image hbuilds => ?_) fun _ _ => ⟨_, rfl⟩
        rw [hcontents, State.builds_cons] at hbuilds
        exact hmeets hbuilds.2.1
    | taken hfits hapart =>
        refine .goes (h.taken hcarries rfl hapart) fun later image => ?_
        rw [hcontents, State.builds_cons, and_iff_right hfits, and_iff_right hapart]
  · obtain ⟨base, htake, hfollows⟩ := h.silent line hlegible hcarries
    rw [htake]
    refine .goes hfollows fun later image => ?_
    rw [contentsAfter, if_neg hcarries]
    exact (state.builds_base base _ image).symm

/-! ### All lines -/

/-- **Lines are read exactly if what they say can be put behind what was read before.** -/
theorem readLines_eq_ok_iff (ending : Ending) {state : State} {earlier : List Record}
    (h : state.Follows earlier) (number : Nat) (lines : List (List UInt8)) (image : Image) :
    readLines ending state number lines = .ok image ↔
      ∃ records, Delivers lines records ∧
        state.Builds (contentsAfter earlier records) image := by
  -- By induction on the lines, with what the reader holds before the next one as invariant.
  induction lines generalizing state earlier number with
  | nil =>
      constructor
      · intro hread
        cases hread
      · rintro ⟨records, hdelivers, -⟩
        exact absurd hdelivers (delivers_nil records)
  | cons line rest ih =>
      have hline := ofLine_spec line
      rw [readLines]
      cases hentry : Entry.ofLine line with
      | nothing =>
          rw [hentry] at hline
          simp only [ih h, delivers_cons_of_idle hline]
      | malformed fault =>
          rw [hentry] at hline
          constructor
          · intro hread
            cases hread
          · rintro ⟨records, hdelivers, -⟩
            exact absurd hdelivers (not_delivers_of_malformed hline.1 hline.2)
      | record record =>
          rw [hentry] at hline
          dsimp only
          by_cases hend : record.kind = .endOfFile
          · simp only [hend, if_true, delivers_cons_of_end hline hend, exists_eq_left,
              contentsAfter, State.builds_nil h.apart, Except.ok.injEq, eq_comm]
          · have hsteps := h.steps number hline.legible
            simp only [hend, if_false, delivers_cons_of_record hline hend]
            generalize state.take number record = result at hsteps
            cases hsteps with
            | goes hfollows hbuilds =>
                simp only [ih hfollows, ← hbuilds]
                constructor
                · rintro ⟨later, hlater, hbuilt⟩
                  exact ⟨_, ⟨later, rfl, hlater⟩, hbuilt⟩
                · rintro ⟨_, ⟨later, rfl, hlater⟩, hbuilt⟩
                  exact ⟨later, hlater, hbuilt⟩
            | stops hnone =>
                constructor
                · intro hread
                  cases hread
                · rintro ⟨_, ⟨later, rfl, -⟩, hbuilt⟩
                  exact absurd hbuilt (hnone later image)

/-- Where the lines say something and nothing of it reaches past the last address, the reader
can only find that two parts overlap. -/
theorem readLines_of_delivers (ending : Ending) {state : State} {earlier : List Record}
    (h : state.Follows earlier) (number : Nat) {lines : List (List UInt8)}
    {records : List Record} (hdelivers : Delivers lines records)
    (hfits : ∀ segment ∈ contentsAfter earlier records, segment.Fits) :
    (∃ image, readLines ending state number lines = .ok image) ∨
      ∃ address, readLines ending state number lines = .error (.overlapping address) := by
  induction hdelivers generalizing state earlier number with
  | ended rest hholds hend =>
      rw [readLines, ofLine_of_holds hholds]
      exact Or.inl ⟨_, if_pos hend⟩
  | idle hidle hrest ih =>
      rw [readLines, ofLine_of_idle hidle]
      exact ih h (number + 1) hfits
  | @record line record rest records hholds hmore hrest ih =>
      have hsteps := h.steps number hholds.legible
      rw [readLines, ofLine_of_holds hholds]
      simp only [hmore, if_false]
      generalize state.take number record = result at hsteps
      cases hsteps with
      | goes hfollows =>
          refine ih hfollows (number + 1) fun segment hmem => hfits segment ?_
          rw [contentsAfter]
          split
          · exact List.mem_cons_of_mem _ hmem
          · exact hmem
      | stops _ hcause =>
          obtain ⟨address, rfl⟩ := hcause records hfits
          exact Or.inr ⟨address, rfl⟩

/-! ### A source -/

theorem State.builds_initial (contents : List Segment) (image : Image) :
    State.initial.Builds contents image ↔ (∀ segment ∈ contents, segment.Fits) ∧
      contents.Pairwise Segment.Apart ∧ image = ⟨joined contents⟩ := by
  constructor
  · rintro ⟨hfits, hapart, hsegments⟩
    cases image
    exact ⟨hfits, hapart, congrArg Image.mk hsegments⟩
  · rintro ⟨hfits, hapart, rfl⟩
    exact ⟨hfits, hapart, rfl⟩

theorem read_eq_ok_iff (source : Source) (image : Image) :
    read source = .ok image ↔ ∃ records, Delivers source.lines records ∧
      (∀ segment ∈ contents records, segment.Fits) ∧
      (contents records).Pairwise Segment.Apart ∧ image = ⟨joined (contents records)⟩ := by
  simp only [read, readLines_eq_ok_iff source.ending State.follows_initial, State.builds_initial,
    contents]

theorem read_of_delivers {source : Source} {records : List Record}
    (hdelivers : Delivers source.lines records)
    (hfits : ∀ segment ∈ contents records, segment.Fits) :
    ((contents records).Pairwise Segment.Apart →
        read source = .ok ⟨joined (contents records)⟩) ∧
      (¬(contents records).Pairwise Segment.Apart →
        ∃ address, read source = .error (.overlapping address)) := by
  refine ⟨fun hapart => ?_, fun hmeets => ?_⟩
  · exact (read_eq_ok_iff ..).mpr ⟨records, hdelivers, hfits, hapart, rfl⟩
  · rcases readLines_of_delivers source.ending State.follows_initial 1 hdelivers hfits with
      ⟨image, hread⟩ | hoverlapping
    · obtain ⟨others, hothers, -, hapart, -⟩ := (read_eq_ok_iff source image).mp hread
      exact absurd (hdelivers.unique hothers ▸ hapart) hmeets
    · exact hoverlapping

/-! ### What an image says, and how it is cut -/

/-- **A source is read exactly if its lines come to an end and what they say lies apart and
within the addresses; the image is then what they say.** -/
theorem read_means (source : Source) :
    ((∃ image, read source = .ok image) ↔
      ∃ records, Delivers source.lines records ∧
        (∀ segment ∈ contents records, segment.Fits) ∧
        (contents records).Pairwise Segment.Apart) ∧
    ∀ image records, read source = .ok image → Delivers source.lines records →
      (∀ address byte, image.byteAt? address = some byte ↔
        ∃ segment ∈ contents records, segment.byteAt? address = some byte) ∧
      bytesOf image.segments = payloadOf records := by
  constructor
  · simp only [read_eq_ok_iff]
    constructor
    · rintro ⟨image, records, hdelivers, hfits, hapart, -⟩
      exact ⟨records, hdelivers, hfits, hapart⟩
    · rintro ⟨records, hdelivers, hfits, hapart⟩
      exact ⟨_, records, hdelivers, hfits, hapart, rfl⟩
  · intro image records hread hdelivers
    obtain ⟨others, hothers, -, hapart, rfl⟩ := (read_eq_ok_iff source image).mp hread
    obtain rfl := hdelivers.unique hothers
    constructor
    · intro address byte
      -- No address comes twice, so it is enough that the bytes stay in their places.
      rw [Image.byteAt?_of_apart (apart_joined hapart), ← mem_placedOf, placedOf_joined,
        mem_placedOf]
    · rw [bytesOf_joined, contents, bytesOf_contentsAfter]

/-- A file in which a run of bytes goes on behind another base, and later ones step back. -/
def resumed : Source :=
  .ofText (["# one run over two bases", ":02FFFE00AABB9C", ":020000040001F9", "",
    ":00123400BA", ":01000000CC33", ":020000021000EC", ":01000300DD1F", ":01000100EE10",
    ":00000001FF", "not looked at"].flatMap fun line : String => line.toList ++ ['\n'])

def resumedRecords : List Record :=
  [.data 0xFFFE [0xAA, 0xBB], .extendedLinear 1, .data 0x1234 [], .data 0 [0xCC],
    .sound .extendedSegment 0 [0x10, 0x00], .data 3 [0xDD], .data 1 [0xEE]]

def resumedImage : Image :=
  ⟨[⟨0xFFFE, [0xAA, 0xBB, 0xCC]⟩, ⟨0x10003, [0xDD]⟩, ⟨0x10001, [0xEE]⟩]⟩

theorem read_means_resumed :
    read resumed = .ok resumedImage ∧ Delivers resumed.lines resumedRecords ∧
      (∀ address byte, resumedImage.byteAt? address = some byte ↔
        ∃ segment ∈ contents resumedRecords, segment.byteAt? address = some byte) ∧
      bytesOf resumedImage.segments = payloadOf resumedRecords := by
  have hread : read resumed = .ok resumedImage := by decide +kernel
  have hdelivers : Delivers resumed.lines resumedRecords := by decide +kernel
  exact ⟨hread, hdelivers, (read_means resumed).2 resumedImage resumedRecords hread hdelivers⟩

/-- **The segments of an image that was read hold something each and lie apart within the
addresses; they are what the lines say in file order, cut exactly where a part does not start
at the end of the one before it.** -/
theorem segments_of_read {source : Source} {image : Image} (h : read source = .ok image) :
    (∀ segment ∈ image.segments, segment.bytes ≠ [] ∧ segment.Fits) ∧
    image.segments.Pairwise Segment.Apart ∧
    (∃ records, Delivers source.lines records ∧
      image.segments = ((contents records).splitBy Segment.continues).map glue) ∧
    image.segments.IsChain Segment.LeavesGap := by
  obtain ⟨records, hdelivers, hfits, hapart, rfl⟩ := (read_eq_ok_iff source image).mp h
  refine ⟨?_, apart_joined hapart, ⟨records, hdelivers, ?_⟩, ?_⟩
  · intro segment hmem
    have hsolid := solid_joined (solid_contentsAfter [] records) segment hmem
    exact ⟨hsolid, fits_joined hfits segment hmem⟩
  · exact joined_eq_splitBy (contents records)
  · exact isChain_joinAfter none (contents records)

theorem segments_of_read_resumed :
    read resumed = .ok resumedImage ∧
    (∀ segment ∈ resumedImage.segments, segment.bytes ≠ [] ∧ segment.Fits) ∧
    resumedImage.segments.Pairwise Segment.Apart ∧
    (∃ records, Delivers resumed.lines records ∧
      resumedImage.segments = ((contents records).splitBy Segment.continues).map glue) ∧
    resumedImage.segments.IsChain Segment.LeavesGap := by
  have hread : read resumed = .ok resumedImage := by decide +kernel
  exact ⟨hread, segments_of_read hread⟩

end UsbBoot.Image
