/-
The line on which reading ends.

Lines are taken one after the other, and most of them decide nothing: they are idle, or hold a
record whose bytes find room.  The first line that decides ends the reading, and what comes of
it depends on that line and on the records before it only.  It may end the image; it may be no
record, for a reason of its own; and its data may reach past the last address or meet data that
came before.  Reaching too far is looked for first.  If no line decides, the source has ended too
early or has failed, and only then does it matter which.

All of this is said of lines and of what they hold, without regard to what the reader keeps in
mind.  That the reader comes to the same is shown in two halves: lines that decide nothing bring
it to where it has joined what they carry, and from there it does what the next line decides.
-/
import UsbBoot.Proofs.Image.Reformatted
import UsbBoot.Proofs.Text.Utf8

namespace UsbBoot.Image

/-! ### What decides -/

/-- Lines that decide nothing, and the records they bring: none of these ends the image, and what
they carry lies within the addresses and apart. -/
structure Undecided (lines : List (List UInt8)) (records : List Record) : Prop where
  brings : Brings lines records
  fits : ∀ segment ∈ contents records, segment.Fits
  apart : (contents records).Pairwise Segment.Apart

/-- What a line decides, if it does: the line has this number, and these records came before it. -/
inductive Decides (earlier : List Record) (number : Nat) (line : List UInt8) :
    Except Failure Image → Prop
  /-- It ends the image, which is what came before, joined where it touches. -/
  | ended {record : Record} (hholds : Holds line record) (hend : record.kind = .endOfFile) :
    Decides earlier number line (.ok ⟨joined (contents earlier)⟩)
  /-- It should hold a record and is no text. -/
  | noText (hbusy : ¬IsIdle line) (htext : ¬Text.IsText line) :
    Decides earlier number line (.error (.malformed number .invalidDigit))
  /-- It is text and no record. -/
  | noRecord {text : List Char} {fault : Record.Fault} (hbusy : ¬IsIdle line)
    (htext : Text.encode text = Text.trimBytes line) (hfault : Record.parse text = .error fault) :
    Decides earlier number line (.error (.malformed number fault))
  /-- Its data reach past the last address. -/
  | pastEnd {record : Record} (hholds : Holds line record) (hdata : record.kind = .data)
    (hpast : addressLimit < (record.placedAt (baseAfter earlier)).stop) :
    Decides earlier number line (.error (.malformed number .pastEnd))
  /-- Its data have an address in common with data that came before. -/
  | overlapping {record : Record} {segment : Segment} {address : Nat}
    (hholds : Holds line record) (hdata : record.kind = .data)
    (hfits : (record.placedAt (baseAfter earlier)).stop ≤ addressLimit)
    (hmem : segment ∈ contents earlier) (hbefore : segment.Covers address)
    (hagain : (record.placedAt (baseAfter earlier)).Covers address) :
    Decides earlier number line
      (.error (.overlapping (record.placedAt (baseAfter earlier)).base))

/-- Lines the first deciding one of which decides this. -/
inductive Decided : List (List UInt8) → Except Failure Image → Prop
  | intro {before : List (List UInt8)} {line : List UInt8} {earlier : List Record}
    {result : Except Failure Image} (after : List (List UInt8))
    (hbefore : Undecided before earlier) (hline : Decides earlier (before.length + 1) line result) :
    Decided (before ++ line :: after) result

/-- What a source comes to. -/
inductive Source.ComesTo (source : Source) : Except Failure Image → Prop
  | decided {lines : List (List UInt8)} {result : Except Failure Image}
    (hlines : source.HasLines lines) (hdecided : Decided lines result) : source.ComesTo result
  /-- No line has decided when the source ends. -/
  | truncated {lines : List (List UInt8)} {records : List Record}
    (hlines : source.HasLines lines) (hundecided : Undecided lines records)
    (hending : source.ending = .complete) : source.ComesTo (.error .truncated)
  /-- No line has decided when the source fails. -/
  | failed {lines : List (List UInt8)} {records : List Record} {text : String}
    (hlines : source.HasLines lines) (hundecided : Undecided lines records)
    (hending : source.ending = .failed text) : source.ComesTo (.error (.io text))

/-! ### Some line decides, or none does -/

theorem contents_append (earlier later : List Record) :
    contents (earlier ++ later) = contents earlier ++ contentsAfter earlier later :=
  contentsAfter_append [] earlier later

theorem contents_append_carries {record : Record} (h : record.Carries) (earlier : List Record) :
    contents (earlier ++ [record]) = contents earlier ++ [record.placedAt (baseAfter earlier)] := by
  rw [contents_append, contentsAfter, if_pos h]
  rfl

theorem contents_append_silent {record : Record} (h : ¬record.Carries) (earlier : List Record) :
    contents (earlier ++ [record]) = contents earlier := by
  rw [contents_append, contentsAfter, if_neg h]
  exact List.append_nil _

theorem Brings.append {xs ys : List (List UInt8)} {earlier later : List Record}
    (h : Brings xs earlier) (hlater : Brings ys later) : Brings (xs ++ ys) (earlier ++ later) := by
  induction h with
  | nothing => exact hlater
  | idle hidle _ ih => exact .idle hidle ih
  | record hholds hmore _ ih => exact .record hholds hmore ih

theorem undecided_nil : Undecided [] [] :=
  ⟨.nothing, nofun, .nil⟩

/-- Behind lines that decide nothing, a line decides or does not. -/
theorem Undecided.decides_or_append {before : List (List UInt8)} {earlier : List Record}
    (h : Undecided before earlier) (number : Nat) (line : List UInt8) :
    (∃ result, Decides earlier number line result) ∨
      ∃ records, Undecided (before ++ [line]) records := by
  have hline := ofLine_spec line
  cases hentry : Entry.ofLine line with
  | nothing =>
      rw [hentry] at hline
      have hbrings := h.brings.append (.idle hline .nothing)
      rw [List.append_nil] at hbrings
      exact Or.inr ⟨earlier, hbrings, h.fits, h.apart⟩
  | malformed =>
      rw [hentry] at hline
      obtain ⟨hbusy, hnone⟩ := hline
      by_cases htext : Text.IsText line
      · obtain ⟨text, htext⟩ := (Text.isText_trimBytes line).mpr htext
        cases hparse : Record.parse text with
        | ok record =>
            exact absurd ⟨hbusy, text, Text.decode_eq_some_iff.mpr htext, hparse⟩ (hnone record)
        | error fault => exact Or.inl ⟨_, .noRecord hbusy htext hparse⟩
      · exact Or.inl ⟨_, .noText hbusy htext⟩
  | record record =>
      rw [hentry] at hline
      by_cases hend : record.kind = .endOfFile
      · exact Or.inl ⟨_, .ended hline hend⟩
      have hbrings := h.brings.append (.record hline hend .nothing)
      by_cases hcarries : record.Carries
      · by_cases hfits : (record.placedAt (baseAfter earlier)).Fits
        · by_cases hapart : ∀ segment ∈ contents earlier,
              segment.Apart (record.placedAt (baseAfter earlier))
          · refine Or.inr ⟨earlier ++ [record], hbrings, ?_, ?_⟩
            · rw [contents_append_carries hcarries, List.forall_mem_append]
              exact ⟨h.fits, List.forall_mem_singleton.mpr hfits⟩
            · rw [contents_append_carries hcarries, List.pairwise_append]
              refine ⟨h.apart, List.pairwise_singleton _ _, fun segment hmem other hother => ?_⟩
              obtain rfl := List.mem_singleton.mp hother
              exact hapart segment hmem
          · simp only [Segment.Apart] at hapart
            push Not at hapart
            obtain ⟨segment, hmem, address, hbefore, hagain⟩ := hapart
            exact Or.inl ⟨_, .overlapping hline hcarries.1 hfits hmem hbefore hagain⟩
        · exact Or.inl ⟨_, .pastEnd hline hcarries.1 (Nat.not_le.mp hfits)⟩
      · refine Or.inr ⟨earlier ++ [record], hbrings, ?_, ?_⟩
        · rw [contents_append_silent hcarries]
          exact h.fits
        · rw [contents_append_silent hcarries]
          exact h.apart

theorem Decided.append {lines : List (List UInt8)} {result : Except Failure Image}
    (h : Decided lines result) (others : List (List UInt8)) : Decided (lines ++ others) result := by
  obtain ⟨after, hbefore, hline⟩ := h
  rw [List.append_assoc, List.cons_append]
  exact .intro (after ++ others) hbefore hline

theorem decided_or_undecided (lines : List (List UInt8)) :
    (∃ result, Decided lines result) ∨ ∃ records, Undecided lines records := by
  induction lines using List.reverseRecOn with
  | nil => exact Or.inr ⟨[], undecided_nil⟩
  | append_singleton before line ih =>
      rcases ih with ⟨result, hdecided⟩ | ⟨earlier, hundecided⟩
      · exact Or.inl ⟨result, hdecided.append [line]⟩
      · rcases hundecided.decides_or_append (before.length + 1) line with ⟨result, hline⟩ | happend
        · exact Or.inl ⟨result, .intro [] hundecided hline⟩
        · exact Or.inr happend

theorem Source.exists_comesTo (source : Source) : ∃ result, source.ComesTo result := by
  have hlines : source.HasLines source.lines := hasLines_iff.mpr rfl
  rcases decided_or_undecided source.lines with ⟨result, hdecided⟩ | ⟨records, hundecided⟩
  · exact ⟨result, .decided hlines hdecided⟩
  · cases hending : source.ending with
    | complete => exact ⟨_, .truncated hlines hundecided hending⟩
    | failed text => exact ⟨_, .failed hlines hundecided hending⟩

/-! ### The reader comes to the same -/

/-- The reader behind lines that brought these records: what it holds is what they carry, joined
where it touches, and goes on being joined to what is still to come. -/
structure State.Reached (state : State) (earlier : List Record) : Prop where
  follows : state.Follows earlier
  joined : ∀ later,
    state.closed ++ joinAfter state.current later = joined (contents earlier ++ later)

theorem State.reached_initial : State.initial.Reached [] where
  follows := State.follows_initial
  joined _ := rfl

theorem State.Reached.segments {state : State} {earlier : List Record}
    (h : state.Reached earlier) : state.segments = UsbBoot.joined (contents earlier) := by
  have hopen : joinAfter state.current [] = state.current.toList := by
    cases state.current <;> rfl
  rw [State.segments, ← hopen, h.joined, List.append_nil]

/-- What lies apart from all that the reader holds lies apart from all that came before. -/
theorem State.Reached.apart_iff {state : State} {earlier : List Record}
    (h : state.Reached earlier) (segment : Segment) :
    (∀ other ∈ state.segments, other.Apart segment)
      ↔ ∀ other ∈ contents earlier, other.Apart segment := by
  have hmoved : addressesOf state.segments = addressesOf (contents earlier) := by
    rw [h.segments, addressesOf, placedOf_joined, addressesOf]
  have haddresses : ∀ others : List Segment, (∀ other ∈ others, other.Apart segment)
      ↔ ∀ address ∈ addressesOf others, ¬segment.Covers address := by
    intro others
    constructor
    · intro hapart address hmem hcovers
      obtain ⟨other, hother, hshared⟩ := mem_addressesOf.mp hmem
      exact hapart other hother address ⟨hshared, hcovers⟩
    · intro hfree other hother address hshared
      exact hfree address (mem_addressesOf.mpr ⟨other, hother, hshared.1⟩) hshared.2
  rw [haddresses, haddresses, hmoved]

/-- A record that brings the image no nearer to its end is taken in. -/
theorem State.Reached.take {state : State} {earlier : List Record} (h : state.Reached earlier)
    (number : Nat) {record : Record} (hlegible : record.Legible)
    (hfits : ∀ segment ∈ contents (earlier ++ [record]), segment.Fits)
    (hapart : (contents (earlier ++ [record])).Pairwise Segment.Apart) :
    ∃ next, state.take number record = .ok next ∧ next.Reached (earlier ++ [record]) := by
  by_cases hcarries : record.Carries
  · rw [contents_append_carries hcarries] at hfits hapart
    have hroom := hfits _ (List.mem_append_right _ (List.mem_singleton_self _))
    have hfree := fun other hmem =>
      (List.pairwise_append.mp hapart).2.2 other hmem _ (List.mem_singleton_self _)
    have hadmits := h.follows.admits number hcarries
    generalize state.take number record = result at hadmits
    cases hadmits with
    | pastEnd hpast => exact absurd hroom hpast
    | overlapping _ hmeets => exact absurd ((h.apart_iff _).mpr hfree) hmeets
    | taken _ hkept =>
        refine ⟨_, rfl, h.follows.taken hcarries rfl hkept, fun later => ?_⟩
        rw [state.joinAfter_add, h.joined, contents_append_carries hcarries, List.append_assoc,
          List.singleton_append]
  · obtain ⟨base, htake, hfollows⟩ := h.follows.silent number hlegible hcarries
    refine ⟨_, htake, hfollows, fun later => ?_⟩
    rw [contents_append_silent hcarries]
    exact h.joined later

/-- Lines that decide nothing bring the reader to where it holds what they carry. -/
theorem Brings.reached {lines : List (List UInt8)} {later : List Record} (h : Brings lines later)
    {state : State} {earlier : List Record} (hstate : state.Reached earlier) (number : Nat)
    (hfits : ∀ segment ∈ contents (earlier ++ later), segment.Fits)
    (hapart : (contents (earlier ++ later)).Pairwise Segment.Apart) :
    ∃ next, next.Reached (earlier ++ later) ∧ ∀ ending rest,
      readLines ending state number (lines ++ rest)
        = readLines ending next (number + lines.length) rest := by
  induction h generalizing state earlier number with
  | nothing => exact ⟨state, by rwa [List.append_nil], fun _ _ => rfl⟩
  | @idle line lines records hidle _ ih =>
      obtain ⟨next, hnext, hreads⟩ := ih hstate (number + 1) hfits hapart
      refine ⟨next, hnext, fun ending rest => ?_⟩
      rw [List.cons_append, readLines, ofLine_of_idle hidle]
      dsimp only
      rw [hreads, List.length_cons, Nat.add_right_comm]
      rfl
  | @record line record lines records hholds hmore _ ih =>
      rw [List.append_cons] at hfits hapart ⊢
      rw [contents_append] at hfits hapart
      obtain ⟨middle, htake, hmiddle⟩ := hstate.take number hholds.legible
        (fun segment hmem => hfits segment (List.mem_append_left _ hmem))
        (List.pairwise_append.mp hapart).1
      rw [← contents_append] at hfits hapart
      obtain ⟨next, hnext, hreads⟩ := ih hmiddle (number + 1) hfits hapart
      refine ⟨next, hnext, fun ending rest => ?_⟩
      rw [List.cons_append, readLines, ofLine_of_holds hholds]
      dsimp only
      rw [if_neg hmore, htake]
      dsimp only
      rw [hreads, List.length_cons, Nat.add_right_comm]
      rfl

theorem Undecided.reached {lines : List (List UInt8)} {records : List Record}
    (h : Undecided lines records) :
    ∃ state : State, state.Reached records ∧ ∀ ending rest,
      readLines ending .initial 1 (lines ++ rest)
        = readLines ending state (lines.length + 1) rest := by
  obtain ⟨state, hstate, hreads⟩ := h.brings.reached State.reached_initial 1 h.fits h.apart
  refine ⟨state, hstate, fun ending rest => ?_⟩
  rw [hreads, Nat.add_comm]

theorem ofLine_of_noText {line : List UInt8} (hbusy : ¬IsIdle line) (htext : ¬Text.IsText line) :
    Entry.ofLine line = .malformed .invalidDigit := by
  have hdecode : Text.decode (Text.trimBytes line) = none := by
    rw [← Text.isText_trimBytes, Text.isText_iff] at htext
    exact Option.eq_none_iff_forall_not_mem.mpr fun text hsome => htext ⟨text, hsome⟩
  rw [ofLine_of_busy hbusy, hdecode]

/-- Data with an address of their own are data that a record carries. -/
theorem carries_of_covers {record : Record} (hdata : record.kind = .data) {base : Base}
    {address : Nat} (h : (record.placedAt base).Covers address) : record.Carries := by
  refine ⟨hdata, fun hempty => ?_⟩
  have hlength : (record.placedAt base).length = 0 := congrArg List.length hempty
  obtain ⟨hlow, hhigh⟩ := h
  rw [Segment.stop, hlength] at hhigh
  omega

/-- Where the reader comes upon a line that decides, it comes to what the line decides. -/
theorem readLines_of_decides {state : State} {earlier : List Record}
    (hstate : state.Reached earlier) {number : Nat} {line : List UInt8}
    {result : Except Failure Image} (h : Decides earlier number line result) (ending : Ending)
    (rest : List (List UInt8)) : readLines ending state number (line :: rest) = result := by
  rw [readLines]
  cases h with
  | ended hholds hend =>
      rw [ofLine_of_holds hholds]
      dsimp only
      rw [if_pos hend, hstate.segments]
  | noText hbusy htext => rw [ofLine_of_noText hbusy htext]
  | noRecord hbusy htext hfault =>
      rw [ofLine_of_fault hbusy (Text.decode_eq_some_iff.mpr htext) hfault]
  | @pastEnd record hholds hdata hpast =>
      -- The first address is one, so it is by its length that the record reaches too far.
      have hfirst : (record.placedAt (baseAfter earlier)).Covers
          (record.placedAt (baseAfter earlier)).base.toNat :=
        ⟨Nat.le_refl _, Nat.lt_trans (UInt32.toNat_lt _) hpast⟩
      have hadmits := hstate.follows.admits number (carries_of_covers hdata hfirst)
      have hmore : record.kind ≠ .endOfFile := by simp [hdata]
      simp only [ofLine_of_holds hholds, hmore, if_false]
      generalize state.take number record = taken at hadmits
      cases hadmits with
      | pastEnd => rfl
      | overlapping hfits => exact absurd hfits (Nat.not_le_of_lt hpast)
      | taken hfits => exact absurd hfits (Nat.not_le_of_lt hpast)
  | @overlapping record segment address hholds hdata hfits hmem hbefore hagain =>
      have hadmits := hstate.follows.admits number (carries_of_covers hdata hagain)
      have hmore : record.kind ≠ .endOfFile := by simp [hdata]
      simp only [ofLine_of_holds hholds, hmore, if_false]
      generalize state.take number record = taken at hadmits
      cases hadmits with
      | pastEnd hpast => exact absurd hfits hpast
      | overlapping => rfl
      | taken _ hapart =>
          exact absurd ⟨hbefore, hagain⟩ ((hstate.apart_iff _).mp hapart segment hmem address)

theorem readLines_of_decided {lines : List (List UInt8)} {result : Except Failure Image}
    (h : Decided lines result) (ending : Ending) :
    readLines ending .initial 1 lines = result := by
  obtain ⟨after, hbefore, hline⟩ := h
  obtain ⟨state, hstate, hreads⟩ := hbefore.reached
  rw [hreads]
  exact readLines_of_decides hstate hline ending after

theorem readLines_of_undecided {lines : List (List UInt8)} {records : List Record}
    (h : Undecided lines records) (ending : Ending) :
    readLines ending .initial 1 lines = .error ending.failure := by
  obtain ⟨state, -, hreads⟩ := h.reached
  have hend := hreads ending []
  rwa [List.append_nil] at hend

theorem Source.ComesTo.read {source : Source} {result : Except Failure Image}
    (h : source.ComesTo result) : Image.read source = result := by
  rw [Image.read]
  cases h with
  | decided hlines hdecided =>
      rw [hasLines_iff.mp hlines]
      exact readLines_of_decided hdecided source.ending
  | truncated hlines hundecided hending =>
      rw [hasLines_iff.mp hlines, readLines_of_undecided hundecided, hending]
      rfl
  | failed hlines hundecided hending =>
      rw [hasLines_iff.mp hlines, readLines_of_undecided hundecided, hending]
      rfl

/-- **A source is read as what it comes to.** -/
theorem read_eq_iff {source : Source} {result : Except Failure Image} :
    read source = result ↔ source.ComesTo result := by
  constructor
  · rintro rfl
    obtain ⟨result, hresult⟩ := source.exists_comesTo
    rwa [hresult.read]
  · exact Source.ComesTo.read

/-! ### What lies behind is not seen -/

theorem hasLines_behind {lines : List (List UInt8)} (hwhole : ∀ line ∈ lines, lineFeed ∉ line)
    (rest : List UInt8) (ending : Ending) :
    ∃ others, Source.HasLines ⟨lines.flatMap (· ++ [lineFeed]) ++ rest, ending⟩
      (lines ++ others) := by
  obtain ⟨heq, hothers, htail⟩ := parted_splitLines rest
  refine ⟨_, lines ++ (splitLines rest).1, (splitLines rest).2, ⟨?_, ?_, htail⟩,
    (List.append_assoc ..).symm⟩
  · rw [List.flatMap_append, List.append_assoc, ← heq]
  · exact List.forall_mem_append.mpr ⟨hwhole, hothers⟩

/--
**The first line that decides is what a source comes to.**

A source is read as the first of its lines that decides says, and if none does, by how it ends.
Whatever stands behind that line, and whether reading would fail there, makes no difference.
-/
theorem read_decided :
    (∀ source result, read source = result ↔ source.ComesTo result) ∧
    ∀ lines result, (∀ line ∈ lines, lineFeed ∉ line) → Decided lines result →
      ∀ rest ending,
        read ⟨lines.flatMap (· ++ [lineFeed]) ++ rest, ending⟩ = result := by
  refine ⟨fun source result => read_eq_iff, fun lines result hwhole hdecided rest ending => ?_⟩
  obtain ⟨others, hlines⟩ := hasLines_behind hwhole rest ending
  exact read_eq_iff.mpr (.decided hlines (hdecided.append others))

/-- A comment that is no text, a run of two bytes that ends with the addresses, and a blank. -/
def edgeLines : List (List UInt8) :=
  [[commentMark, 0x63, 0xE9], Text.encode (Record.extendedLinear 0xFFFF).line,
    Text.encode (Record.data 0xFFFE [0x01, 0x02]).line, [0x20, carriageReturn]]

theorem undecided_edgeLines :
    Undecided edgeLines [.extendedLinear 0xFFFF, .data 0xFFFE [0x01, 0x02]] where
  brings := .idle (Or.inr (by decide +kernel))
    (.record (holds_of_ofLine (by decide +kernel)) (by decide)
      (.record (holds_of_ofLine (by decide +kernel)) (by decide)
        (.idle (Or.inl (by decide +kernel)) .nothing)))
  fits := by decide +kernel
  apart := by decide +kernel

/-- Data that reach too far and meet others reach too far, and what fails behind is not seen. -/
theorem read_decided_edge :
    let lines := edgeLines ++ [Text.encode (Record.data 0xFFFF [0x03, 0x04]).line]
    let result : Except Failure Image := .error (.malformed 5 .pastEnd)
    (∀ line ∈ lines, lineFeed ∉ line) ∧ Decided lines result ∧
      read ⟨lines.flatMap (· ++ [lineFeed]) ++ [0x3A, 0x30], .failed "gone"⟩ = result := by
  intro lines result
  have hwhole : ∀ line ∈ lines, lineFeed ∉ line := by decide +kernel
  have hholds : Holds (Text.encode (Record.data 0xFFFF [0x03, 0x04]).line)
      (.data 0xFFFF [0x03, 0x04]) := holds_of_ofLine (by decide +kernel)
  have hdecided : Decided lines result :=
    .intro [] undecided_edgeLines (.pastEnd hholds rfl (by decide +kernel))
  exact ⟨hwhole, hdecided, read_decided.2 lines result hwhole hdecided [0x3A, 0x30]
    (.failed "gone")⟩

end UsbBoot.Image
