/-
How a file is laid out does not matter.

A file that is read can be written differently without being read differently: with other
blanks around its lines and another end of line, with digits of the other case, with lines put
in that change nothing where they stand, and with anything at all behind the line that ends
the image.  Each of these changes is a step of `Reformats`, and they may be made one after the
other, in any number and at any place.

What a step changes is settled on the lines.  A line that is dressed differently holds what it
held; a line that is put in holds nothing, or a record that carries nothing and leaves the base
where it is.  So the records may become more, but what they say stays the same, and what is
read is what they say.
-/
import Mathlib.Logic.Relation
import UsbBoot.Proofs.Image.Lines
import UsbBoot.Proofs.Image.Reading

namespace UsbBoot.Image

/-! ### Changes of layout -/

/-- The bytes that may be put around a line: space, tab, return. -/
def padding : List UInt8 :=
  [0x20, 0x09, 0x0D]

/-- The byte that may stand in front of a line feed. -/
def carriageReturn : UInt8 := 0x0D

/-- These lines hold these records, none of which ends the image. -/
inductive Brings : List (List UInt8) → List Record → Prop
  | nothing : Brings [] []
  | idle {line : List UInt8} {rest : List (List UInt8)} {records : List Record}
    (hidle : IsIdle line) (hrest : Brings rest records) : Brings (line :: rest) records
  | record {line : List UInt8} {record : Record} {rest : List (List UInt8)}
    {records : List Record} (hholds : Holds line record) (hmore : record.kind ≠ .endOfFile)
    (hrest : Brings rest records) : Brings (line :: rest) (record :: records)

/-- A line that changes nothing where this base is in force. -/
inductive Idles (base : Base) : List UInt8 → Prop
  | blank {line : List UInt8} (hblank : ∀ byte ∈ line, Text.isBlankByte byte = true) :
    Idles base line
  /-- A comment may hold any bytes, even such as are no text. -/
  | comment (text : List UInt8) : Idles base (commentMark :: text)
  | unknown {line : List UInt8} {record : Record} {tag : UInt8} (hholds : Holds line record)
    (hkind : record.kind = .other tag) : Idles base line
  /-- Data that are none may lie at any address. -/
  | empty {line : List UInt8} {record : Record} (hholds : Holds line record)
    (hkind : record.kind = .data) (hpayload : record.payload = []) : Idles base line
  /-- The base in force is selected once more. -/
  | reselect {line : List UInt8} {record : Record} (hholds : Holds line record)
    (hselects : record.selects? = some base) : Idles base line

/-- One change of layout. -/
inductive Reformats : Source → Source → Prop
  /-- Behind the line that ends the image stands something else, or reading fails there. -/
  | beyond {front line : List UInt8} {record : Record} (back other : List UInt8)
    (ending change : Ending) (hfront : EndsLine front) (hline : lineFeed ∉ line)
    (hholds : Holds line record) (hend : record.kind = .endOfFile) :
    Reformats ⟨front ++ line ++ lineFeed :: back, ending⟩
      ⟨front ++ line ++ lineFeed :: other, change⟩
  /-- A line is put in before the image has ended. -/
  | inserted {front line : List UInt8} {earlier : List Record} (back : List UInt8)
    (ending : Ending) (hfront : EndsLine front) (hbrings : Brings (splitLines front).1 earlier)
    (hline : lineFeed ∉ line) (hidles : Idles (baseAfter earlier) line) :
    Reformats ⟨front ++ back, ending⟩ ⟨front ++ line ++ lineFeed :: back, ending⟩
  /-- Blanks are put around a line. -/
  | surrounded {front line back left right : List UInt8} (ending : Ending)
    (hfront : EndsLine front) (hline : lineFeed ∉ line)
    (hback : back = [] ∨ ∃ rest, back = lineFeed :: rest)
    (hleft : ∀ byte ∈ left, byte ∈ padding) (hright : ∀ byte ∈ right, byte ∈ padding) :
    Reformats ⟨front ++ line ++ back, ending⟩
      ⟨front ++ (left ++ line ++ right) ++ back, ending⟩
  /-- A line ends in two bytes instead of one. -/
  | returned (front back : List UInt8) (ending : Ending) :
    Reformats ⟨front ++ lineFeed :: back, ending⟩
      ⟨front ++ carriageReturn :: lineFeed :: back, ending⟩
  /-- A digit is written as the letter of the other case. -/
  | recased {digit other : UInt8} {value : Nat} (front back : List UInt8) (ending : Ending)
    (hdigit : Text.hexValue? digit = some value) (hother : Text.hexValue? other = some value) :
    Reformats ⟨front ++ digit :: back, ending⟩ ⟨front ++ other :: back, ending⟩

/-! ### What a line holds -/

/-- All that a line holds the other one holds as well. -/
structure Passes (line other : List UInt8) : Prop where
  idle : IsIdle line → IsIdle other
  holds : ∀ record, Holds line record → Holds other record

theorem Passes.of_trimBytes {line other : List UInt8}
    (h : Text.trimBytes other = Text.trimBytes line) : Passes line other where
  idle hidle := by rwa [IsIdle, h]
  holds record hholds := by rwa [Holds, IsIdle, h]

theorem isBlankByte_of_mem_padding {byte : UInt8} (h : byte ∈ padding) :
    Text.isBlankByte byte = true := by
  simp only [padding, List.mem_cons, List.not_mem_nil, or_false] at h
  rcases h with rfl | rfl | rfl <;> rfl

theorem lineFeed_not_mem_padding : lineFeed ∉ padding := by decide

theorem lineFeed_not_mem_surrounded {left line right : List UInt8}
    (hleft : ∀ byte ∈ left, byte ∈ padding) (hline : lineFeed ∉ line)
    (hright : ∀ byte ∈ right, byte ∈ padding) : lineFeed ∉ left ++ line ++ right := by
  rw [List.mem_append, List.mem_append]
  rintro ((hmem | hmem) | hmem)
  · exact lineFeed_not_mem_padding (hleft _ hmem)
  · exact hline hmem
  · exact lineFeed_not_mem_padding (hright _ hmem)

/-- Blanks around a line do not change what it holds. -/
theorem passes_surrounded {left right : List UInt8} (hleft : ∀ byte ∈ left, byte ∈ padding)
    (hright : ∀ byte ∈ right, byte ∈ padding) (line : List UInt8) :
    Passes line (left ++ line ++ right) := by
  apply Passes.of_trimBytes
  exact Text.dropBothWhile_surround (fun byte hmem => isBlankByte_of_mem_padding (hleft byte hmem))
    (fun byte hmem => isBlankByte_of_mem_padding (hright byte hmem)) line

theorem hexValue?_ne_blank {byte : UInt8} {value : Nat} (h : Text.hexValue? byte = some value) :
    Text.isBlankByte byte = false ∧ byte < 0x80 ∧ byte ≠ lineFeed ∧ byte ≠ commentMark := by
  have hdigit : Text.isHexByte byte = true := Text.isHexDigit_of_digitOf? h
  refine ⟨Text.isBlankByte_of_isHexByte hdigit, Text.ascii_of_isHexByte hdigit, ?_, ?_⟩
  · rintro rfl
    cases h
  · rintro rfl
    cases h

/-- A line with a digit keeps what stands around it, and the digit itself, when it is trimmed. -/
theorem trimBytes_digit {digit : UInt8} {value : Nat} (h : Text.hexValue? digit = some value)
    (left right : List UInt8) :
    Text.trimBytes (left ++ digit :: right)
      = left.dropWhile Text.isBlankByte ++ digit :: Text.dropEndWhile Text.isBlankByte right :=
  Text.dropBothWhile_append_cons (hexValue?_ne_blank h).1 left right

/-- A line with a digit is idle if it begins, in front of the digit, like a comment. -/
theorem isIdle_digit_iff {digit : UInt8} {value : Nat} (h : Text.hexValue? digit = some value)
    (left right : List UInt8) :
    IsIdle (left ++ digit :: right)
      ↔ (left.dropWhile Text.isBlankByte).head? = some commentMark := by
  obtain ⟨-, -, -, hmark⟩ := hexValue?_ne_blank h
  rw [IsIdle, trimBytes_digit h]
  cases left.dropWhile Text.isBlankByte <;> simp [hmark]

/-- A digit of the other case does not change what a line holds. -/
theorem passes_recased {digit other : UInt8} {value : Nat}
    (hdigit : Text.hexValue? digit = some value) (hother : Text.hexValue? other = some value)
    (left right : List UInt8) : Passes (left ++ digit :: right) (left ++ other :: right) where
  idle hidle := by
    rw [isIdle_digit_iff hdigit] at hidle
    rwa [isIdle_digit_iff hother]
  holds record hholds := by
    obtain ⟨hbusy, text, htext, hparse⟩ := hholds
    rw [isIdle_digit_iff hdigit] at hbusy
    rw [trimBytes_digit hdigit, Text.decode_append_ascii _ _ (hexValue?_ne_blank hdigit).2.1]
      at htext
    obtain ⟨front, hfront, htext⟩ := Option.bind_eq_some_iff.mp htext
    obtain ⟨back, hback, rfl⟩ := Option.map_eq_some_iff.mp htext
    rw [Holds, isIdle_digit_iff hother, trimBytes_digit hother,
      Text.decode_append_ascii _ _ (hexValue?_ne_blank hother).2.1, hfront, hback]
    exact ⟨hbusy, _, rfl, Record.parse_recased hparse hdigit hother⟩

/-! ### Records that change nothing -/

/-- A record that changes nothing where this base is in force. -/
structure Silent (base : Base) (record : Record) : Prop where
  more : record.kind ≠ .endOfFile
  carries : ¬record.Carries
  selects : ∀ other, record.selects? = some other → other = base

/-- A line that changes nothing is idle or holds a record that changes nothing. -/
theorem Idles.idle_or_silent {base : Base} {line : List UInt8} (h : Idles base line) :
    IsIdle line ∨ ∃ record, Holds line record ∧ Silent base record := by
  cases h with
  | blank hblank =>
      left
      have htrim := Text.dropBothWhile_surround hblank (List.forall_mem_nil _) []
      rw [List.append_nil, List.append_nil] at htrim
      exact Or.inl htrim
  | comment text =>
      left
      right
      have hmark : Text.isBlankByte commentMark = false := by decide
      rw [Text.trimBytes, ← List.nil_append (commentMark :: text),
        Text.dropBothWhile_append_cons hmark]
      rfl
  | @unknown _ record tag hholds hkind =>
      right
      refine ⟨record, hholds, by simp [hkind], by simp [Record.Carries, hkind], ?_⟩
      have hnone : record.selects? = none := Record.selects?_of_kind (by rw [hkind]; rfl)
      simp [hnone]
  | @empty _ record hholds hkind hpayload =>
      right
      refine ⟨record, hholds, by simp [hkind], by simp [Record.Carries, hpayload], ?_⟩
      have hnone : record.selects? = none := Record.selects?_of_kind (by rw [hkind]; rfl)
      simp [hnone]
  | @reselect _ record hholds hselects =>
      right
      have hsets : record.kind.setsBase = true := by
        by_contra hother
        rw [Record.selects?_of_kind (Bool.eq_false_iff.mpr hother)] at hselects
        cases hselects
      refine ⟨record, hholds, ?_, ?_, ?_⟩
      · intro hkind
        simp [hkind, Record.Kind.setsBase] at hsets
      · rintro ⟨hkind, -⟩
        simp [hkind, Record.Kind.setsBase] at hsets
      · intro other hother
        exact (Option.some.inj (hselects.symm.trans hother)).symm

theorem Silent.baseAfter {earlier : List Record} {record : Record}
    (h : Silent (baseAfter earlier) record) :
    Image.baseAfter (earlier ++ [record]) = Image.baseAfter earlier := by
  rw [baseAfter_append_singleton]
  cases hselects : record.selects? with
  | none => rfl
  | some base => exact h.selects base hselects

/-- Of the records before, only the base in force matters. -/
theorem contentsAfter_congr {earlier others : List Record}
    (h : baseAfter earlier = baseAfter others) (records : List Record) :
    contentsAfter earlier records = contentsAfter others records := by
  induction records generalizing earlier others with
  | nil => rfl
  | cons record rest ih =>
      have hnext : baseAfter (earlier ++ [record]) = baseAfter (others ++ [record]) := by
        rw [baseAfter_append_singleton, baseAfter_append_singleton, h]
      rw [contentsAfter, contentsAfter, h, ih hnext]

/-- A record that changes nothing can stand among others. -/
theorem contents_silent {earlier : List Record} {record : Record}
    (h : Silent (baseAfter earlier) record) (later : List Record) :
    contents (earlier ++ record :: later) = contents (earlier ++ later) := by
  rw [contents, contents, contentsAfter_append, contentsAfter_append, contentsAfter,
    if_neg h.carries]
  congr 1
  exact contentsAfter_congr h.baseAfter later

/-! ### Lines in their place -/

/-- Lines that go on with what those at their place said say it behind the same lines. -/
theorem Delivers.behind {front back other : List (List UInt8)} {records : List Record}
    (hback : ∀ records, Delivers back records → Delivers other records)
    (h : Delivers (front ++ back) records) : Delivers (front ++ other) records := by
  induction front generalizing records with
  | nil => exact hback records h
  | cons line front ih =>
      cases h with
      | ended _ hholds hend => exact .ended _ hholds hend
      | idle hidle hrest => exact .idle hidle (ih hrest)
      | record hholds hmore hrest => exact .record hholds hmore (ih hrest)

theorem Delivers.passes {line other : List UInt8} (hpasses : Passes line other)
    {front back : List (List UInt8)} {records : List Record}
    (h : Delivers (front ++ line :: back) records) :
    Delivers (front ++ other :: back) records := by
  refine Delivers.behind (fun records hrecords => ?_) h
  cases hrecords with
  | ended _ hholds hend => exact .ended _ (hpasses.holds _ hholds) hend
  | idle hidle hrest => exact .idle (hpasses.idle hidle) hrest
  | record hholds hmore hrest => exact .record (hpasses.holds _ hholds) hmore hrest

/-- Behind the line that ends the image the lines do not matter. -/
theorem Delivers.beyond {line : List UInt8} {record : Record} (hholds : Holds line record)
    (hend : record.kind = .endOfFile) {front back : List (List UInt8)} {records : List Record}
    (h : Delivers (front ++ line :: back) records) (other : List (List UInt8)) :
    Delivers (front ++ line :: other) records := by
  refine Delivers.behind (fun records hrecords => ?_) h
  rw [delivers_cons_of_end hholds hend] at hrecords ⊢
  exact hrecords

theorem Brings.delivers_append_iff {front back : List (List UInt8)} {earlier records : List Record}
    (h : Brings front earlier) :
    Delivers (front ++ back) records
      ↔ ∃ later, records = earlier ++ later ∧ Delivers back later := by
  induction h generalizing records with
  | nothing =>
      constructor
      · intro hback
        exact ⟨records, rfl, hback⟩
      · rintro ⟨later, rfl, hback⟩
        exact hback
  | idle hidle _ ih => rw [List.cons_append, delivers_cons_of_idle hidle, ih]
  | record hholds hmore _ ih =>
      rw [List.cons_append, delivers_cons_of_record hholds hmore]
      constructor
      · rintro ⟨_, rfl, hrest⟩
        obtain ⟨later, rfl, hback⟩ := ih.mp hrest
        exact ⟨later, rfl, hback⟩
      · rintro ⟨later, rfl, hback⟩
        exact ⟨_, rfl, ih.mpr ⟨later, rfl, hback⟩⟩

/-- A line that changes nothing can be put in. -/
theorem Brings.delivers_inserted {front back : List (List UInt8)} {earlier records : List Record}
    (h : Brings front earlier) {line : List UInt8} (hidles : Idles (baseAfter earlier) line)
    (hdelivers : Delivers (front ++ back) records) :
    ∃ others, Delivers (front ++ line :: back) others ∧ contents others = contents records := by
  obtain ⟨later, rfl, hback⟩ := h.delivers_append_iff.mp hdelivers
  rcases hidles.idle_or_silent with hidle | ⟨record, hholds, hsilent⟩
  · exact ⟨_, h.delivers_append_iff.mpr ⟨later, rfl, .idle hidle hback⟩, rfl⟩
  · have hmore := hsilent.more
    refine ⟨earlier ++ record :: later, ?_, contents_silent hsilent later⟩
    exact h.delivers_append_iff.mpr ⟨_, rfl, .record hholds hmore hback⟩

/-- What stands behind the last line feed passes on what it holds. -/
theorem Delivers.lastLine {line other : List UInt8} (hpasses : Passes line other)
    (hkept : line ≠ [] → other ≠ []) (ending : Ending) {front : List (List UInt8)}
    {records : List Record} (h : Delivers (front ++ ending.lastLine line) records) :
    Delivers (front ++ ending.lastLine other) records := by
  cases ending with
  | failed text => exact h
  | complete =>
      by_cases hline : line = []
      · -- Nothing stands there, so the image has ended before.
        refine Delivers.behind (fun records hrecords => ?_) h
        rw [Ending.lastLine, if_pos hline] at hrecords
        exact absurd hrecords (delivers_nil records)
      · rw [Ending.lastLine, if_neg hline] at h
        rw [Ending.lastLine, if_neg (hkept hline)]
        exact h.passes hpasses

/-! ### Steps -/

/-- **After a change of layout, the lines say what they said.** -/
theorem Reformats.delivers {source other : Source} (h : Reformats source other)
    {records : List Record} (hdelivers : Delivers source.lines records) :
    ∃ others, Delivers other.lines others ∧ contents others = contents records := by
  cases h with
  | @beyond front line record back other ending change hfront hline hholds hend =>
      rw [lines_feed, hfront.splitLines_line hline] at hdelivers
      rw [lines_feed, hfront.splitLines_line hline]
      exact ⟨records, hdelivers.beyond hholds hend _, rfl⟩
  | @inserted front line earlier back ending hfront hbrings hline hidles =>
      rw [hfront.lines_append] at hdelivers
      rw [lines_feed, hfront.splitLines_line hline]
      exact hbrings.delivers_inserted hidles hdelivers
  | @surrounded front line back left right ending hfront hline hback hleft hright =>
      have hpasses := passes_surrounded hleft hright line
      have hother := lineFeed_not_mem_surrounded hleft hline hright
      refine ⟨records, ?_, rfl⟩
      rcases hback with rfl | ⟨rest, rfl⟩
      · rw [List.append_nil, lines_eq, hfront.splitLines_line hline] at hdelivers
        rw [List.append_nil, lines_eq, hfront.splitLines_line hother]
        exact hdelivers.lastLine hpasses (by simp +contextual) ending
      · rw [lines_feed, hfront.splitLines_line hline] at hdelivers
        rw [lines_feed, hfront.splitLines_line hother]
        exact hdelivers.passes hpasses
  | returned front back ending =>
      have hsplit : splitLines (front ++ [carriageReturn])
          = ((splitLines front).1, (splitLines front).2 ++ [carriageReturn]) :=
        splitLines_append_tail (splitLines_of_not_mem (by decide)) front
      have hpasses := passes_surrounded (List.forall_mem_nil _)
        (List.forall_mem_singleton.mpr (show carriageReturn ∈ padding by decide))
        (splitLines front).2
      rw [lines_feed] at hdelivers
      rw [List.append_cons, lines_feed, hsplit]
      exact ⟨records, hdelivers.passes hpasses, rfl⟩
  | @recased digit other value front back ending hdigit hother =>
      obtain ⟨-, -, hfeed, -⟩ := hexValue?_ne_blank hdigit
      obtain ⟨-, -, hfeed', -⟩ := hexValue?_ne_blank hother
      refine ⟨records, ?_, rfl⟩
      rcases lines_around ending front back with ⟨right, later, hlines⟩ | hlines
      · rw [hlines digit hfeed] at hdelivers
        rw [hlines other hfeed']
        exact hdelivers.passes (passes_recased hdigit hother _ right)
      · rw [hlines digit hfeed] at hdelivers
        rwa [hlines other hfeed']

theorem Reformats.read {source other : Source} (h : Reformats source other) {image : Image}
    (hread : Image.read source = .ok image) : Image.read other = .ok image := by
  obtain ⟨records, hdelivers, hfits, hapart, himage⟩ := (read_eq_ok_iff source image).mp hread
  obtain ⟨others, hothers, hcontents⟩ := h.delivers hdelivers
  rw [← hcontents] at hfits hapart himage
  exact (read_eq_ok_iff other image).mpr ⟨others, hothers, hfits, hapart, himage⟩

/--
**A file is read alike however it is laid out.**

From a source that is read as an image, let any number of changes be made, one after the other:
anything else behind the line that ends the image, or a failure to read on there; lines put in
before it that are blank, comments, records of an unknown kind, empty data, or a selection of
the base that is in force; blanks around any line; a return in front of any line feed; letters
of the other case for digits.  The same image is read then, in the same segments.
-/
theorem read_reformatted {source other : Source} {image : Image}
    (hread : read source = .ok image) (h : Relation.ReflTransGen Reformats source other) :
    read other = .ok image := by
  induction h with
  | refl => exact hread
  | tail _ hstep ih => exact hstep.read ih

/-- A run of bytes that goes on behind another base. -/
def plain : Source :=
  .ofText ":02FFFE00AABB9C\n:020000040001F9\n:01000000CC33\n:00000001FF\n".toList

/-- The same with a small letter, and with that base selected again in units of sixteen. -/
def relaid : Source :=
  .ofText ":02FFFE00aABB9C\n:020000040001F9\n:020000021000EC\n:01000000CC33\n:00000001FF\n".toList

/-- The same again with something behind the end, where reading fails. -/
def broken : Source :=
  ⟨relaid.bytes ++ [0x3A, 0xFF], .failed "device not ready"⟩

theorem read_reformatted_broken :
    read plain = .ok ⟨[⟨0xFFFE, [0xAA, 0xBB, 0xCC]⟩]⟩ ∧
      Relation.ReflTransGen Reformats plain broken ∧
      read broken = .ok ⟨[⟨0xFFFE, [0xAA, 0xBB, 0xCC]⟩]⟩ := by
  have hread : read plain = .ok ⟨[⟨0xFFFE, [0xAA, 0xBB, 0xCC]⟩]⟩ := by decide +kernel
  have hsmall : Reformats plain ⟨Text.encode ":02FFFE00".toList ++ 0x61 ::
      Text.encode "ABB9C\n:020000040001F9\n:01000000CC33\n:00000001FF\n".toList, .complete⟩ := by
    have hplain : plain = ⟨Text.encode ":02FFFE00".toList ++ 0x41 ::
        Text.encode "ABB9C\n:020000040001F9\n:01000000CC33\n:00000001FF\n".toList, .complete⟩ := by
      have htext : ":02FFFE00AABB9C\n:020000040001F9\n:01000000CC33\n:00000001FF\n"
          = ":02FFFE00" ++
            ("A" ++ "ABB9C\n:020000040001F9\n:01000000CC33\n:00000001FF\n") := by
        decide +kernel
      rw [plain, Source.ofText, htext, String.toList_append, String.toList_append,
        Text.encode_append, Text.encode_append]
      rfl
    rw [hplain]
    exact .recased _ _ _ (show Text.hexValue? 0x41 = some 10 by decide) (by decide)
  have hagain : Reformats ⟨Text.encode ":02FFFE00aABB9C\n:020000040001F9\n".toList ++
      Text.encode ":01000000CC33\n:00000001FF\n".toList, .complete⟩ relaid := by
    have hrelaid : relaid = ⟨Text.encode ":02FFFE00aABB9C\n:020000040001F9\n".toList ++
        Text.encode ":020000021000EC".toList ++ lineFeed ::
        Text.encode ":01000000CC33\n:00000001FF\n".toList, .complete⟩ := by
      have htext : ":02FFFE00aABB9C\n:020000040001F9\n:020000021000EC\n:01000000CC33\n:00000001FF\n"
          = ":02FFFE00aABB9C\n:020000040001F9\n" ++ ":020000021000EC" ++
            ("\n" ++ ":01000000CC33\n:00000001FF\n") := by
        decide +kernel
      rw [relaid, Source.ofText, htext, String.toList_append, String.toList_append,
        String.toList_append, Text.encode_append, Text.encode_append, Text.encode_append]
      rfl
    have hbrings : Brings
        (splitLines (Text.encode ":02FFFE00aABB9C\n:020000040001F9\n".toList)).1
        [.data 0xFFFE [0xAA, 0xBB], .extendedLinear 1] := by
      have hlines : (splitLines (Text.encode ":02FFFE00aABB9C\n:020000040001F9\n".toList)).1
          = [Text.encode ":02FFFE00aABB9C".toList, Text.encode ":020000040001F9".toList] := by
        decide +kernel
      rw [hlines]
      exact .record (holds_of_ofLine (by decide +kernel)) (by decide)
        (.record (holds_of_ofLine (by decide +kernel)) (by decide) .nothing)
    have hholds : Holds (Text.encode ":020000021000EC".toList)
        (.sound .extendedSegment 0 [0x10, 0x00]) := holds_of_ofLine (by decide +kernel)
    rw [hrelaid]
    exact .inserted _ _ (by decide +kernel) hbrings (by decide +kernel)
      (.reselect hholds (by decide +kernel))
  have hbeyond : Reformats relaid broken := by
    have hrelaid : relaid = ⟨Text.encode
        ":02FFFE00aABB9C\n:020000040001F9\n:020000021000EC\n:01000000CC33\n".toList ++
        Text.encode ":00000001FF".toList ++ lineFeed :: [], .complete⟩ := by
      have htext : ":02FFFE00aABB9C\n:020000040001F9\n:020000021000EC\n:01000000CC33\n:00000001FF\n"
          = ":02FFFE00aABB9C\n:020000040001F9\n:020000021000EC\n:01000000CC33\n" ++
            ":00000001FF" ++ "\n" := by
        decide +kernel
      rw [relaid, Source.ofText, htext, String.toList_append, String.toList_append,
        Text.encode_append, Text.encode_append]
      rfl
    have hholds : Holds (Text.encode ":00000001FF".toList) .endOfFile :=
      holds_of_ofLine (by decide +kernel)
    rw [broken, hrelaid, List.append_assoc _ (lineFeed :: [])]
    exact .beyond [] [0x3A, 0xFF] _ _ (by decide +kernel) (by decide +kernel) hholds rfl
  have hchanges : Relation.ReflTransGen Reformats plain broken :=
    .head hsmall (.head hagain (.single hbeyond))
  exact ⟨hread, hchanges, read_reformatted hread hchanges⟩

end UsbBoot.Image
