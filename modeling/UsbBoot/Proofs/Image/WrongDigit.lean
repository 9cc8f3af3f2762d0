/-
A file with a wrong digit.

A digit is neither a blank nor the end of a line.  So with another digit in its place the lines
are the same but for one, and that one is trimmed and taken for text as before.  The reader
gets as far as that line, since it did so before; there the record is refused, and the failure
tells the line.
-/
import UsbBoot.Proofs.Image.Contents
import UsbBoot.Proofs.Image.Lines
import UsbBoot.Proofs.Record.WrongDigit

namespace UsbBoot.Image

/-! ### The line with the digit -/

theorem countP_dropBlank (bytes : List UInt8) :
    (bytes.dropWhile Text.isBlankByte).countP Text.isHexByte = bytes.countP Text.isHexByte := by
  have hblank : (bytes.takeWhile Text.isBlankByte).countP Text.isHexByte = 0 := by
    refine List.countP_eq_zero.mpr fun byte hmem hdigit => ?_
    have hkept := Text.isBlankByte_of_isHexByte hdigit
    rw [List.all_eq_true.mp List.all_takeWhile byte hmem] at hkept
    cases hkept
  have hsplit := congrArg (List.countP Text.isHexByte)
    (List.takeWhile_append_dropWhile (p := Text.isBlankByte) (l := bytes))
  rwa [List.countP_append, hblank, Nat.zero_add] at hsplit

/-- **A line that holds a record is malformed with a wrong digit.** -/
theorem ofLine_wrongDigit {left right : List UInt8} {digit wrong : UInt8} {value other : Nat}
    {record : Record} (h : Holds (left ++ digit :: right) record)
    (hdigit : Text.hexValue? digit = some value) (hwrong : Text.hexValue? wrong = some other)
    (hne : other ≠ value) :
    ∃ fault, Entry.ofLine (left ++ wrong :: right) = .malformed fault ∧
      fault.Betrays (left.countP Text.isHexByte < 2) (value < other) := by
  have htrim : ∀ {byte : UInt8} {value : Nat}, Text.hexValue? byte = some value →
      Text.trimBytes (left ++ byte :: right)
        = left.dropWhile Text.isBlankByte ++ byte :: Text.dropEndWhile Text.isBlankByte right :=
    fun hbyte => Text.dropBothWhile_append_cons
      (Text.isBlankByte_of_isHexByte (Text.isHexDigit_of_digitOf? hbyte)) ..
  have hascii : ∀ {byte : UInt8} {value : Nat}, Text.hexValue? byte = some value →
      byte < 0x80 := fun hbyte => Text.ascii_of_isHexByte (Text.isHexDigit_of_digitOf? hbyte)
  obtain ⟨hbusy, text, htext, hrecord⟩ := h
  rw [htrim hdigit, Text.decode_append_ascii _ _ (hascii hdigit)] at htext
  obtain ⟨front, hfront, htext⟩ := Option.bind_eq_some_iff.mp htext
  obtain ⟨back, hback, rfl⟩ := Option.map_eq_some_iff.mp htext
  obtain ⟨hcolon, fault, hfault, hbetrays⟩ :=
    Record.parse_wrongDigit hrecord hdigit hwrong hne
  refine ⟨fault, ofLine_of_fault ?_ ?_ hfault, ?_⟩
  · -- The line begins as before, with something that is no digit.
    rw [IsIdle, htrim hdigit] at hbusy
    rw [IsIdle, htrim hwrong]
    cases hleft : left.dropWhile Text.isBlankByte with
    | nil =>
        rw [hleft, Text.decode_nil] at hfront
        obtain rfl := Option.some.inj hfront
        cases hcolon
    | cons first rest =>
        rw [hleft] at hbusy
        simpa using hbusy
  · rw [htrim hwrong, Text.decode_append_ascii _ _ (hascii hwrong), hfront, hback]
    rfl
  · rwa [Text.countP_decode hfront, countP_dropBlank] at hbetrays

/-! ### Up to the line -/

/-- Lines that do not end the image leave the reader where it does not depend on what follows. -/
theorem readLines_reaches {ending : Ending} {state : State} {number : Nat}
    {earlier rest : List (List UInt8)} {image : Image}
    (h : readLines ending state number (earlier ++ rest) = .ok image)
    (hmore : ∀ line ∈ earlier, ∀ record, Holds line record → record.kind ≠ .endOfFile) :
    ∃ next, ∀ rest, readLines ending state number (earlier ++ rest)
      = readLines ending next (number + earlier.length) rest := by
  induction earlier generalizing state number with
  | nil => exact ⟨state, fun _ => rfl⟩
  | cons line earlier ih =>
      obtain ⟨hfirst, hothers⟩ := List.forall_mem_cons.mp hmore
      have hline := ofLine_spec line
      simp only [List.cons_append, readLines] at h ⊢
      have hnumber : number + (line :: earlier).length = number + 1 + earlier.length := by
        rw [List.length_cons]
        omega
      rw [hnumber]
      cases hentry : Entry.ofLine line with
      | nothing =>
          simp only [hentry] at h
          exact ih h hothers
      | malformed fault =>
          simp only [hentry] at h
          cases h
      | record record =>
          rw [hentry] at hline
          simp only [hentry, hfirst record hline, if_false] at h ⊢
          cases htake : state.take number record with
          | error failure =>
              simp only [htake] at h
              cases h
          | ok next =>
              simp only [htake] at h
              exact ih h hothers

/-! ### The file -/

/-- How many digits stand on the line that some bytes break off in. -/
def digitsSoFar (before : List UInt8) : Nat :=
  (splitLines before).2.countP Text.isHexByte

/--
**A wrong digit is always found, and found in its line.**

In a source that is read as an image, let the record on some line hold a digit, with no record
before it that ends the image.  With a digit of another value in its place, the source is
refused for that line: because there are too few bytes or too many, if the digit is one of the
two that make up the count, and otherwise because of the checksum.
-/
theorem read_wrongDigit {source : Source} {image : Image} (hread : read source = .ok image)
    {before after : List UInt8} {digit wrong : UInt8} {value other : Nat}
    (hbytes : source.bytes = before ++ digit :: after)
    (hdigit : Text.hexValue? digit = some value) (hwrong : Text.hexValue? wrong = some other)
    (hne : other ≠ value) {line : List UInt8}
    (hline : source.lines[before.count lineFeed]? = some line) (hbusy : ¬IsIdle line)
    (hmore : ∀ earlier ∈ source.lines.take (before.count lineFeed), ∀ record,
      Holds earlier record → record.kind ≠ .endOfFile) :
    ∃ fault,
      read ⟨before ++ wrong :: after, source.ending⟩
        = .error (.malformed (before.count lineFeed + 1) fault) ∧
      fault.Betrays (digitsSoFar before < 2) (value < other) := by
  have hfeed : ∀ {byte : UInt8} {value : Nat}, Text.hexValue? byte = some value →
      byte ≠ lineFeed := by
    rintro byte value hbyte rfl
    cases hbyte
  have hsource : source.lines = Source.lines ⟨before ++ digit :: after, source.ending⟩ := by
    rw [← hbytes]
  rw [hsource] at hline hmore
  rcases lines_around source.ending before after with ⟨right, later, hlines⟩ | hlines
  · rw [hlines digit (hfeed hdigit), ← length_splitLines] at hline hmore
    rw [List.take_left] at hmore
    rw [List.getElem?_append_right (Nat.le_refl _), Nat.sub_self] at hline
    obtain rfl := Option.some.inj hline
    rw [read, hsource, hlines digit (hfeed hdigit)] at hread
    obtain ⟨next, hnext⟩ := readLines_reaches hread hmore
    have hentry := ofLine_spec ((splitLines before).2 ++ digit :: right)
    rw [hnext, readLines] at hread
    split at hread
    · rename_i hnothing
      rw [hnothing] at hentry
      exact absurd hentry hbusy
    · cases hread
    · rename_i record hrecord
      rw [hrecord] at hentry
      obtain ⟨fault, hfault, hbetrays⟩ := ofLine_wrongDigit hentry hdigit hwrong hne
      refine ⟨fault, ?_, hbetrays⟩
      rw [read, hlines wrong (hfeed hwrong), hnext, readLines, hfault, length_splitLines,
        Nat.add_comm 1]
  · -- A line that was never delivered is none of the source.
    rw [hlines digit (hfeed hdigit), ← length_splitLines, List.getElem?_eq_none (Nat.le_refl _)]
      at hline
    cases hline

/-- A record that sets the base is turned into data of the same bytes. -/
theorem read_wrongDigit_kind :
    let source : Source := .ofText "# the upper half\n:020000040001F9\r\n:00000001FF".toList
    let before := Text.encode "# the upper half\n:0200000".toList
    let after := Text.encode "0001F9\r\n:00000001FF".toList
    read source = .ok ⟨[]⟩ ∧ source.bytes = before ++ 0x34 :: after ∧
      (∃ fault, read ⟨before ++ 0x30 :: after, .complete⟩ = .error (.malformed 2 fault) ∧
        fault.Betrays (digitsSoFar before < 2) (4 < 0)) ∧
      digitsSoFar before = 7 := by
  intro source before after
  have hread : read source = .ok ⟨[]⟩ := by decide +kernel
  have hbytes : source.bytes = before ++ 0x34 :: after := by decide +kernel
  have hcount : before.count lineFeed = 1 := by decide +kernel
  have hline : source.lines[before.count lineFeed]?
      = some (Text.encode ":020000040001F9\r".toList) := by decide +kernel
  have hbusy : ¬IsIdle (Text.encode ":020000040001F9\r".toList) := by
    unfold IsIdle
    decide +kernel
  have hmore : ∀ earlier ∈ source.lines.take (before.count lineFeed), ∀ record,
      Holds earlier record → record.kind ≠ .endOfFile := by
    have hidle : ∀ earlier ∈ source.lines.take (before.count lineFeed),
        (Text.trimBytes earlier).head? = some commentMark := by decide +kernel
    exact fun earlier hmem record hholds => absurd (Or.inr (hidle earlier hmem)) hholds.1
  have hfound := read_wrongDigit hread hbytes (show Text.hexValue? 0x34 = some 4 by decide)
    (show Text.hexValue? 0x30 = some 0 by decide) (by decide) hline hbusy hmore
  rw [hcount] at hfound
  exact ⟨hread, hbytes, hfound, by decide +kernel⟩

end UsbBoot.Image
