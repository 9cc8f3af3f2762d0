/-
The lines of a source.

Bytes are split at each line feed; what stands behind the last one is a line of a source that
ends, and is lost when the source fails.  A line feed anywhere parts the lines before it from
those behind it, and so does the end of a line; a byte that ends no line is part of one line,
or of what stands behind the last one.
-/
import UsbBoot.Image.Source

namespace UsbBoot.Image

/-! ### Splitting -/

theorem splitLines_append_lines {line tail : List UInt8} {lines : List (List UInt8)}
    {ys : List UInt8} (h : splitLines ys = (line :: lines, tail)) (xs : List UInt8) :
    splitLines (xs ++ ys)
      = ((splitLines xs).1 ++ ((splitLines xs).2 ++ line) :: lines, tail) := by
  induction xs with
  | nil => exact h
  | cons x xs ih =>
      rw [List.cons_append, splitLines, ih, splitLines]
      obtain ⟨first, back⟩ := splitLines xs
      by_cases hx : x = lineFeed
      · simp [hx]
      · cases first <;> simp [hx]

theorem splitLines_append_tail {tail ys : List UInt8} (h : splitLines ys = ([], tail))
    (xs : List UInt8) : splitLines (xs ++ ys) = ((splitLines xs).1, (splitLines xs).2 ++ tail) := by
  induction xs with
  | nil => exact h
  | cons x xs ih =>
      rw [List.cons_append, splitLines, ih, splitLines]
      obtain ⟨first, back⟩ := splitLines xs
      by_cases hx : x = lineFeed
      · simp [hx]
      · cases first <;> simp [hx]

/-- A line feed ends the line that was begun before it. -/
theorem splitLines_feed (front back : List UInt8) :
    splitLines (front ++ lineFeed :: back)
      = ((splitLines front).1 ++ (splitLines front).2 :: (splitLines back).1,
        (splitLines back).2) := by
  have hfeed : splitLines (lineFeed :: back)
      = ([] :: (splitLines back).1, (splitLines back).2) := by
    rw [splitLines]
    exact if_pos rfl
  rw [splitLines_append_lines hfeed, List.append_nil]

theorem splitLines_of_not_mem {line : List UInt8} (h : lineFeed ∉ line) :
    splitLines line = ([], line) := by
  induction line with
  | nil => rfl
  | cons byte line ih =>
      obtain ⟨hbyte, hline⟩ := not_or.mp (mt List.mem_cons.mpr h)
      rw [splitLines, ih hline]
      exact if_neg (Ne.symm hbyte)

theorem splitLines_append {line : List UInt8} (h : lineFeed ∉ line) (rest : List UInt8) :
    splitLines (line ++ lineFeed :: rest)
      = (line :: (splitLines rest).1, (splitLines rest).2) := by
  rw [splitLines_feed, splitLines_of_not_mem h, List.nil_append]

theorem length_splitLines (bytes : List UInt8) :
    (splitLines bytes).1.length = bytes.count lineFeed := by
  induction bytes with
  | nil => rfl
  | cons byte rest ih =>
      rw [splitLines, List.count_cons, ← ih]
      obtain ⟨lines, tail⟩ := splitLines rest
      by_cases hbyte : byte = lineFeed
      · simp [hbyte]
      · cases lines <;> simp [hbyte]

/-- Bytes that are these lines, each with a line feed behind it, and the tail behind them. -/
structure Parted (bytes : List UInt8) (lines : List (List UInt8)) (tail : List UInt8) : Prop where
  eq : bytes = lines.flatMap (· ++ [lineFeed]) ++ tail
  whole : ∀ line ∈ lines, lineFeed ∉ line
  tail : lineFeed ∉ tail

theorem splitLines_of_parted {bytes tail : List UInt8} {lines : List (List UInt8)}
    (h : Parted bytes lines tail) : splitLines bytes = (lines, tail) := by
  obtain ⟨rfl, hwhole, htail⟩ := h
  induction lines with
  | nil => exact splitLines_of_not_mem htail
  | cons line rest ih =>
      obtain ⟨hline, hrest⟩ := List.forall_mem_cons.mp hwhole
      rw [List.flatMap_cons, List.append_assoc, List.append_assoc, List.singleton_append,
        splitLines_append hline, ih hrest]

theorem parted_splitLines (bytes : List UInt8) :
    Parted bytes (splitLines bytes).1 (splitLines bytes).2 := by
  induction bytes with
  | nil => exact ⟨rfl, nofun, nofun⟩
  | cons byte rest ih =>
      rw [splitLines]
      generalize splitLines rest = split at ih
      obtain ⟨lines, tail⟩ := split
      obtain ⟨hrest, hwhole, htail⟩ := ih
      dsimp only at hrest hwhole htail ⊢
      by_cases hbyte : byte = lineFeed
      · rw [if_pos hbyte]
        refine ⟨?_, List.forall_mem_cons.mpr ⟨List.not_mem_nil, hwhole⟩, htail⟩
        rw [hrest, hbyte]
        rfl
      · rw [if_neg hbyte]
        cases lines with
        | nil =>
            refine ⟨by rw [hrest]; rfl, nofun, ?_⟩
            exact List.not_mem_cons_of_ne_of_not_mem (Ne.symm hbyte) htail
        | cons line lines =>
            obtain ⟨hline, hothers⟩ := List.forall_mem_cons.mp hwhole
            refine ⟨by rw [hrest]; rfl, List.forall_mem_cons.mpr ⟨?_, hothers⟩, htail⟩
            exact List.not_mem_cons_of_ne_of_not_mem (Ne.symm hbyte) hline

/-! ### What a source delivers -/

/-- The line that bytes behind the last line feed are, if they are one. -/
def Ending.lastLine (ending : Ending) (tail : List UInt8) : List (List UInt8) :=
  match ending with
  | .complete => if tail = [] then [] else [tail]
  | .failed _ => []

theorem lines_eq (bytes : List UInt8) (ending : Ending) :
    Source.lines ⟨bytes, ending⟩
      = (splitLines bytes).1 ++ ending.lastLine (splitLines bytes).2 := by
  rw [Source.lines]
  obtain ⟨lines, tail⟩ := splitLines bytes
  cases tail <;> cases ending <;> simp [Ending.lastLine]

/-- The lines of a source, told by its bytes: each of them has a line feed behind it, but for one
at the end of a source that does end. -/
def Source.HasLines (source : Source) (lines : List (List UInt8)) : Prop :=
  ∃ whole tail, Parted source.bytes whole tail ∧ lines = whole ++ source.ending.lastLine tail

theorem hasLines_iff {source : Source} {lines : List (List UInt8)} :
    source.HasLines lines ↔ source.lines = lines := by
  have hlines := lines_eq source.bytes source.ending
  constructor
  · rintro ⟨whole, tail, hparted, rfl⟩
    rwa [splitLines_of_parted hparted] at hlines
  · rintro rfl
    exact ⟨_, _, parted_splitLines source.bytes, hlines⟩

/-- A line feed parts the lines of a source. -/
theorem lines_feed (front back : List UInt8) (ending : Ending) :
    Source.lines ⟨front ++ lineFeed :: back, ending⟩
      = (splitLines front).1 ++ (splitLines front).2 :: Source.lines ⟨back, ending⟩ := by
  rw [lines_eq, lines_eq, splitLines_feed, List.append_assoc, List.cons_append]

/-- Whether bytes break off where a line ends, so that what follows begins a line of its own. -/
def EndsLine (bytes : List UInt8) : Prop :=
  (splitLines bytes).2 = []

instance (bytes : List UInt8) : Decidable (EndsLine bytes) :=
  inferInstanceAs (Decidable (_ = _))

theorem EndsLine.splitLines_line {front line : List UInt8} (h : EndsLine front)
    (hline : lineFeed ∉ line) : splitLines (front ++ line) = ((splitLines front).1, line) := by
  rw [splitLines_append_tail (splitLines_of_not_mem hline), h, List.nil_append]

/-- Behind the end of a line, the lines of a source are its own. -/
theorem EndsLine.lines_append {front : List UInt8} (h : EndsLine front) (back : List UInt8)
    (ending : Ending) :
    Source.lines ⟨front ++ back, ending⟩
      = (splitLines front).1 ++ Source.lines ⟨back, ending⟩ := by
  rw [lines_eq, lines_eq]
  rcases hback : splitLines back with ⟨_ | ⟨line, lines⟩, tail⟩
  · rw [splitLines_append_tail hback, h, List.nil_append, List.nil_append]
  · rw [splitLines_append_lines hback, h, List.nil_append, List.append_assoc]

/-- Around a byte that ends no line, the lines are the same whatever the byte is. -/
theorem lines_around (ending : Ending) (before after : List UInt8) :
    (∃ right later, ∀ byte, byte ≠ lineFeed →
      Source.lines ⟨before ++ byte :: after, ending⟩
        = (splitLines before).1 ++ ((splitLines before).2 ++ byte :: right) :: later) ∨
    ∀ byte, byte ≠ lineFeed →
      Source.lines ⟨before ++ byte :: after, ending⟩ = (splitLines before).1 := by
  rcases hafter : splitLines after with ⟨_ | ⟨right, later⟩, tail⟩
  · -- No line ends behind the byte, so it depends on the source whether its own is one.
    have hsplit : ∀ byte, byte ≠ lineFeed → splitLines (before ++ byte :: after)
        = ((splitLines before).1, (splitLines before).2 ++ byte :: tail) := fun byte hbyte =>
      splitLines_append_tail (by simp [splitLines, hafter, hbyte]) before
    cases ending with
    | complete =>
        refine Or.inl ⟨tail, [], fun byte hbyte => ?_⟩
        rw [lines_eq, hsplit byte hbyte, Ending.lastLine, if_neg (by simp)]
    | failed text =>
        refine Or.inr fun byte hbyte => ?_
        rw [lines_eq, hsplit byte hbyte, Ending.lastLine, List.append_nil]
  · have hsplit : ∀ byte, byte ≠ lineFeed → splitLines (before ++ byte :: after)
        = ((splitLines before).1 ++ ((splitLines before).2 ++ byte :: right) :: later, tail) :=
      fun byte hbyte => splitLines_append_lines (by simp [splitLines, hafter, hbyte]) before
    refine Or.inl ⟨right, later ++ ending.lastLine tail, fun byte hbyte => ?_⟩
    rw [lines_eq, hsplit byte hbyte, List.append_assoc, List.cons_append]

end UsbBoot.Image
