/-
Numbers as they are typed.

What stands for a number is told here by itself: digits denote what they denote by their
places, however many of them there are and with as many zeros in front as one likes, and one
plus sign may stand before them.  Reading finds exactly that, as long as it is below the bound.
The bound is looked at after every digit, but what has been read never shrinks again, so this
comes to the same as looking at it once, at the end; a number of any size is seen for what it is.
-/
import Mathlib.Data.List.DropRight
import Mathlib.Data.List.Forall2
import Mathlib.Data.Nat.Digits.Defs
import UsbBoot.Proofs.Record.Grammar

namespace UsbBoot.Text

/-! ### Blanks around -/

/-- What a text is without the blanks around it. -/
structure TrimsTo (text core : List Char) : Prop where
  around : ∃ left right, text = left ++ core ++ right ∧
    (∀ c ∈ left, isBlank c = true) ∧ ∀ c ∈ right, isBlank c = true
  /-- It does not begin with a blank. -/
  first : ∀ c, core.head? = some c → isBlank c = false
  /-- It does not end with one. -/
  last : ∀ c, core.getLast? = some c → isBlank c = false

theorem trimsTo_trim (text : List Char) : TrimsTo text (trim text) := by
  have hfront := List.takeWhile_append_dropWhile (p := isBlank) (l := text)
  have hback := List.rdropWhile_append_rtakeWhile (p := isBlank) (l := text.dropWhile isBlank)
  refine ⟨⟨text.takeWhile isBlank, (text.dropWhile isBlank).rtakeWhile isBlank, ?_, ?_, ?_⟩, ?_, ?_⟩
  · rw [List.append_assoc]
    exact (hback.symm ▸ hfront).symm
  · exact fun c hmem => List.mem_takeWhile_imp hmem
  · exact fun c hmem => List.mem_rtakeWhile_imp hmem
  · intro c hhead
    -- It begins as the text without its first blanks does.
    obtain ⟨rest, hcore⟩ := List.head?_eq_some_iff.mp hhead
    have hfirst := List.head?_dropWhile_not isBlank text
    have hbegins : text.dropWhile isBlank
        = c :: (rest ++ (text.dropWhile isBlank).rtakeWhile isBlank) := by
      rw [← List.cons_append, ← hcore]
      exact hback.symm
    rw [hbegins] at hfirst
    exact hfirst
  · intro c hlast
    obtain ⟨front, hcore⟩ := List.getLast?_eq_some_iff.mp hlast
    have hne : trim text ≠ [] := by simp [hcore]
    have hkept : ¬isBlank ((trim text).getLast hne) = true :=
      List.rdropWhile_last_not isBlank (text.dropWhile isBlank) hne
    simpa [hcore] using hkept

theorem trim_of_trimmed {core : List Char} (hfirst : ∀ c, core.head? = some c → isBlank c = false)
    (hlast : ∀ c, core.getLast? = some c → isBlank c = false) : trim core = core := by
  have hfront : core.dropWhile isBlank = core := by
    rw [List.dropWhile_eq_self_iff]
    intro hpos
    simp [hfirst core[0] (List.head?_eq_getElem? ▸ List.getElem?_eq_getElem hpos)]
  have hback : core.rdropWhile isBlank = core := by
    rw [List.rdropWhile_eq_self_iff]
    intro hne
    simp [hlast _ (List.getLast?_eq_some_getLast hne)]
  rw [trim, dropBothWhile, hfront]
  exact hback

/-- **A text is trimmed to what it is without the blanks around it.** -/
theorem trim_eq_iff {text core : List Char} : trim text = core ↔ TrimsTo text core := by
  constructor
  · rintro rfl
    exact trimsTo_trim text
  · rintro ⟨⟨left, right, rfl, hleft, hright⟩, hfirst, hlast⟩
    rw [trim, dropBothWhile_surround hleft hright]
    exact trim_of_trimmed hfirst hlast

/-- A text without blanks is left as it is. -/
theorem trimsTo_of_isGraphic {text : List Char} (h : ∀ c ∈ text, IsGraphic c) :
    TrimsTo text text := by
  refine trim_eq_iff.mp (dropBothWhile_of_none fun c hmem => ?_)
  exact isBlank_of_isGraphic (h c hmem)

/-! ### Digits and what they denote -/

/-- Digits of a base, the most significant first, and the number they denote by their places. -/
def Denotes (base : Nat) (digits : List Char) (value : Nat) : Prop :=
  ∃ figures, List.Forall₂ Record.IsDigit digits figures ∧ (∀ figure ∈ figures, figure < base) ∧
    Nat.ofDigits base figures.reverse = value

/-- A number as it is typed: one or more digits of the base, and maybe a plus sign before them. -/
inductive IsNumber (base : Nat) : List Char → Nat → Prop
  | plain {digits : List Char} {value : Nat} (hsome : digits ≠ [])
    (hdenotes : Denotes base digits value) : IsNumber base digits value
  | signed {digits : List Char} {value : Nat} (hsome : digits ≠ [])
    (hdenotes : Denotes base digits value) : IsNumber base ('+' :: digits) value

theorem digitOf?_iff {base figure : Nat} {c : Char} (hbase : base ≤ 16) :
    digitOf? base c = some figure ↔ Record.IsDigit c figure ∧ figure < base := by
  rw [← Record.digitOf?_eq_some_iff, digitOf?, digitOf?, Option.filter_eq_some_iff,
    Option.filter_eq_some_iff]
  simp only [decide_eq_true_eq]
  constructor
  · rintro ⟨hvalue, hlt⟩
    exact ⟨⟨hvalue, Nat.lt_of_lt_of_le hlt hbase⟩, hlt⟩
  · rintro ⟨⟨hvalue, -⟩, hlt⟩
    exact ⟨hvalue, hlt⟩

/-- What is made of a value when more digits are put behind it. -/
def valueFrom (base start : Nat) (figures : List Nat) : Nat :=
  figures.foldl (fun value figure => value * base + figure) start

theorem ofDigits_reverse (base : Nat) (figures : List Nat) :
    Nat.ofDigits base figures.reverse = valueFrom base 0 figures := by
  rw [Nat.ofDigits_eq_foldr, List.foldr_reverse, valueFrom]
  congr 1
  funext value figure
  rw [Nat.cast_id, Nat.mul_comm, Nat.add_comm]

theorem le_valueFrom {base : Nat} (hbase : 0 < base) (start : Nat) (figures : List Nat) :
    start ≤ valueFrom base start figures := by
  induction figures generalizing start with
  | nil => exact Nat.le_refl start
  | cons figure rest ih =>
      have hshift : start ≤ start * base := Nat.le_mul_of_pos_right start hbase
      exact Nat.le_trans (by omega) (ih (start * base + figure))

/-- Digits have figures if the first has one in the base and the others have theirs. -/
theorem exists_figures_cons_iff {base : Nat} (hbase : base ≤ 16) {c : Char} {rest : List Char}
    {holds : List Nat → Prop} :
    (∃ figures, List.Forall₂ Record.IsDigit (c :: rest) figures ∧
        (∀ figure ∈ figures, figure < base) ∧ holds figures) ↔
      ∃ figure, digitOf? base c = some figure ∧
        ∃ figures, List.Forall₂ Record.IsDigit rest figures ∧
          (∀ figure ∈ figures, figure < base) ∧ holds (figure :: figures) := by
  constructor
  · rintro ⟨figures, hdigits, hlt, hholds⟩
    cases hdigits with
    | cons hfirst hothers =>
        obtain ⟨hsmall, hrest⟩ := List.forall_mem_cons.mp hlt
        exact ⟨_, (digitOf?_iff hbase).mpr ⟨hfirst, hsmall⟩, _, hothers, hrest, hholds⟩
  · rintro ⟨figure, hdigit, figures, hothers, hrest, hholds⟩
    obtain ⟨hfirst, hsmall⟩ := (digitOf?_iff hbase).mp hdigit
    exact ⟨_, .cons hfirst hothers, List.forall_mem_cons.mpr ⟨hsmall, hrest⟩, hholds⟩

/-- Digits are read as what they make of the value before them, if that is below the bound. -/
theorem readDigits_eq_ok_iff {base : Nat} (hbase : base ≤ 16) (bound start : Nat)
    (digits : List Char) (value : Nat) :
    readDigits base bound start digits = .ok value ↔
      ∃ figures, List.Forall₂ Record.IsDigit digits figures ∧ (∀ figure ∈ figures, figure < base) ∧
        valueFrom base start figures = value ∧ (digits ≠ [] → value < bound) := by
  induction digits generalizing start with
  | nil =>
      rw [readDigits]
      constructor
      · rintro h
        exact ⟨[], .nil, nofun, Except.ok.inj h, fun hne => absurd rfl hne⟩
      · rintro ⟨figures, hdigits, -, rfl, -⟩
        cases hdigits
        rfl
  | cons c rest ih =>
      rw [readDigits, exists_figures_cons_iff hbase]
      cases hdigit : digitOf? base c with
      | none => simp
      | some figure =>
          have hpos : 0 < base := Nat.zero_lt_of_lt ((digitOf?_iff hbase).mp hdigit).2
          simp only [Option.some.injEq, exists_eq_left']
          split
          · rename_i hlarge
            refine ⟨nofun, ?_⟩
            rintro ⟨figures, -, -, hvalue, hbound⟩
            have hle : start * base + figure ≤ value := hvalue ▸ le_valueFrom hpos _ figures
            have hbelow := hbound (List.cons_ne_nil c rest)
            omega
          · rename_i hsmall
            rw [ih]
            refine exists_congr fun figures => and_congr_right fun hothers =>
              and_congr_right fun _ => and_congr_right fun hvalue => ?_
            refine ⟨fun hbound _ => ?_, fun hbound _ => hbound (List.cons_ne_nil c rest)⟩
            by_cases hrest : rest = []
            · -- The last digit was looked at when it was read.
              subst hrest
              cases hothers
              exact hvalue ▸ Nat.not_le.mp hsmall
            · exact hbound hrest

theorem readDigits_eq_denotes {base : Nat} (hbase : base ≤ 16) (bound : Nat) {digits : List Char}
    (hsome : digits ≠ []) (value : Nat) :
    readDigits base bound 0 digits = .ok value ↔ Denotes base digits value ∧ value < bound := by
  rw [readDigits_eq_ok_iff hbase, Denotes]
  constructor
  · rintro ⟨figures, hdigits, hlt, hvalue, hbound⟩
    exact ⟨⟨figures, hdigits, hlt, (ofDigits_reverse base figures).trans hvalue⟩, hbound hsome⟩
  · rintro ⟨⟨figures, hdigits, hlt, hvalue⟩, hbound⟩
    exact ⟨figures, hdigits, hlt, (ofDigits_reverse base figures).symm.trans hvalue,
      fun _ => hbound⟩

theorem not_isDigit {c : Char} (hnone : digitOf? 16 c = none) (value : Nat) :
    ¬Record.IsDigit c value := by
  intro h
  have hread := Record.digitOf?_eq_some_iff.mpr h
  rw [hnone] at hread
  cases hread

theorem Denotes.isDigit {base value : Nat} {digits : List Char} (h : Denotes base digits value) :
    ∀ c ∈ digits, ∃ figure, Record.IsDigit c figure := by
  obtain ⟨figures, hdigits, -, -⟩ := h
  induction hdigits with
  | nil => exact nofun
  | cons hfirst _ ih => exact List.forall_mem_cons.mpr ⟨⟨_, hfirst⟩, ih⟩

theorem isNumber_signed_iff {base value : Nat} {digits : List Char} :
    IsNumber base ('+' :: digits) value ↔ digits ≠ [] ∧ Denotes base digits value := by
  constructor
  · intro h
    cases h with
    | plain hsome hdenotes =>
        obtain ⟨figure, hplus⟩ := hdenotes.isDigit '+' List.mem_cons_self
        exact absurd hplus (not_isDigit rfl figure)
    | signed hsome hdenotes => exact ⟨hsome, hdenotes⟩
  · rintro ⟨hsome, hdenotes⟩
    exact .signed hsome hdenotes

theorem isNumber_plain_iff {base value : Nat} {digits : List Char}
    (hplain : ∀ rest, digits ≠ '+' :: rest) :
    IsNumber base digits value ↔ digits ≠ [] ∧ Denotes base digits value := by
  constructor
  · intro h
    cases h with
    | plain hsome hdenotes => exact ⟨hsome, hdenotes⟩
    | signed => exact absurd rfl (hplain _)
  · rintro ⟨hsome, hdenotes⟩
    exact .plain hsome hdenotes

/-- **A number is read exactly where one is typed and it is below the bound.** -/
theorem readNumber_eq_ok_iff {base : Nat} (hbase : base ≤ 16) (bound : Nat) (text : List Char)
    (value : Nat) :
    readNumber base bound text = .ok value ↔ IsNumber base text value ∧ value < bound := by
  fun_cases readNumber base bound text with
  | case1 => simp [isNumber_plain_iff]
  | case2 => simp [isNumber_signed_iff]
  | case3 digits hmore =>
      have hsome : digits ≠ [] := by
        rintro rfl
        exact hmore rfl
      rw [isNumber_signed_iff, readDigits_eq_denotes hbase bound hsome, and_iff_right hsome]
  | case4 _ hsome _ hplain =>
      rw [isNumber_plain_iff hplain, readDigits_eq_denotes hbase bound hsome, and_iff_right hsome]

theorem IsNumber.unique {base : Nat} (hbase : base ≤ 16) {text : List Char} {value other : Nat}
    (h : IsNumber base text value) (hother : IsNumber base text other) : value = other := by
  have hread := (readNumber_eq_ok_iff hbase (value + other + 1) text value).mpr ⟨h, by omega⟩
  have hagain := (readNumber_eq_ok_iff hbase (value + other + 1) text other).mpr
    ⟨hother, by omega⟩
  exact Except.ok.inj (hread.symm.trans hagain)

theorem IsNumber.ne_nil {base value : Nat} {text : List Char} (h : IsNumber base text value) :
    text ≠ [] := by
  cases h with
  | plain hsome => exact hsome
  | signed => exact List.cons_ne_nil _ _

/-- There is nothing but digits in a number, besides the plus sign. -/
theorem IsNumber.mem {base value : Nat} {text : List Char} (h : IsNumber base text value) :
    ∀ c ∈ text, c = '+' ∨ ∃ figure, Record.IsDigit c figure := by
  cases h with
  | plain _ hdenotes => exact fun c hmem => Or.inr (hdenotes.isDigit c hmem)
  | signed _ hdenotes =>
      exact List.forall_mem_cons.mpr ⟨Or.inl rfl, fun c hmem => Or.inr (hdenotes.isDigit c hmem)⟩

theorem IsNumber.not_mem {base value : Nat} {text : List Char} (h : IsNumber base text value)
    {c : Char} (hplus : c ≠ '+') (hnone : digitOf? 16 c = none) : c ∉ text := by
  intro hmem
  rcases h.mem c hmem with hsign | ⟨figure, hfigure⟩
  · exact hplus hsign
  · exact not_isDigit hnone figure hfigure

/-- The marks of base sixteen are in no number. -/
theorem IsNumber.not_mem_mark {base value : Nat} {text : List Char} (h : IsNumber base text value)
    {mark : Char} (hmark : mark = 'x' ∨ mark = 'X') : mark ∉ text := by
  rcases hmark with rfl | rfl <;> exact h.not_mem (by decide) rfl

/-! ### Numbers as they are shown -/

section

variable {digit : Nat → Char} (h : ∀ value, value < 16 → Record.IsDigit (digit value) value)
include h

/-- As many digits as are wanted denote the number, if it has no more than that. -/
theorem denotes_hexDigits (width : Nat) {value : Nat} (hfits : value < 16 ^ width) :
    Denotes 16 (hexDigits digit width value) value := by
  induction width generalizing value with
  | zero =>
      obtain rfl : value = 0 := by simpa using hfits
      exact ⟨[], .nil, nofun, rfl⟩
  | succ width ih =>
      have hrest : value / 16 < 16 ^ width := by
        rw [Nat.pow_succ] at hfits
        omega
      obtain ⟨figures, hdigits, hlt, hvalue⟩ := ih hrest
      have hlast : value % 16 < 16 := Nat.mod_lt _ (by decide)
      refine ⟨figures ++ [value % 16], ?_, ?_, ?_⟩
      · exact List.rel_append hdigits (.cons (h _ hlast) .nil)
      · exact List.forall_mem_append.mpr ⟨hlt, List.forall_mem_singleton.mpr hlast⟩
      · rw [List.reverse_append, List.reverse_singleton, List.singleton_append, Nat.ofDigits_cons,
          hvalue]
        exact Nat.mod_add_div value 16

theorem isNumber_hexDigits {width value : Nat} (hwidth : 0 < width) (hfits : value < 16 ^ width) :
    IsNumber 16 (hexDigits digit width value) value :=
  .plain (List.ne_nil_of_length_pos (by rwa [length_hexDigits])) (denotes_hexDigits h width hfits)

theorem isGraphic_hexDigits {width value : Nat} (hfits : value < 16 ^ width) :
    ∀ c ∈ hexDigits digit width value, IsGraphic c := by
  intro c hmem
  obtain ⟨figure, hfigure⟩ := (denotes_hexDigits h width hfits).isDigit c hmem
  exact isGraphic_of_isHexDigit (isHexDigit_of_digitOf? (Record.digitOf?_eq_some_iff.mpr hfigure))

end

/-- Four digits are enough for sixteen bits. -/
theorem max_hexLength_of_short {value : Nat} (h : value < shortLimit) :
    max 4 (hexLength value) = 4 := by
  have hlog : value.log2 < 16 := by
    by_cases hzero : value = 0
    · rw [hzero]
      decide
    · exact (Nat.log2_lt hzero).mpr h
  rw [hexLength]
  omega

end UsbBoot.Text
