/-
Hexadecimal digits in bytes and in text.

A line is bytes before it is text.  A byte of ASCII stands for its own character wherever it
stands, since it is part of no longer one, and no longer one is a digit.  So the digits of a
text can be counted and changed in its bytes.
-/
import UsbBoot.Proofs.Text.Ascii
import UsbBoot.Text.Number

namespace UsbBoot.Text

/-! ### Digits -/

/-- Whether a character is a hexadecimal digit. -/
def isHexDigit (c : Char) : Bool :=
  (digitOf? 16 c).isSome

/-- The value of a byte that is a hexadecimal digit. -/
def hexValue? (byte : UInt8) : Option Nat :=
  digitOf? 16 (Char.ofNat byte.toNat)

/-- Whether a byte is a hexadecimal digit. -/
def isHexByte (byte : UInt8) : Bool :=
  isHexDigit (Char.ofNat byte.toNat)

theorem lt_of_digitOf? {base value : Nat} {c : Char} (h : digitOf? base c = some value) :
    value < base := by
  have hvalue := (Option.filter_eq_some_iff.mp h).2
  simpa using hvalue

theorem isHexDigit_of_digitOf? {value : Nat} {c : Char} (h : digitOf? 16 c = some value) :
    isHexDigit c = true := by
  rw [isHexDigit, h]
  rfl

theorem isGraphic_of_isHexDigit {c : Char} (h : isHexDigit c = true) : IsGraphic c := by
  obtain ⟨value, hdigit⟩ := Option.isSome_iff_exists.mp h
  have hvalue := (Option.filter_eq_some_iff.mp hdigit).1
  rw [digitValue?] at hvalue
  simp only [Char.le_def, UInt32.le_iff_toNat_le] at hvalue
  simp only [IsGraphic, Char.toNat]
  split at hvalue
  · rename_i hrange
    exact ⟨Nat.le_trans (by decide) hrange.1, Nat.le_trans hrange.2 (by decide)⟩
  · split at hvalue
    · rename_i hrange
      exact ⟨Nat.le_trans (by decide) hrange.1, Nat.le_trans hrange.2 (by decide)⟩
    · split at hvalue
      · rename_i hrange
        exact ⟨Nat.le_trans (by decide) hrange.1, Nat.le_trans hrange.2 (by decide)⟩
      · cases hvalue

theorem toNat_ofNat {value : Nat} (h : value.isValidChar) :
    (Char.ofNat value).val.toNat = value := by
  rw [Char.ofNat, dif_pos h]
  rfl

theorem toNat_ofNat_byte (byte : UInt8) : (Char.ofNat byte.toNat).toNat = byte.toNat :=
  toNat_ofNat (Or.inl (Nat.lt_trans byte.toNat_lt (by decide)))

section

variable {byte : UInt8} (h : isHexByte byte = true)
include h

theorem ascii_of_isHexByte : byte < 0x80 := by
  have hgraphic := (isGraphic_of_isHexDigit h).2
  rw [toNat_ofNat_byte] at hgraphic
  rw [UInt8.lt_iff_toNat_lt]
  exact Nat.lt_of_le_of_lt hgraphic (by decide)

theorem isBlankByte_of_isHexByte : isBlankByte byte = false := by
  have hblank := isBlankByte_of_isGraphic (isGraphic_of_isHexDigit h)
  rwa [byteOf, toNat_ofNat_byte, Nat.toUInt8_eq, UInt8.ofNat_toNat] at hblank

end

/-! ### One character of ASCII amid others -/

/-- What belongs to a character of more than one byte, behind its first one, is no ASCII. -/
theorem not_continues {a : UInt8} (h : a < 0x80) :
    isContinuation a = false ∧ ∀ first, isSecondOfThree first a = false ∧
      isSecondOfFour first a = false := by
  have hnone : ∀ least : UInt8, 0x80 ≤ least → ¬least ≤ a := fun least hleast hle =>
    absurd (UInt8.le_trans hleast hle) (UInt8.not_le.mpr h)
  have hcontinuation : isContinuation a = false := by
    simp [isContinuation, hnone 0x80 (by decide)]
  refine ⟨hcontinuation, fun first => ⟨?_, ?_⟩⟩
  · simp [isSecondOfThree, hcontinuation, hnone 0x80 (by decide), hnone 0xA0 (by decide)]
  · simp [isSecondOfFour, hcontinuation, hnone 0x80 (by decide), hnone 0x90 (by decide)]

/-- A character of ASCII parts the bytes: what stands before it is text of its own. -/
theorem decode_append_ascii (front back : List UInt8) {a : UInt8} (h : a < 0x80) :
    decode (front ++ a :: back)
      = (decode front).bind fun left =>
          (decode back).map fun right => left ++ Char.ofNat a.toNat :: right := by
  obtain ⟨hcontinuation, hsecond⟩ := not_continues h
  have hcons : ∀ (c : Char) (left : Option (List Char)),
      (left.bind fun left => (decode back).map fun right => left ++ Char.ofNat a.toNat :: right).map
          (c :: ·)
        = (left.map (c :: ·)).bind fun left =>
          (decode back).map fun right => left ++ Char.ofNat a.toNat :: right := by
    intro c left
    cases left <;> simp [Function.comp_def]
  -- By the recursion of the decoder: no character that was begun before ends in this byte.
  fun_induction decode front with
  | case1 => simp [decode_cons_ascii _ h]
  | case2 first rest hfirst ih => rw [List.cons_append, decode_cons_ascii _ hfirst, ih, hcons]
  | case3 first hfirst =>
      rw [List.cons_append, List.nil_append, decode.eq_def]
      rcases back with _ | ⟨b, _ | ⟨c, back⟩⟩ <;> simp [hfirst, hcontinuation, hsecond]
  | case4 first hfirst second rest htwo ih =>
      rw [List.cons_append, List.cons_append, decode.eq_def, ← hcons, ← ih]
      simp only [hfirst, htwo, if_true, if_false]
  | case5 first hfirst second htwo =>
      rw [List.cons_append, List.cons_append, List.nil_append, decode.eq_def]
      rcases back with _ | ⟨b, back⟩ <;> simp [hfirst, htwo, hcontinuation]
  | case6 first hfirst second htwo third rest hthree value ih =>
      rw [List.cons_append, List.cons_append, List.cons_append, decode.eq_def, ← hcons, ← ih]
      simp only [hfirst, htwo, hthree, if_true, if_false, Bool.false_eq_true, value]
  | case7 first hfirst second htwo third hthree =>
      rw [List.cons_append, List.cons_append, List.cons_append, List.nil_append, decode.eq_def]
      simp [hfirst, htwo, hthree, hcontinuation]
  | case8 first hfirst second htwo third hthree fourth rest hfour high value ih =>
      rw [List.cons_append, List.cons_append, List.cons_append, List.cons_append, decode.eq_def,
        ← hcons, ← ih]
      simp only [hfirst, htwo, hthree, hfour, if_true, if_false, Bool.false_eq_true, value, high]
  | case9 first hfirst second htwo third hthree fourth rest hfour =>
      rw [List.cons_append, List.cons_append, List.cons_append, List.cons_append, decode.eq_def]
      simp [hfirst, htwo, hthree, hfour]

/-! ### No digit takes more than one byte -/

theorem isHexDigit_of_wide {value : Nat} (h : 0x80 ≤ value) :
    isHexDigit (Char.ofNat value) = false := by
  refine Bool.eq_false_iff.mpr fun hdigit => ?_
  obtain ⟨hleast, hmost⟩ := isGraphic_of_isHexDigit hdigit
  by_cases hvalid : value.isValidChar
  · rw [Char.ofNat, dif_pos hvalid] at hmost
    exact absurd (Nat.le_trans h hmost) (by decide)
  · rw [Char.ofNat, dif_neg hvalid] at hleast
    exact absurd hleast (by decide)

theorem isHexByte_of_wide {byte : UInt8} (h : ¬byte < 0x80) : isHexByte byte = false :=
  Bool.eq_false_iff.mpr fun hdigit => h (ascii_of_isHexByte hdigit)

theorem wide_of_continuation {byte : UInt8} (h : isContinuation byte = true) : ¬byte < 0x80 :=
  fun hascii => absurd h (Bool.eq_false_iff.mp (not_continues hascii).1)

theorem wide_of_two {first : UInt8} (h : 0xC2 ≤ first) (hmost : first ≤ 0xDF) :
    0x80 ≤ first.toNat % 0x20 * 0x40 := by
  have hleast : 0xC2 ≤ first.toNat := UInt8.le_iff_toNat_le.mp h
  have hmost : first.toNat ≤ 0xDF := UInt8.le_iff_toNat_le.mp hmost
  omega

theorem wide_of_three {first second : UInt8} (h : isSecondOfThree first second = true) :
    ¬second < 0x80 ∧ 0x02 ≤ first.toNat % 0x10 * 0x40 + continuationBits second := by
  refine ⟨fun hascii => absurd h (Bool.eq_false_iff.mp ((not_continues hascii).2 first).1), ?_⟩
  rw [isSecondOfThree] at h
  rw [continuationBits]
  split at h
  · simp only [Bool.and_eq_true, decide_eq_true_eq, UInt8.le_iff_toNat_le] at h
    have hleast : 0xA0 ≤ second.toNat := h.1
    have hmost : second.toNat ≤ 0xBF := h.2
    omega
  · split at h
    · rename_i hfirst
      have hfirst : first.toNat = 0xED := congrArg UInt8.toNat (beq_iff_eq.mp hfirst)
      omega
    · simp only [Bool.and_eq_true, decide_eq_true_eq, UInt8.le_iff_toNat_le] at h
      have hleast : 0xE1 ≤ first.toNat := h.1.1
      have hmost : first.toNat ≤ 0xEF := h.1.2
      omega

theorem wide_of_four {first second : UInt8} (h : isSecondOfFour first second = true) :
    ¬second < 0x80 ∧ 0x02 ≤ first.toNat % 0x08 * 0x40 + continuationBits second := by
  refine ⟨fun hascii => absurd h (Bool.eq_false_iff.mp ((not_continues hascii).2 first).2), ?_⟩
  rw [isSecondOfFour] at h
  rw [continuationBits]
  split at h
  · simp only [Bool.and_eq_true, decide_eq_true_eq, UInt8.le_iff_toNat_le] at h
    have hleast : 0x90 ≤ second.toNat := h.1
    have hmost : second.toNat ≤ 0xBF := h.2
    omega
  · split at h
    · rename_i hfirst
      have hfirst : first.toNat = 0xF4 := congrArg UInt8.toNat (beq_iff_eq.mp hfirst)
      omega
    · simp only [Bool.and_eq_true, decide_eq_true_eq, UInt8.le_iff_toNat_le] at h
      have hleast : 0xF1 ≤ first.toNat := h.1.1
      have hmost : first.toNat ≤ 0xF3 := h.1.2
      omega

/-- A text has as many digits as its bytes. -/
theorem countP_decode {bytes : List UInt8} {text : List Char} (h : decode bytes = some text) :
    text.countP isHexDigit = bytes.countP isHexByte := by
  revert text
  fun_induction decode bytes with
  | case1 =>
      rintro text h
      cases h
      rfl
  | case2 first rest hfirst ih =>
      intro text h
      obtain ⟨behind, hrest, rfl⟩ := Option.map_eq_some_iff.mp h
      rw [List.countP_cons, List.countP_cons, ih hrest]
      rfl
  | case4 first hfirst second rest htwo ih =>
      intro text h
      obtain ⟨behind, hrest, rfl⟩ := Option.map_eq_some_iff.mp h
      simp only [Bool.and_eq_true, decide_eq_true_eq] at htwo
      have hwide := wide_of_two htwo.1.1 htwo.1.2
      have hsecond := wide_of_continuation htwo.2
      simp [ih hrest, isHexByte_of_wide hfirst, isHexByte_of_wide hsecond,
        isHexDigit_of_wide (Nat.le_add_right_of_le hwide)]
  | case6 first hfirst second htwo third rest hthree =>
      rename_i value ih
      intro text h
      obtain ⟨behind, hrest, rfl⟩ := Option.map_eq_some_iff.mp h
      rw [Bool.and_eq_true] at hthree
      obtain ⟨hsecond, hwide⟩ := wide_of_three hthree.1
      have hthird := wide_of_continuation hthree.2
      have hvalue : 0x80 ≤ value := Nat.le_add_right_of_le (Nat.mul_le_mul_right 0x40 hwide)
      simp [ih hrest, isHexByte_of_wide hfirst, isHexByte_of_wide hsecond,
        isHexByte_of_wide hthird, isHexDigit_of_wide hvalue]
  | case8 first hfirst second htwo third hthree fourth rest hfour =>
      rename_i high value ih
      intro text h
      obtain ⟨behind, hrest, rfl⟩ := Option.map_eq_some_iff.mp h
      simp only [Bool.and_eq_true] at hfour
      obtain ⟨hsecond, hwide⟩ := wide_of_four hfour.1.1
      have hthird := wide_of_continuation hfour.1.2
      have hfourth := wide_of_continuation hfour.2
      have hhigh : 0x80 ≤ high := Nat.mul_le_mul_right 0x40 hwide
      have hvalue : 0x80 ≤ value := by simp only [value]; omega
      simp [ih hrest, isHexByte_of_wide hfirst, isHexByte_of_wide hsecond,
        isHexByte_of_wide hthird, isHexByte_of_wide hfourth, isHexDigit_of_wide hvalue]
  | case3 | case5 | case7 | case9 => exact nofun

end UsbBoot.Text
