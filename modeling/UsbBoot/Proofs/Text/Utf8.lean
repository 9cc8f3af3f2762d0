/-
Text in UTF-8 and its bytes.

Every text is decoded from its own bytes, and bytes that are decoded are those of the text that
comes out.  So what is refused is no text at all, and a text has one spelling in bytes.  The
classes of first and second bytes are what makes this true: they leave just the values that a
sequence of that length is the shortest spelling of.
-/
import Mathlib.Data.List.Induction
import UsbBoot.Proofs.Text.Digit

namespace UsbBoot.Text

/-! ### Classes of bytes as ranges of numbers -/

theorem isAscii_iff {a : UInt8} : a < 0x80 ↔ a.toNat < 0x80 :=
  UInt8.lt_iff_toNat_lt

theorem isContinuation_iff {b : UInt8} :
    isContinuation b = true ↔ 0x80 ≤ b.toNat ∧ b.toNat ≤ 0xBF := by
  simp only [isContinuation, Bool.and_eq_true, decide_eq_true_eq, UInt8.le_iff_toNat_le]
  rfl

theorem isSecondOfTwo_iff {a b : UInt8} :
    (0xC2 ≤ a && a ≤ 0xDF && isContinuation b) = true ↔
      (0xC2 ≤ a.toNat ∧ a.toNat ≤ 0xDF) ∧ 0x80 ≤ b.toNat ∧ b.toNat ≤ 0xBF := by
  simp only [Bool.and_eq_true, decide_eq_true_eq, UInt8.le_iff_toNat_le, isContinuation_iff]
  rfl

theorem isSecondOfThree_iff {a b : UInt8} :
    isSecondOfThree a b = true ↔
      (0xE0 ≤ a.toNat ∧ a.toNat ≤ 0xEF) ∧ (0x80 ≤ b.toNat ∧ b.toNat ≤ 0xBF) ∧
        (a.toNat = 0xE0 → 0xA0 ≤ b.toNat) ∧ (a.toNat = 0xED → b.toNat ≤ 0x9F) := by
  simp only [isSecondOfThree, beq_iff_eq, ← UInt8.toNat_inj, UInt8.reduceToNat]
  split
  · simp only [Bool.and_eq_true, decide_eq_true_eq, UInt8.le_iff_toNat_le, UInt8.reduceToNat]
    omega
  · split
    · simp only [Bool.and_eq_true, decide_eq_true_eq, UInt8.le_iff_toNat_le, UInt8.reduceToNat]
      omega
    · simp only [Bool.and_eq_true, decide_eq_true_eq, UInt8.le_iff_toNat_le, UInt8.reduceToNat,
        isContinuation_iff]
      omega

theorem isSecondOfFour_iff {a b : UInt8} :
    isSecondOfFour a b = true ↔
      (0xF0 ≤ a.toNat ∧ a.toNat ≤ 0xF4) ∧ (0x80 ≤ b.toNat ∧ b.toNat ≤ 0xBF) ∧
        (a.toNat = 0xF0 → 0x90 ≤ b.toNat) ∧ (a.toNat = 0xF4 → b.toNat ≤ 0x8F) := by
  simp only [isSecondOfFour, beq_iff_eq, ← UInt8.toNat_inj, UInt8.reduceToNat]
  split
  · simp only [Bool.and_eq_true, decide_eq_true_eq, UInt8.le_iff_toNat_le, UInt8.reduceToNat]
    omega
  · split
    · simp only [Bool.and_eq_true, decide_eq_true_eq, UInt8.le_iff_toNat_le, UInt8.reduceToNat]
      omega
    · simp only [Bool.and_eq_true, decide_eq_true_eq, UInt8.le_iff_toNat_le, UInt8.reduceToNat,
        isContinuation_iff]
      omega

/-! ### Bytes of a character's length -/

section

variable {a b c d : UInt8} (rest : List UInt8)

theorem decode_two (h : (0xC2 ≤ a && a ≤ 0xDF && isContinuation b) = true) :
    decode (a :: b :: rest)
      = (decode rest).map (Char.ofNat (a.toNat % 0x20 * 0x40 + continuationBits b) :: ·) := by
  have hfirst := (isSecondOfTwo_iff.mp h).1
  have hwide : ¬a < 0x80 := by
    rw [isAscii_iff]
    omega
  rw [decode.eq_def]
  simp only [hwide, h, if_true, if_false]

theorem decode_three (h : isSecondOfThree a b = true) (hc : isContinuation c = true) :
    decode (a :: b :: c :: rest)
      = (decode rest).map
          (Char.ofNat ((a.toNat % 0x10 * 0x40 + continuationBits b) * 0x40 + continuationBits c)
            :: ·) := by
  have hfirst := (isSecondOfThree_iff.mp h).1
  have hwide : ¬a < 0x80 := by
    rw [isAscii_iff]
    omega
  have htwo : ¬(0xC2 ≤ a && a ≤ 0xDF && isContinuation b) = true := by
    rw [isSecondOfTwo_iff]
    omega
  rw [decode.eq_def]
  simp only [hwide, htwo, h, hc, Bool.and_self, if_true, if_false, Bool.false_eq_true]

theorem decode_four (h : isSecondOfFour a b = true) (hc : isContinuation c = true)
    (hd : isContinuation d = true) :
    decode (a :: b :: c :: d :: rest)
      = (decode rest).map
          (Char.ofNat (((a.toNat % 0x08 * 0x40 + continuationBits b) * 0x40 + continuationBits c)
            * 0x40 + continuationBits d) :: ·) := by
  have hfirst := (isSecondOfFour_iff.mp h).1
  have hwide : ¬a < 0x80 := by
    rw [isAscii_iff]
    omega
  have htwo : ¬(0xC2 ≤ a && a ≤ 0xDF && isContinuation b) = true := by
    rw [isSecondOfTwo_iff]
    omega
  have hthree : isSecondOfThree a b = false := by
    rw [← Bool.not_eq_true, isSecondOfThree_iff]
    omega
  rw [decode.eq_def]
  simp only [hwide, htwo, hthree, h, hc, hd, Bool.and_self, Bool.false_and, if_true, if_false,
    Bool.false_eq_true]

end

/-! ### The bytes of a character, decoded -/

theorem ofNat_of_eq {c : Char} {value : Nat} (h : value = c.val.toNat) : Char.ofNat value = c := by
  rw [h]
  exact Char.ofNat_toNat c

section

variable {c : Char} (rest : List UInt8)

theorem decode_encodeChar_one (h : c.val.toNat ≤ 0x7F) :
    decode (String.utf8EncodeChar c ++ rest) = (decode rest).map (c :: ·) := by
  simp only [String.utf8EncodeChar, h, if_true]
  have ha := UInt8.toNat_ofNat_of_lt' (show c.val.toNat < UInt8.size by rw [UInt8.size]; omega)
  rw [List.cons_append, List.nil_append, decode_cons_ascii rest (isAscii_iff.mpr (by omega)),
    ofNat_of_eq ha]

theorem decode_encodeChar_two (hwide : 0x7F < c.val.toNat) (h : c.val.toNat ≤ 0x7FF) :
    decode (String.utf8EncodeChar c ++ rest) = (decode rest).map (c :: ·) := by
  simp only [String.utf8EncodeChar, Nat.not_le_of_lt hwide, h, if_true, if_false]
  have ha := UInt8.toNat_ofNat_of_lt'
    (show c.val.toNat / 64 % 32 + 192 < UInt8.size by rw [UInt8.size]; omega)
  have hb := UInt8.toNat_ofNat_of_lt'
    (show c.val.toNat % 64 + 128 < UInt8.size by rw [UInt8.size]; omega)
  rw [List.cons_append, List.cons_append, List.nil_append,
    decode_two rest (isSecondOfTwo_iff.mpr (by omega)), ofNat_of_eq]
  rw [continuationBits]
  omega

theorem decode_encodeChar_three (hwide : 0x7FF < c.val.toNat) (h : c.val.toNat ≤ 0xFFFF) :
    decode (String.utf8EncodeChar c ++ rest) = (decode rest).map (c :: ·) := by
  have hone : ¬c.val.toNat ≤ 0x7F := by omega
  have hvalid : c.val.toNat < 0xD800 ∨ 0xDFFF < c.val.toNat ∧ c.val.toNat < 0x110000 := c.valid
  simp only [String.utf8EncodeChar, hone, Nat.not_le_of_lt hwide, h, if_true, if_false]
  have ha := UInt8.toNat_ofNat_of_lt'
    (show c.val.toNat / 4096 % 16 + 224 < UInt8.size by rw [UInt8.size]; omega)
  have hb := UInt8.toNat_ofNat_of_lt'
    (show c.val.toNat / 64 % 64 + 128 < UInt8.size by rw [UInt8.size]; omega)
  have hc := UInt8.toNat_ofNat_of_lt'
    (show c.val.toNat % 64 + 128 < UInt8.size by rw [UInt8.size]; omega)
  rw [List.cons_append, List.cons_append, List.cons_append, List.nil_append,
    decode_three rest (isSecondOfThree_iff.mpr (by omega)) (isContinuation_iff.mpr (by omega)),
    ofNat_of_eq]
  rw [continuationBits, continuationBits]
  omega

theorem decode_encodeChar_four (hwide : 0xFFFF < c.val.toNat) :
    decode (String.utf8EncodeChar c ++ rest) = (decode rest).map (c :: ·) := by
  have hone : ¬c.val.toNat ≤ 0x7F := by omega
  have htwo : ¬c.val.toNat ≤ 0x7FF := by omega
  have hvalid : c.val.toNat < 0xD800 ∨ 0xDFFF < c.val.toNat ∧ c.val.toNat < 0x110000 := c.valid
  simp only [String.utf8EncodeChar, hone, htwo, Nat.not_le_of_lt hwide, if_false]
  have ha := UInt8.toNat_ofNat_of_lt'
    (show c.val.toNat / 262144 % 8 + 240 < UInt8.size by rw [UInt8.size]; omega)
  have hb := UInt8.toNat_ofNat_of_lt'
    (show c.val.toNat / 4096 % 64 + 128 < UInt8.size by rw [UInt8.size]; omega)
  have hc := UInt8.toNat_ofNat_of_lt'
    (show c.val.toNat / 64 % 64 + 128 < UInt8.size by rw [UInt8.size]; omega)
  have hd := UInt8.toNat_ofNat_of_lt'
    (show c.val.toNat % 64 + 128 < UInt8.size by rw [UInt8.size]; omega)
  rw [List.cons_append, List.cons_append, List.cons_append, List.cons_append, List.nil_append,
    decode_four rest (isSecondOfFour_iff.mpr (by omega)) (isContinuation_iff.mpr (by omega))
      (isContinuation_iff.mpr (by omega)), ofNat_of_eq]
  rw [continuationBits, continuationBits, continuationBits]
  omega

end

/-- The first bytes of a text are decoded as its first character. -/
theorem decode_encodeChar_append (c : Char) (rest : List UInt8) :
    decode (String.utf8EncodeChar c ++ rest) = (decode rest).map (c :: ·) := by
  by_cases hone : c.val.toNat ≤ 0x7F
  · exact decode_encodeChar_one rest hone
  · by_cases htwo : c.val.toNat ≤ 0x7FF
    · exact decode_encodeChar_two rest (Nat.lt_of_not_le hone) htwo
    · by_cases hthree : c.val.toNat ≤ 0xFFFF
      · exact decode_encodeChar_three rest (Nat.lt_of_not_le htwo) hthree
      · exact decode_encodeChar_four rest (Nat.lt_of_not_le hthree)

/-! ### What is decoded, encoded again -/

section

variable {a b c d : UInt8}

theorem encodeChar_one (h : a < 0x80) : String.utf8EncodeChar (Char.ofNat a.toNat) = [a] := by
  rw [isAscii_iff] at h
  have hvalue : (Char.ofNat a.toNat).val.toNat = a.toNat := toNat_ofNat (Or.inl (by omega))
  simp only [String.utf8EncodeChar, hvalue]
  rw [if_pos (by omega), UInt8.ofNat_toNat]

theorem encodeChar_two (h : (0xC2 ≤ a && a ≤ 0xDF && isContinuation b) = true) :
    String.utf8EncodeChar (Char.ofNat (a.toNat % 0x20 * 0x40 + continuationBits b)) = [a, b] := by
  obtain ⟨ha, hb⟩ := isSecondOfTwo_iff.mp h
  rw [continuationBits]
  have hvalue := @toNat_ofNat (a.toNat % 0x20 * 0x40 + b.toNat % 0x40) (Or.inl (by omega))
  simp only [String.utf8EncodeChar, hvalue]
  rw [if_neg (by omega), if_pos (by omega)]
  simp only [List.cons.injEq, ← UInt8.toNat_inj, UInt8.toNat_ofNat', and_true]
  omega

theorem encodeChar_three (h : isSecondOfThree a b = true) (hc : isContinuation c = true) :
    String.utf8EncodeChar
        (Char.ofNat ((a.toNat % 0x10 * 0x40 + continuationBits b) * 0x40 + continuationBits c))
      = [a, b, c] := by
  obtain ⟨ha, hb, hleast, hmost⟩ := isSecondOfThree_iff.mp h
  rw [isContinuation_iff] at hc
  rw [continuationBits, continuationBits]
  -- What is left out behind 0xED are the halves of surrogate pairs.
  have hvalue := @toNat_ofNat ((a.toNat % 0x10 * 0x40 + b.toNat % 0x40) * 0x40 + c.toNat % 0x40)
    (show _ ∨ _ by omega)
  simp only [String.utf8EncodeChar, hvalue]
  rw [if_neg (by omega), if_neg (by omega), if_pos (by omega)]
  simp only [List.cons.injEq, ← UInt8.toNat_inj, UInt8.toNat_ofNat', and_true]
  omega

theorem encodeChar_four (h : isSecondOfFour a b = true) (hc : isContinuation c = true)
    (hd : isContinuation d = true) :
    String.utf8EncodeChar
        (Char.ofNat (((a.toNat % 0x08 * 0x40 + continuationBits b) * 0x40 + continuationBits c)
          * 0x40 + continuationBits d))
      = [a, b, c, d] := by
  obtain ⟨ha, hb, hleast, hmost⟩ := isSecondOfFour_iff.mp h
  rw [isContinuation_iff] at hc hd
  rw [continuationBits, continuationBits, continuationBits]
  have hvalue := @toNat_ofNat (((a.toNat % 0x08 * 0x40 + b.toNat % 0x40) * 0x40 + c.toNat % 0x40)
    * 0x40 + d.toNat % 0x40) (show _ ∨ _ by omega)
  simp only [String.utf8EncodeChar, hvalue]
  rw [if_neg (by omega), if_neg (by omega), if_neg (by omega)]
  simp only [List.cons.injEq, ← UInt8.toNat_inj, UInt8.toNat_ofNat', and_true]
  omega

end

theorem encode_of_decode {bytes : List UInt8} {text : List Char} (h : decode bytes = some text) :
    encode text = bytes := by
  revert text
  fun_induction decode bytes with
  | case1 =>
      intro text h
      obtain rfl := Option.some.inj h
      rfl
  | case2 a rest hascii ih =>
      intro text h
      obtain ⟨behind, hrest, rfl⟩ := Option.map_eq_some_iff.mp h
      rw [encode_cons, encodeChar_one hascii, ih hrest]
      rfl
  | case4 a hwide b rest htwo ih =>
      intro text h
      obtain ⟨behind, hrest, rfl⟩ := Option.map_eq_some_iff.mp h
      rw [encode_cons, encodeChar_two htwo, ih hrest]
      rfl
  | case6 a hwide b htwo c rest hthree =>
      rename_i ih
      intro text h
      obtain ⟨behind, hrest, rfl⟩ := Option.map_eq_some_iff.mp h
      rw [Bool.and_eq_true] at hthree
      rw [encode_cons, encodeChar_three hthree.1 hthree.2, ih hrest]
      rfl
  | case8 a hwide b htwo c hthree d rest hfour =>
      rename_i ih
      intro text h
      obtain ⟨behind, hrest, rfl⟩ := Option.map_eq_some_iff.mp h
      rw [Bool.and_eq_true, Bool.and_eq_true] at hfour
      rw [encode_cons, encodeChar_four hfour.1.1 hfour.1.2 hfour.2, ih hrest]
      rfl
  | case3 | case5 | case7 | case9 =>
      intro text h
      cases h

theorem decode_encode (text : List Char) : decode (encode text) = some text := by
  induction text with
  | nil => exact decode_nil
  | cons c text ih =>
      rw [encode_cons, decode_encodeChar_append, ih]
      rfl

/-- **Bytes are decoded as a text exactly if they are the bytes of that text.** -/
theorem decode_eq_some_iff {bytes : List UInt8} {text : List Char} :
    decode bytes = some text ↔ encode text = bytes := by
  constructor
  · exact encode_of_decode
  · rintro rfl
    exact decode_encode text

/-! ### Bytes that are text -/

/-- Whether bytes are those of a text. -/
def IsText (bytes : List UInt8) : Prop :=
  ∃ text, encode text = bytes

theorem isText_iff {bytes : List UInt8} : IsText bytes ↔ ∃ text, decode bytes = some text := by
  simp only [IsText, decode_eq_some_iff]

theorem isText_append_ascii {a : UInt8} (h : a < 0x80) (front back : List UInt8) :
    IsText (front ++ a :: back) ↔ IsText front ∧ IsText back := by
  rw [isText_iff, isText_iff, isText_iff, decode_append_ascii front back h]
  cases decode front <;> cases decode back <;> simp

theorem ascii_of_isBlankByte {byte : UInt8} (h : isBlankByte byte = true) : byte < 0x80 := by
  simp only [isBlankByte, Bool.or_eq_true, beq_iff_eq] at h
  rcases h with (((rfl | rfl) | rfl) | rfl) | rfl <;> decide

/-- Blanks around bytes do not matter to whether they are text. -/
theorem isText_trimBytes (bytes : List UInt8) : IsText (trimBytes bytes) ↔ IsText bytes := by
  have hempty : IsText [] := ⟨[], rfl⟩
  have hfront : IsText (bytes.dropWhile isBlankByte) ↔ IsText bytes := by
    induction bytes with
    | nil => rfl
    | cons byte rest ih =>
        rw [List.dropWhile_cons]
        split
        · rename_i hblank
          have hascii := ascii_of_isBlankByte hblank
          rw [ih, ← List.nil_append (byte :: rest), isText_append_ascii hascii]
          exact ⟨fun hrest => ⟨hempty, hrest⟩, fun h => h.2⟩
        · rfl
  have hback : ∀ list : List UInt8, IsText (dropEndWhile isBlankByte list) ↔ IsText list := by
    intro list
    induction list using List.reverseRecOn with
    | nil => rfl
    | append_singleton front byte ih =>
        rw [dropEndWhile_append_singleton]
        split
        · rename_i hblank
          have hascii := ascii_of_isBlankByte hblank
          rw [ih, isText_append_ascii hascii]
          exact ⟨fun hfront => ⟨hfront, hempty⟩, fun h => h.1⟩
        · rfl
  rw [trimBytes, dropBothWhile, hback, hfront]

end UsbBoot.Text
