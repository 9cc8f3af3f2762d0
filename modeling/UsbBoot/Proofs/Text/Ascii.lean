/-
Graphic characters.

The characters of ASCII that leave a mark are one byte each, and are blank neither as
characters nor as bytes.  So a text of such characters passes unchanged through everything
that is done to a line before it is looked at.
-/
import UsbBoot.Text.Blank
import UsbBoot.Text.Utf8

namespace UsbBoot.Text

/-- A character of ASCII that is neither a blank nor a control character. -/
def IsGraphic (c : Char) : Prop :=
  0x21 ≤ c.toNat ∧ c.toNat ≤ 0x7E

instance (c : Char) : Decidable (IsGraphic c) :=
  inferInstanceAs (Decidable (_ ∧ _))

/-- The byte of a character that has one byte. -/
def byteOf (c : Char) : UInt8 :=
  c.toNat.toUInt8

theorem toNat_byteOf {c : Char} (h : IsGraphic c) : (byteOf c).toNat = c.toNat := by
  have hmost := h.2
  rw [byteOf, Nat.toUInt8_eq, UInt8.toNat_ofNat']
  omega

theorem encodeChar_of_isGraphic {c : Char} (h : IsGraphic c) :
    String.utf8EncodeChar c = [byteOf c] := by
  have hmost : c.val.toNat ≤ 0x7F := Nat.le_trans h.2 (by decide)
  simp only [String.utf8EncodeChar, hmost, if_true]
  rfl

section

variable {text : List Char} (h : ∀ c ∈ text, IsGraphic c)
include h

theorem encode_of_isGraphic : encode text = text.map byteOf := by
  induction text with
  | nil => rfl
  | cons c rest ih =>
      obtain ⟨hfirst, hrest⟩ := List.forall_mem_cons.mp h
      rw [encode_cons, encodeChar_of_isGraphic hfirst, ih hrest]
      rfl

theorem encodedLength_of_isGraphic : encodedLength text = text.length := by
  rw [← length_encode, encode_of_isGraphic h, List.length_map]

end

/-! ### What is kept by trimming -/

theorem dropEndWhile_of_none {α : Type} {drop : α → Bool} {xs : List α}
    (h : ∀ x ∈ xs, drop x = false) : dropEndWhile drop xs = xs := by
  cases hback : xs.reverse with
  | nil => rw [List.reverse_eq_nil_iff.mp hback, dropEndWhile_nil]
  | cons last rest =>
      have hlast : drop last = false := h last (List.mem_reverse.mp (hback ▸ List.mem_cons_self))
      rw [dropEndWhile, hback, List.dropWhile_cons_of_neg (by simp [hlast]), ← hback,
        List.reverse_reverse]

theorem dropBothWhile_of_none {α : Type} {drop : α → Bool} {xs : List α}
    (h : ∀ x ∈ xs, drop x = false) : dropBothWhile drop xs = xs := by
  have hfront : xs.dropWhile drop = xs := by
    cases xs with
    | nil => rfl
    | cons first rest => rw [List.dropWhile_cons_of_neg (by simp [h first])]
  rw [dropBothWhile, hfront, dropEndWhile_of_none h]

/-- An element outside the class is kept, and so is all before it. -/
theorem dropEndWhile_append_cons {α : Type} {drop : α → Bool} {x : α} (h : drop x = false)
    (xs ys : List α) : dropEndWhile drop (xs ++ x :: ys) = xs ++ x :: dropEndWhile drop ys := by
  have hfront : (x :: xs.reverse).dropWhile drop = x :: xs.reverse :=
    List.dropWhile_cons_of_neg (by simp [h])
  rw [dropEndWhile, dropEndWhile, List.reverse_append, List.reverse_cons, List.append_assoc,
    List.singleton_append, List.dropWhile_append, hfront]
  split
  · rename_i hempty
    simp [List.isEmpty_iff.mp hempty]
  · simp

theorem dropBothWhile_append_cons {α : Type} {drop : α → Bool} {x : α} (h : drop x = false)
    (xs ys : List α) :
    dropBothWhile drop (xs ++ x :: ys) = xs.dropWhile drop ++ x :: dropEndWhile drop ys := by
  have hback : (x :: ys).dropWhile drop = x :: ys := List.dropWhile_cons_of_neg (by simp [h])
  rw [dropBothWhile, List.dropWhile_append, hback]
  split
  · rename_i hempty
    rw [List.isEmpty_iff.mp hempty]
    exact dropEndWhile_append_cons h [] ys
  · exact dropEndWhile_append_cons h _ ys

/-- Elements of the class are taken away wherever they stand around others. -/
theorem dropBothWhile_surround {α : Type} {drop : α → Bool} {left right : List α}
    (hleft : ∀ x ∈ left, drop x = true) (hright : ∀ x ∈ right, drop x = true) (xs : List α) :
    dropBothWhile drop (left ++ xs ++ right) = dropBothWhile drop xs := by
  have hback : right.dropWhile drop = [] := by
    rw [← List.append_nil right, List.dropWhile_append_of_pos hright, List.dropWhile_nil]
  have hend : ∀ ys : List α, dropEndWhile drop (ys ++ right) = dropEndWhile drop ys := by
    intro ys
    have hreverse : ∀ x ∈ right.reverse, drop x = true := fun x hmem =>
      hright x (List.mem_reverse.mp hmem)
    rw [dropEndWhile, dropEndWhile, List.reverse_append, List.dropWhile_append_of_pos hreverse]
  rw [dropBothWhile, dropBothWhile, List.append_assoc, List.dropWhile_append_of_pos hleft,
    List.dropWhile_append]
  split
  · rename_i hempty
    rw [hback, List.isEmpty_iff.mp hempty]
  · exact hend _

theorem isBlank_of_isGraphic {c : Char} (h : IsGraphic c) : isBlank c = false := by
  obtain ⟨hleast, hmost⟩ := h
  simp only [isBlank, blankRanges, List.any_cons, List.any_nil, Bool.or_false,
    Bool.or_eq_false_iff, Bool.and_eq_false_iff, decide_eq_false_iff_not]
  omega

theorem isBlankByte_of_isGraphic {c : Char} (h : IsGraphic c) :
    isBlankByte (byteOf c) = false := by
  have hvalue := toNat_byteOf h
  obtain ⟨hleast, hmost⟩ := h
  simp only [isBlankByte, Bool.or_eq_false_iff, beq_eq_false_iff_ne, ne_eq,
    ← UInt8.toNat_inj, hvalue]
  refine ⟨⟨⟨⟨?_, ?_⟩, ?_⟩, ?_⟩, ?_⟩ <;> exact Nat.ne_of_gt (Nat.lt_of_lt_of_le (by decide) hleast)

theorem trimEnd_of_isGraphic {text : List Char} (h : ∀ c ∈ text, IsGraphic c) :
    trimEnd text = text :=
  dropEndWhile_of_none fun c hmem => isBlank_of_isGraphic (h c hmem)

theorem trimBytes_encode_of_isGraphic {text : List Char} (h : ∀ c ∈ text, IsGraphic c) :
    trimBytes (encode text) = encode text := by
  rw [encode_of_isGraphic h]
  refine dropBothWhile_of_none fun byte hmem => ?_
  obtain ⟨c, hc, rfl⟩ := List.mem_map.mp hmem
  exact isBlankByte_of_isGraphic (h c hc)

end UsbBoot.Text
