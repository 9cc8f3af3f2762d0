/-
Blank characters and trimming.

A character is blank when it carries the Unicode property White_Space: twenty-five
characters in ten ranges.  Everything a user types is trimmed by this rule.  Lines of a
firmware file are trimmed by a narrower one, the five ASCII blanks, because there a
line is still bytes and may not be text at all.

Trimming is stated once, for any class of elements, so that a lemma about it serves
both.
-/

namespace UsbBoot.Text

/-- The ranges of the characters with the property White_Space, in order, ends included. -/
def blankRanges : List (Nat × Nat) :=
  [(0x09, 0x0D), (0x20, 0x20), (0x85, 0x85), (0xA0, 0xA0), (0x1680, 0x1680),
   (0x2000, 0x200A), (0x2028, 0x2029), (0x202F, 0x202F), (0x205F, 0x205F), (0x3000, 0x3000)]

/-- Whether a character is blank. -/
def isBlank (c : Char) : Bool :=
  blankRanges.any fun range => range.1 ≤ c.toNat && c.toNat ≤ range.2

/-- Whether a byte is one of the ASCII blanks: tab, line feed, form feed, return, space. -/
def isBlankByte (b : UInt8) : Bool :=
  b == 0x09 || b == 0x0A || b == 0x0C || b == 0x0D || b == 0x20

/-- Drop the longest run at the end whose elements are all in the class. -/
def dropEndWhile {α : Type} (drop : α → Bool) (xs : List α) : List α :=
  (xs.reverse.dropWhile drop).reverse

/-- Drop such runs at both ends. -/
def dropBothWhile {α : Type} (drop : α → Bool) (xs : List α) : List α :=
  dropEndWhile drop (xs.dropWhile drop)

/-- Text without the blanks at its end. -/
def trimEnd (text : List Char) : List Char :=
  dropEndWhile isBlank text

/-- Text without the blanks around it. -/
def trim (text : List Char) : List Char :=
  dropBothWhile isBlank text

/-- Bytes without the ASCII blanks around them. -/
def trimBytes (bytes : List UInt8) : List UInt8 :=
  dropBothWhile isBlankByte bytes

/-! ### What is dropped -/

@[simp] theorem dropEndWhile_nil {α : Type} (drop : α → Bool) :
    dropEndWhile drop ([] : List α) = [] := rfl

/-- A last element outside the class is kept, and all before it. -/
theorem dropEndWhile_append_singleton {α : Type} (drop : α → Bool) (xs : List α) (x : α) :
    dropEndWhile drop (xs ++ [x]) = if drop x then dropEndWhile drop xs else xs ++ [x] := by
  unfold dropEndWhile
  simp only [List.reverse_append, List.reverse_cons, List.reverse_nil, List.nil_append,
    List.singleton_append, List.dropWhile_cons]
  split <;> simp

end UsbBoot.Text
