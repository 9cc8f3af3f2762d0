/-
Text in UTF-8.

`decode` accepts exactly the shortest encodings of the Unicode scalar values: no
overlong form, no half of a surrogate pair, nothing above U+10FFFF.  A firmware file is
read as bytes, and each of its lines becomes text here or is refused.
-/
import UsbBoot.Count

namespace UsbBoot.Text

/-- The bytes of a text. -/
def encode (text : List Char) : List UInt8 :=
  text.flatMap String.utf8EncodeChar

theorem encode_cons (c : Char) (text : List Char) :
    encode (c :: text) = String.utf8EncodeChar c ++ encode text :=
  List.flatMap_cons

theorem encode_append (front back : List Char) :
    encode (front ++ back) = encode front ++ encode back :=
  List.flatMap_append

/-- The number of bytes a text takes. -/
def encodedLength (text : List Char) : Nat :=
  total (text.map Char.utf8Size)

theorem length_encode (text : List Char) : (encode text).length = encodedLength text := by
  induction text with
  | nil => rfl
  | cons c text ih =>
      rw [encode_cons, List.length_append, String.length_utf8EncodeChar, ih]
      rfl

/-- Whether a byte continues a character. -/
def isContinuation (b : UInt8) : Bool :=
  0x80 ≤ b && b ≤ 0xBF

/-- The six bits a continuation byte carries. -/
def continuationBits (b : UInt8) : Nat :=
  b.toNat % 0x40

/-- Whether `b` may follow the first byte `a` of a three-byte character. -/
def isSecondOfThree (a b : UInt8) : Bool :=
  if a == 0xE0 then 0xA0 ≤ b && b ≤ 0xBF
  else if a == 0xED then 0x80 ≤ b && b ≤ 0x9F
  else 0xE1 ≤ a && a ≤ 0xEF && isContinuation b

/-- Whether `b` may follow the first byte `a` of a four-byte character. -/
def isSecondOfFour (a b : UInt8) : Bool :=
  if a == 0xF0 then 0x90 ≤ b && b ≤ 0xBF
  else if a == 0xF4 then 0x80 ≤ b && b ≤ 0x8F
  else 0xF1 ≤ a && a ≤ 0xF3 && isContinuation b

/-- The text that some bytes encode, or `none` where they encode no text. -/
def decode : List UInt8 → Option (List Char)
  | [] => some []
  | a :: rest =>
    if a < 0x80 then (decode rest).map (Char.ofNat a.toNat :: ·)
    else match rest with
      | [] => none
      | b :: rest =>
        -- The classes of first and second bytes leave out what has a shorter encoding,
        -- halves of surrogate pairs, and numbers past the last character.
        if 0xC2 ≤ a && a ≤ 0xDF && isContinuation b then
          (decode rest).map (Char.ofNat (a.toNat % 0x20 * 0x40 + continuationBits b) :: ·)
        else match rest with
          | [] => none
          | c :: rest =>
            if isSecondOfThree a b && isContinuation c then
              let value := (a.toNat % 0x10 * 0x40 + continuationBits b) * 0x40 + continuationBits c
              (decode rest).map (Char.ofNat value :: ·)
            else match rest with
              | [] => none
              | d :: rest =>
                if isSecondOfFour a b && isContinuation c && isContinuation d then
                  let high := (a.toNat % 0x08 * 0x40 + continuationBits b) * 0x40
                  let value := (high + continuationBits c) * 0x40 + continuationBits d
                  (decode rest).map (Char.ofNat value :: ·)
                else none

/-! ### ASCII bytes stand for themselves -/

@[simp] theorem decode_nil : decode [] = some [] := by
  simp [decode]

theorem decode_cons_ascii {a : UInt8} (rest : List UInt8) (h : a < 0x80) :
    decode (a :: rest) = (decode rest).map (Char.ofNat a.toNat :: ·) := by
  rw [decode.eq_def]
  simp [h]

end UsbBoot.Text
