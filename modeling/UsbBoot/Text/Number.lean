/-
Numbers as text.

Reading takes a base and a bound.  One leading plus sign is allowed and at least one
digit is wanted.  Digits are taken from the left, and the first of them that is no digit
or that carries the value to the bound decides which fault is reported: so a long
number with a stray letter at its end is too large, and one with the letter in front is
no number.

Printing is in base sixteen with a least width, in either case of the letters, or in
base ten with a least width.
-/

namespace UsbBoot.Text

/-- Why a text is not a number in range. -/
inductive NumberFault
  /-- There is nothing to read. -/
  | empty
  /-- A character is no digit of the base. -/
  | invalidDigit
  /-- The value does not fit. -/
  | tooLarge
  deriving DecidableEq, Repr

def NumberFault.message : NumberFault → String
  | .empty => "cannot parse integer from empty string"
  | .invalidDigit => "invalid digit found in string"
  | .tooLarge => "number too large to fit in target type"

/-- The value of a digit: figures, then letters of either case from ten on. -/
def digitValue? (c : Char) : Option Nat :=
  if '0' ≤ c ∧ c ≤ '9' then some (c.toNat - '0'.toNat)
  else if 'a' ≤ c ∧ c ≤ 'z' then some (c.toNat - 'a'.toNat + 10)
  else if 'A' ≤ c ∧ c ≤ 'Z' then some (c.toNat - 'A'.toNat + 10)
  else none

/-- The value of a digit of the given base. -/
def digitOf? (base : Nat) (c : Char) : Option Nat :=
  (digitValue? c).filter (· < base)

/-- Read digits on top of a value already read, staying below `bound`. -/
def readDigits (base bound : Nat) : Nat → List Char → Except NumberFault Nat
  | value, [] => .ok value
  | value, c :: rest =>
    match digitOf? base c with
    | none => .error .invalidDigit
    | some digit =>
      if bound ≤ value * base + digit then .error .tooLarge
      else readDigits base bound (value * base + digit) rest

/-- Read a number below `bound`: an optional plus sign and one or more digits. -/
def readNumber (base bound : Nat) : List Char → Except NumberFault Nat
  | [] => .error .empty
  | ['+'] => .error .invalidDigit
  | '+' :: digits => readDigits base bound 0 digits
  | digits => readDigits base bound 0 digits

/-- The digit for a value below sixteen, with small letters. -/
def lowerDigit (value : Nat) : Char :=
  if value < 10 then Char.ofNat ('0'.toNat + value) else Char.ofNat ('a'.toNat + value - 10)

/-- The digit for a value below sixteen, with capital letters. -/
def upperDigit (value : Nat) : Char :=
  if value < 10 then Char.ofNat ('0'.toNat + value) else Char.ofNat ('A'.toNat + value - 10)

/-- The last `width` hexadecimal digits of a number, most significant first. -/
def hexDigits (digit : Nat → Char) : Nat → Nat → List Char
  | 0, _ => []
  | width + 1, value => hexDigits digit width (value / 16) ++ [digit (value % 16)]

/-- How many hexadecimal digits a number has. -/
def hexLength (value : Nat) : Nat :=
  value.log2 / 4 + 1

/-- A number in base sixteen with capital letters and at least `width` digits. -/
def upperHex (width value : Nat) : String :=
  String.ofList (hexDigits upperDigit (max width (hexLength value)) value)

/-- A number in base sixteen with small letters and at least `width` digits. -/
def lowerHex (width value : Nat) : String :=
  String.ofList (hexDigits lowerDigit (max width (hexLength value)) value)

/-- A text brought to a least width by a filler put in front. -/
def padLeft (width : Nat) (filler : Char) (text : String) : String :=
  String.ofList (List.replicate (width - text.length) filler) ++ text

/-- A number in base ten, filled with zeros to a least width. -/
def decimal (width value : Nat) : String :=
  padLeft width '0' (toString value)

@[simp] theorem length_hexDigits (digit : Nat → Char) (width value : Nat) :
    (hexDigits digit width value).length = width := by
  induction width generalizing value with
  | zero => rfl
  | succ width ih => simp [hexDigits, ih]

end UsbBoot.Text
