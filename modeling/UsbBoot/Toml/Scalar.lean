/-
Keys, strings, numbers and moments of TOML.

Of a number only what the loader can use is kept, the value of a whole one; but what is
passed over still has to be well formed.  A moment must name a day that the calendar
has.  A number with a fraction or an exponent must not be too large for a binary64.
-/
import UsbBoot.Count
import UsbBoot.Text.Number
import UsbBoot.Text.Scan
import UsbBoot.Toml.Item

namespace UsbBoot.Toml

open Text (Scanner)
open Text.Scanner

/-! ### Blanks, line ends and comments -/

/-- Whether a character may stand between the parts of a line. -/
def isSpace (c : Char) : Bool :=
  c == ' ' || c == '\t'

/-- Blanks within a line, maybe none. -/
def space : Scanner Unit := do
  let _ ← run isSpace

def newline : Scanner Unit :=
  char '\n' <|> do char '\x0D'; char '\n'

/-- Whether a character may stand in text that needs no escape: no control character other
than the tab. -/
def isPrintable (c : Char) : Bool :=
  c == '\t' || (0x20 ≤ c.toNat && c != '\x7F')

/-- A comment, up to the end of its line. -/
def comment : Scanner Unit := do
  char '#'
  let _ ← run isPrintable

/-! ### Strings -/

/-- Whether a character may stand for itself in a string with escapes. -/
def isBasic (c : Char) : Bool :=
  isPrintable c && c != '"' && c != '\\'

/-- Whether a character may stand in a string without escapes. -/
def isLiteral (c : Char) : Bool :=
  isPrintable c && c != '\''

/-- The character a letter stands for after a backslash. -/
def escaped? : Char → Option Char
  | 'b' => some '\x08'
  | 'f' => some '\x0C'
  | 'n' => some '\n'
  | 'r' => some '\x0D'
  | 't' => some '\t'
  | '"' => some '"'
  | '\\' => some '\\'
  | _ => none

/-- The character with the number that so many hexadecimal digits spell. -/
def numbered (width : Nat) : Scanner Char := do
  let digits ← times (satisfy fun c => (Text.digitOf? 16 c).isSome) width
  match Text.readNumber 16 longLimit digits with
  | .error _ => failure
  | .ok value => if value.isValidChar then return Char.ofNat value else failure

def escape : Scanner Char := do
  char '\\'
  let letter ← satisfy fun _ => true
  match letter with
  | 'u' => numbered 4
  | 'U' => numbered 8
  | letter =>
    match escaped? letter with
    | some c => return c
    | none => failure

/-- A string on one line, with escapes. -/
def basicString : Scanner (List Char) := do
  char '"'
  let text ← many (satisfy isBasic <|> escape)
  char '"'
  return text

/-- A string on one line, without escapes. -/
def literalString : Scanner (List Char) := do
  char '\''
  let text ← run isLiteral
  char '\''
  return text

/-- A line break within a string, which is always read as a line feed. -/
def brokenLine : Scanner (List Char) := do
  newline
  return ['\n']

/-- A backslash at the end of a line, which takes the blanks after it along. -/
def joinedLines : Scanner (List Char) := do
  char '\\'
  space
  newline
  let _ ← many (newline <|> do let _ ← satisfy isSpace)
  return []

/-- Quotes within a string of several lines: one or two, since three end it. -/
def innerQuotes (quote : Char) : Scanner (List Char) := do
  let quotes ← run1 (· == quote)
  if quotes.length < 3 then return quotes else failure

/-- The quotes that end a string of several lines, and up to two more that belong to it. -/
def closingQuotes (quote : Char) : Scanner (List Char) := do
  let quotes ← run1 (· == quote)
  if 3 ≤ quotes.length ∧ quotes.length ≤ 5 then return quotes.drop 3 else failure

/-- A string of several lines, by its quote and what may stand in it; a line break right
after the quotes in front is left out. -/
def longString (quote : Char) (piece : Scanner (List Char)) : Scanner (List Char) := do
  chars [quote, quote, quote]
  let _ ← maybe newline
  let pieces ← many (piece <|> brokenLine <|> innerQuotes quote)
  let last ← closingQuotes quote
  return pieces.flatten ++ last

def string : Scanner String := do
  let text ←
    longString '"' (run1 isBasic <|> joinedLines <|> do return [← escape]) <|>
    basicString <|>
    longString '\'' (run1 isLiteral) <|>
    literalString
  return String.ofList text

/-! ### Keys -/

/-- Whether a character may stand in a key without quotes. -/
def isBare (c : Char) : Bool :=
  c.isAlphanum || c == '-' || c == '_'

/-- One part of a key. -/
def keyPart : Scanner String := do
  return String.ofList (← run1 isBare <|> basicString <|> literalString)

/-- How deep arrays and tables may be nested, and how many parts a key may have. -/
def depthLimit : Nat := 79

/-- A key, its parts with points between. -/
def key : Scanner (List String) := do
  let parts ← sepBy1 (do space; let part ← keyPart; space; return part) (char '.')
  if parts.length ≤ depthLimit then return parts else failure

/-! ### Numbers -/

/-- Digits of a base, with single underscores between. -/
def digits (base : Nat) : Scanner (List Char) := do
  let parts ← sepBy1 (run1 fun c => (Text.digitOf? base c).isSome) (char '_')
  return parts.flatten

/-- Digits of a number in base ten, which begin with a zero only if it is all they are. -/
def plainDigits : Scanner (List Char) :=
  (do char '0'; return ['0']) <|> digits 10

/-- The value of some digits. -/
def valueOf (base : Nat) (digits : List Char) : Nat :=
  digits.foldl (fun value c => value * base + (Text.digitOf? base c).getD 0) 0

/-- A sign, if there is one: whether it is a minus. -/
def sign : Scanner Bool := do
  return (← maybe (satisfy fun c => c == '+' || c == '-')) == some '-'

/-- A whole number with a mark for its base in front. -/
def markedInteger (mark : String) (base : Nat) : Scanner Int := do
  word mark
  return valueOf base (← digits base)

/-- A whole number in base ten. -/
def decimalInteger : Scanner Int := do
  let negative ← sign
  let value := valueOf 10 (← plainDigits)
  return if negative then -value else value

/-- The least number that does not fit sixty-four bits with a sign. -/
def integerLimit : Int := 0x8000000000000000

/-- A whole number, which must fit sixty-four bits. -/
def integer : Scanner Item := do
  let value ←
    markedInteger "0x" 16 <|> markedInteger "0o" 8 <|> markedInteger "0b" 2 <|> decimalInteger
  if -integerLimit ≤ value ∧ value < integerLimit then return .integer value else failure

/-- The least number that is rounded past the largest binary64. -/
def floatLimit : Nat := (1 <<< 54 - 1) <<< 970

/-- Whether some digits times a power of ten are too large for a binary64.  Where the number
of digits does not settle it, the powers are small enough to be taken. -/
def isTooLarge (digits : List Char) (exponent : Int) : Bool :=
  let value := valueOf 10 digits
  let places := (toString value).length + exponent
  if value = 0 ∨ places < 300 then false
  else if 320 < places then true
  else if 0 ≤ exponent then floatLimit ≤ value * Nat.pow 10 exponent.toNat
  else floatLimit * Nat.pow 10 (-exponent).toNat ≤ value

def exponent : Scanner Int := do
  let _ ← satisfy fun c => c == 'e' || c == 'E'
  let negative ← sign
  let value := valueOf 10 (← digits 10)
  return if negative then -value else value

/-- A number with a fraction, an exponent or both. -/
def fractional : Scanner Item := do
  let negative ← sign
  let whole ← plainDigits
  let fraction ← maybe (do char '.'; digits 10)
  let power ← maybe exponent
  if fraction.isNone && power.isNone then failure
  let behind := fraction.getD []
  if !negative && isTooLarge (whole ++ behind) (power.getD 0 - behind.length) then failure
  return .plain

/-- One of the numbers that have a name. -/
def namedNumber : Scanner Item := do
  let _ ← sign
  word "inf" <|> word "nan"
  return .plain

/-! ### Moments -/

/-- A number of so many digits in a range. -/
def inRange (width low high : Nat) : Scanner Nat := do
  let value := valueOf 10 (← times (satisfy Char.isDigit) width)
  if low ≤ value ∧ value ≤ high then return value else failure

/-- Whether a year has a leap day. -/
def isLeapYear (year : Nat) : Bool :=
  year % 4 == 0 && (year % 100 != 0 || year % 400 == 0)

def daysIn (year month : Nat) : Nat :=
  if month = 2 then if isLeapYear year then 29 else 28
  else if month ∈ [4, 6, 9, 11] then 30
  else 31

def date : Scanner Unit := do
  let year ← inRange 4 0 9999
  char '-'
  let month ← inRange 2 1 12
  char '-'
  let _ ← inRange 2 1 (daysIn year month)

/-- A time of day; a minute may have a leap second. -/
def time : Scanner Unit := do
  let _ ← inRange 2 0 23
  char ':'
  let _ ← inRange 2 0 59
  char ':'
  let _ ← inRange 2 0 60
  let _ ← maybe (do char '.'; let _ ← run1 Char.isDigit)

/-- How far a time is from universal time. -/
def offset : Scanner Unit :=
  (do let _ ← satisfy fun c => c == 'Z' || c == 'z') <|> do
    let _ ← satisfy fun c => c == '+' || c == '-'
    let _ ← inRange 2 0 23
    char ':'
    let _ ← inRange 2 0 59

/-- A date, maybe with a time of day, or a time of day. -/
def moment : Scanner Item := do
  (do
    date
    let _ ← maybe do
      let _ ← satisfy fun c => c == 'T' || c == 't' || c == ' '
      time
      let _ ← maybe offset) <|> time
  return .moment

end UsbBoot.Toml
