/-
Reading JSON.

A value is read as what it is wanted for: a number of a given width, a string, a list, a
structure.  What is not wanted is passed over, and only its shape is looked at; a string
that is passed over may even spell half of a surrogate pair.

A structure is read from an object or from a list of its fields in their order.  In an
object each field stands once, members with other names are passed over, and their order
is free.
-/
import UsbBoot.Text.Scan
import UsbBoot.Text.Number

namespace UsbBoot.Json

open Text (Scanner)
open Text.Scanner

/-- Whether a character may stand between the parts of a value. -/
def isSpace (c : Char) : Bool :=
  c == ' ' || c == '\t' || c == '\n' || c == '\x0D'

/-- Blanks, maybe none. -/
def space : Scanner Unit := do
  let _ ← run isSpace

/-- Something with blanks around it. -/
def spaced {α : Type} (scanner : Scanner α) : Scanner α := do
  space
  let value ← scanner
  space
  return value

/-! ### Strings -/

/-- What stands for one element of a string. -/
inductive Piece
  /-- A character. -/
  | plain (c : Char)
  /-- Sixteen bits of an escape by number. -/
  | unit (value : Nat)

/-- The character a letter stands for after a backslash. -/
def escaped? : Char → Option Char
  | '"' => some '"'
  | '\\' => some '\\'
  | '/' => some '/'
  | 'b' => some '\x08'
  | 'f' => some '\x0C'
  | 'n' => some '\n'
  | 'r' => some '\x0D'
  | 't' => some '\t'
  | _ => none

/-- Whether a character may stand in a string as it is. -/
def isPlain (c : Char) : Bool :=
  c != '"' && c != '\\' && 0x20 ≤ c.toNat

/-- The number that hexadecimal digits spell. -/
def hexValue (digits : List Char) : Nat :=
  digits.foldl (fun value c => value * 16 + (Text.digitOf? 16 c).getD 0) 0

def isHexDigit (c : Char) : Bool :=
  (Text.digitOf? 16 c).isSome

/-- One element of a string. -/
def piece : Scanner Piece :=
  (do return .plain (← satisfy isPlain)) <|> do
    char '\\'
    match ← next? with
    | some 'u' =>
      char 'u'
      return .unit (hexValue (← times (satisfy isHexDigit) 4))
    | some letter =>
      match escaped? letter with
      | some c =>
        char letter
        return .plain c
      | none => failure
    | none => failure

/-- The elements of a string in quotes. -/
def pieces : Scanner (List Piece) := do
  char '"'
  let found ← many piece
  char '"'
  return found

/-- Whether sixteen bits are the first half of a surrogate pair. -/
def isHighHalf (value : Nat) : Bool := 0xD800 ≤ value && value < 0xDC00

/-- Whether sixteen bits are the second half of a surrogate pair. -/
def isLowHalf (value : Nat) : Bool := 0xDC00 ≤ value && value < 0xE000

/-- The text that some elements spell, or `none` where half of a surrogate pair is left over. -/
def spell? : List Piece → Option (List Char)
  | [] => some []
  | .plain c :: rest => (spell? rest).map (c :: ·)
  | .unit high :: rest =>
    if isHighHalf high then
      match rest with
      | .unit low :: rest =>
        if isLowHalf low then
          (spell? rest).map
            (Char.ofNat (0x10000 + (high - 0xD800) * 0x400 + (low - 0xDC00)) :: ·)
        else none
      | _ => none
    else if isLowHalf high then none
    else (spell? rest).map (Char.ofNat high :: ·)

def string : Scanner String := do
  match spell? (← pieces) with
  | some text => return String.ofList text
  | none => failure

/-! ### Numbers -/

/-- Digits without a needless zero in front. -/
def plainDigits : Scanner (List Char) := do
  match ← run1 Char.isDigit with
  | '0' :: _ :: _ => failure
  | digits => return digits

/-- A number, of whatever kind; of a whole one without a sign the digits are kept. -/
def number : Scanner (Option (List Char)) := do
  let sign ← maybe (char '-')
  let digits ← plainDigits
  let fraction ← maybe (do char '.'; let _ ← run1 Char.isDigit)
  let exponent ← maybe do
    let _ ← satisfy fun c => c == 'e' || c == 'E'
    let _ ← maybe (satisfy fun c => c == '+' || c == '-')
    let _ ← run1 Char.isDigit
  return if sign.isNone && fraction.isNone && exponent.isNone then some digits else none

/-- A whole number below a bound. -/
def natural (bound : Nat) : Scanner Nat := do
  match ← number with
  | some digits =>
    match Text.readNumber 10 bound digits with
    | .ok value => return value
    | .error _ => failure
  | none => failure

/-! ### Lists and objects -/

/-- Items between brackets, with commas between. -/
def items {α : Type} (opening closing : Char) (item : Scanner α) : Scanner (List α) := do
  char opening
  space
  let found ← maybe (sepBy1 (spaced item) (char ','))
  char closing
  return found.getD []

/-- Anything, up to a depth; nothing is kept of it. -/
def skip : Nat → Scanner Unit
  | 0 => failure
  | depth + 1 =>
    (do let _ ← items '[' ']' (skip depth)) <|>
    (do let _ ← items '\x7b' '\x7d' (do
          let _ ← pieces
          space
          char ':'
          space
          skip depth)) <|>
    (do let _ ← pieces) <|>
    (do let _ ← number) <|>
    word "null" <|> word "true" <|> word "false"

/-- The text of any value. -/
def raw : Scanner (List Char) := fun text =>
  match skip text.length text with
  | some ((), rest) => some (text.take (text.length - rest.length), rest)
  | none => none

/-- The names of an object's members and the texts of their values. -/
def members : Scanner (List (String × List Char)) :=
  items '\x7b' '\x7d' do
    let name ← string
    space
    char ':'
    space
    let value ← raw
    return (name, value)

/-- The texts of a structure's fields in the order of their names: each exactly once. -/
def fields (names : List String) : Scanner (List (List Char)) :=
  (do
    let found ← members
    names.mapM fun name =>
      match found.filter (·.1 == name) with
      | [(_, text)] => pure text
      | _ => failure) <|>
  (do
    let found ← items '[' ']' raw
    if found.length = names.length then return found else failure)

/-- One of some words: as a string, or as an object whose one member has it for its name and
nothing for its value. -/
def variant {α : Type} (choose : String → Option α) : Scanner α := do
  let name ← string <|> (do
    char '\x7b'
    space
    let name ← string
    space
    char ':'
    space
    word "null"
    space
    char '\x7d'
    return name)
  match choose name with
  | some value => return value
  | none => failure

/-- Read a text that holds one value and nothing else but blanks. -/
def parse? {α : Type} (scanner : Scanner α) (text : List Char) : Option α :=
  all? (spaced scanner) text

end UsbBoot.Json
