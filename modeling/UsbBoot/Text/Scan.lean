/-
Scanners.

A scanner looks at the front of a text.  It either finds what it looks for, and yields a
value and the rest of the text, or does not.  Scanners are put together by sequence,
choice and repetition; a repetition stops by itself, as it never takes more turns than
the text has characters.
-/

namespace UsbBoot.Text

/-- What looks for an `α` at the front of a text. -/
abbrev Scanner (α : Type) : Type :=
  StateT (List Char) Option α

namespace Scanner

variable {α β : Type}

/-- One character of a class. -/
def satisfy (accept : Char → Bool) : Scanner Char
  | c :: rest => if accept c then some (c, rest) else none
  | [] => none

def char (c : Char) : Scanner Unit
  | first :: rest => if first = c then some ((), rest) else none
  | [] => none

def chars : List Char → Scanner Unit
  | [] => pure ()
  | c :: rest => do char c; chars rest

def word (text : String) : Scanner Unit :=
  chars text.toList

/-- The longest run of characters of a class, maybe empty. -/
def run (accept : Char → Bool) : Scanner (List Char) := fun text =>
  some (text.takeWhile accept, text.dropWhile accept)

/-- The longest run of characters of a class, with at least one. -/
def run1 (accept : Char → Bool) : Scanner (List Char) := do
  let first ← satisfy accept
  let rest ← run accept
  return first :: rest

/-- What comes next, without taking it. -/
def next? : Scanner (Option Char) := fun text =>
  some (text.head?, text)

def finish : Scanner Unit
  | [] => some ((), [])
  | _ :: _ => none

/-- Find something if it is there. -/
def maybe (scanner : Scanner α) : Scanner (Option α) := fun text =>
  match scanner text with
  | some (value, rest) => some (some value, rest)
  | none => some (none, text)

/-- Find something as often as it is there, at most `turns` times. -/
def upTo (scanner : Scanner α) : Nat → Scanner (List α)
  | 0 => pure []
  | turns + 1 => fun text =>
    match scanner text with
    | none => some ([], text)
    | some (value, rest) => (upTo scanner turns rest).map fun found => (value :: found.1, found.2)

/-- Find something as often as it is there.  The scanner must take at least one character. -/
def many (scanner : Scanner α) : Scanner (List α) := fun text =>
  upTo scanner text.length text

/-- Find something exactly so many times. -/
def times (scanner : Scanner α) : Nat → Scanner (List α)
  | 0 => pure []
  | count + 1 => do
    let value ← scanner
    let rest ← times scanner count
    return value :: rest

/-- Find something one or more times with a separator between. -/
def sepBy1 (scanner : Scanner α) (separator : Scanner β) : Scanner (List α) := do
  let first ← scanner
  let rest ← many (do let _ ← separator; scanner)
  return first :: rest

/-- The value of a text that holds nothing else. -/
def all? (scanner : Scanner α) (text : List Char) : Option α :=
  match scanner text with
  | some (value, []) => some value
  | _ => none

end Scanner
end UsbBoot.Text
