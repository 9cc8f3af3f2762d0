/-
Control sequences.

A log line may quote a text that somebody else wrote, and a terminal obeys the control
sequences in what it is shown.  `withoutControls` leaves of a text what a terminal would
print: control characters go, and an escape takes with it all that belongs to its sequence.

What comes after the escape decides how far a sequence reaches: a short one ends with its
first letter, a command with the letter that names it, and a string only where it is
closed.  A string that nothing closes takes the rest of the text.

The four characters that lay out a text (tab, line feed, form feed, return) are printed even
inside a short sequence or a command.  The reader then stands aside of the sequence, and
takes what follows for plain text until the next control character leads it back.
-/
import UsbBoot.Text.Utf8

namespace UsbBoot.Text

/-- Whether a character lays out a text. -/
def isLayout (c : Char) : Bool :=
  c == '\t' || c == '\n' || c == '\x0C' || c == '\r'

/-- Whether a character is printed where it stands outside of any sequence: it is neither a
control character nor the delete character, or it lays out the text. -/
def isPrinted (c : Char) : Bool :=
  (0x20 ≤ c.toNat && c.toNat != 0x7F) || isLayout c

/-- Whether a character opens a sequence. -/
def isOpener (c : Char) : Bool :=
  c == '\x1B'

/-- Whether a character breaks off the sequence it stands in. -/
def isCancel (c : Char) : Bool :=
  c == '\x18' || c == '\x1A'

/-- Whether a character lies from `first` to `last`. -/
def liesWithin (first last : Nat) (c : Char) : Bool :=
  first ≤ c.toNat && c.toNat ≤ last

/-- A control sequence, by how much of it has been read. -/
inductive Sequence
  /-- The escape alone. -/
  | opened
  /-- A short sequence that its last letter has yet to end. -/
  | short
  /-- A command, which the letter that names it ends. -/
  | command
  /-- A string for the device, at its first character. -/
  | device
  /-- A string for the device, among its parameters. -/
  | deviceParameters
  /-- A string for the device, past its parameters. -/
  | deviceName
  /-- A string that the string terminator closes. -/
  | string
  /-- A string for the system, which the bell closes. -/
  | system
  deriving DecidableEq, Repr

namespace Sequence

/-- Whether the characters that lay out a text are printed inside a sequence. -/
def printsLayout : Sequence → Bool
  | .opened | .short | .command => true
  | .device | .deviceParameters | .deviceName | .string | .system => false

/-- What the character after the escape opens, `none` where it is the whole sequence. -/
def ofOpening (c : Char) : Option Sequence :=
  if c.toNat < 0x20 then some .opened
  else if c.toNat < 0x30 then some .short
  else if c == 'P' then some .device
  else if c == '[' then some .command
  else if c == ']' then some .system
  else if c == 'X' || c == '^' || c == '_' then some .string
  else if c.toNat < 0x7F then none
  else some .opened

/-- What is left of a string for the device that is about to have parameters. -/
def ofDevice (c : Char) : Sequence :=
  if liesWithin 0x20 0x2F c then .deviceName
  else if liesWithin 0x30 0x3F c then .deviceParameters
  else if liesWithin 0x40 0x7E c then .string
  else .device

/-- What is left of a string for the device that has parameters.  A mark of private use is out
of place among them, and the rest is then a string like any other. -/
def ofDeviceParameters (c : Char) : Sequence :=
  if liesWithin 0x20 0x2F c then .deviceName
  else if liesWithin 0x3C 0x7E c then .string
  else .deviceParameters

/-- Whether a byte of a character is the string terminator. -/
def isTerminator (c : Char) : Bool :=
  (String.utf8EncodeChar c).contains 0x9C

/-- What is left of a sequence after a character of it, `none` where it ends. -/
def next (sequence : Sequence) (c : Char) : Option Sequence :=
  match sequence with
  | .opened => ofOpening c
  | .short => if liesWithin 0x30 0x7E c then none else some .short
  | .command => if liesWithin 0x40 0x7E c then none else some .command
  | .device => some (ofDevice c)
  | .deviceParameters => some (ofDeviceParameters c)
  | .deviceName => some (if liesWithin 0x30 0x7E c then .string else .deviceName)
  | .string => if isTerminator c then none else some .string
  | .system => if c == '\x07' then none else some .system

end Sequence

/-- Where the reader of a text stands. -/
inductive Reader
  /-- In plain text. -/
  | plain
  /-- In a sequence. -/
  | within (sequence : Sequence)
  /-- In plain text in the middle of a sequence. -/
  | aside (sequence : Sequence)
  deriving DecidableEq, Repr

namespace Reader

/-- Whether a character is printed. -/
def prints (reader : Reader) (c : Char) : Bool :=
  match reader with
  | .plain | .aside _ => isPrinted c
  | .within sequence => sequence.printsLayout && isLayout c

/-- Where the reader stands after a character. -/
def next (reader : Reader) (c : Char) : Reader :=
  if isOpener c then .within .opened
  else if isCancel c then .plain
  else match reader with
    | .plain => .plain
    | .aside sequence =>
      if 0x80 ≤ c.toNat then .plain
      else if isPrinted c then .aside sequence
      else .within sequence
    | .within sequence =>
      if sequence.printsLayout && isLayout c then .aside sequence
      else match sequence.next c with
        | some rest => .within rest
        | none => .plain

/-- What is printed of a text. -/
def printed (reader : Reader) : List Char → List Char
  | [] => []
  | c :: rest =>
    if reader.prints c then c :: (reader.next c).printed rest else (reader.next c).printed rest

end Reader

/-- What is printed of a text. -/
def withoutControls (text : List Char) : List Char :=
  Reader.plain.printed text

end UsbBoot.Text
