/-
Writing JSON.

The program's machine-readable answers are written with one member to a line, two blanks
for each level.  An object's members are written in the order given, which is the
alphabetical one throughout.
-/
import UsbBoot.Text.Number

namespace UsbBoot.Json

/-- A value to be written. -/
inductive Value
  | null
  | bool (value : Bool)
  | number (value : Nat)
  | string (value : String)
  | array (items : List Value)
  | object (members : List (String × Value))

/-- The letter that stands for a control character after a backslash, for those that have one. -/
def shortEscape? : Char → Option Char
  | '"' => some '"'
  | '\\' => some '\\'
  | '\x08' => some 'b'
  | '\x0C' => some 'f'
  | '\n' => some 'n'
  | '\x0D' => some 'r'
  | '\t' => some 't'
  | _ => none

/-- A character within a string. -/
def escape (c : Char) : List Char :=
  match shortEscape? c with
  | some letter => ['\\', letter]
  | none =>
    if c.toNat < 0x20 then '\\' :: 'u' :: Text.hexDigits Text.lowerDigit 4 c.toNat else [c]

/-- A string in quotes. -/
def quote (text : String) : String :=
  "\"" ++ String.ofList (text.toList.flatMap escape) ++ "\""

/-- A line break, and the blanks that begin a line at this depth. -/
def newline (depth : Nat) : String :=
  "\n" ++ String.ofList (List.replicate (2 * depth) ' ')

/-- Items in brackets, each on a line of its own; nothing stands between brackets without
items. -/
def bracket (opening closing : String) (depth : Nat) (items : List String) : String :=
  if items.isEmpty then opening ++ closing
  else opening ++ newline (depth + 1) ++ ("," ++ newline (depth + 1)).intercalate items ++
    newline depth ++ closing

mutual

/-- A value whose first line begins at the given depth. -/
def Value.render (depth : Nat) : Value → String
  | .null => "null"
  | .bool true => "true"
  | .bool false => "false"
  | .number value => toString value
  | .string value => quote value
  | .array items => bracket "[" "]" depth (renderItems (depth + 1) items)
  | .object members => bracket "\x7b" "\x7d" depth (renderMembers (depth + 1) members)

/-- Each of some values at the given depth. -/
def renderItems (depth : Nat) : List Value → List String
  | [] => []
  | item :: rest => item.render depth :: renderItems depth rest

/-- Each of some members at the given depth. -/
def renderMembers (depth : Nat) : List (String × Value) → List String
  | [] => []
  | (name, value) :: rest =>
    (quote name ++ ": " ++ value.render depth) :: renderMembers depth rest

end

/-- The answer to a request that went well. -/
def success (data : Value) : Value :=
  .object [("data", data), ("ok", .bool true)]

end UsbBoot.Json
