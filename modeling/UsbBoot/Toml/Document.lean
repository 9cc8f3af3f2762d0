/-
Reading a TOML document.

A document is a list of statements, each on its own line: a header, or a key and what it
stands for.  A pair goes into the table that the last header before it opened.  Nothing
is kept of a document that is not well formed, since a settings file counts as a whole
or not at all.
-/
import UsbBoot.Toml.Scalar

namespace UsbBoot.Toml

open Text (Scanner)
open Text.Scanner

/-! ### Values -/

/-- Blanks, line ends and comments, as they may stand between the items of an array. -/
def filler : Scanner Unit := do
  let _ ← many <|
    (do let _ ← run1 isSpace) <|> newline <|> do comment; newline

/-- Put pairs into a table one after the other. -/
def insertAll : List (List String × Item) → Members → Option Members
  | [], members => some members
  | (path, item) :: rest, members =>
    match path.getLast? with
    | none => none
    | some key => (members.insert key item path.dropLast).bind (insertAll rest)

/-- The items of an array, each read by `item`; a comma may follow the last. -/
def list (item : Scanner Item) : Scanner Item := do
  char '['
  let items ← maybe (sepBy1 (do filler; let found ← item; filler; return found) (char ','))
  if items.isSome then let _ ← maybe (char ',')
  filler
  char ']'
  return .list (items.getD [])

/-- A key and what it stands for, the latter read by `item`. -/
def pair (item : Scanner Item) : Scanner (List String × Item) := do
  let path ← key
  char '='
  space
  let found ← item
  return (path, found)

/-- A table in braces, what its keys stand for being read by `item`. -/
def bracedTable (item : Scanner Item) : Scanner Item := do
  char '\x7b'
  let pairs ← maybe (sepBy1 (do let found ← pair item; space; return found) (char ','))
  space
  char '\x7d'
  match insertAll (pairs.getD []) [] with
  | some members => return .table .value members
  | none => failure

/-- What a key may stand for, with arrays and tables nested up to a depth. -/
def value : Nat → Scanner Item
  | 0 => scalar
  | depth + 1 => list (value depth) <|> bracedTable (value depth) <|> scalar
where
  /-- What a key may stand for, arrays and tables apart. -/
  scalar : Scanner Item :=
    (do return .string (← string)) <|> moment <|> fractional <|> namedNumber <|> integer <|>
      (do word "true" <|> word "false"; return .plain)

/-! ### Statements -/

/-- What a line says. -/
inductive Statement
  | nothing
  /-- From here on this table is meant. -/
  | table (path : List String)
  /-- From here on the next table of this array is meant. -/
  | element (path : List String)
  /-- A key and what it stands for. -/
  | pair (path : List String) (item : Item)

/-- What may follow a statement on its line. -/
def lineEnd : Scanner Unit := do
  space
  let _ ← maybe comment
  newline <|> finish

def statement : Scanner Statement := do
  space
  (do comment; newline <|> finish; return .nothing) <|>
    (do newline; return .nothing) <|>
    (do word "[["; let path ← key; word "]]"; lineEnd; return .element path) <|>
    (do char '['; let path ← key; char ']'; lineEnd; return .table path) <|>
    (do let (path, item) ← pair (value depthLimit); lineEnd; return .pair path item)

/-- The mark that may stand in front of a document. -/
def orderMark : Char := '\uFEFF'

/-- The statements of a document. -/
def statements : Scanner (List Statement) := do
  let _ ← maybe (char orderMark)
  let found ← many statement
  space
  finish
  return found

/-! ### The whole -/

/-- A document as far as it was read. -/
structure Draft where
  root : Members
  /-- The path of the last header. -/
  path : List String

/-- Take in a statement. -/
def Draft.take (draft : Draft) : Statement → Option Draft
  | .nothing => some draft
  | .table path => do
    let key ← path.getLast?
    return ⟨← draft.root.alterAt (Members.openTable key) path.dropLast, path⟩
  | .element path => do
    let key ← path.getLast?
    return ⟨← draft.root.alterAt (Members.openElement key) path.dropLast, path⟩
  | .pair path item =>
    (draft.root.alterAt (insertAll [(path, item)]) draft.path).map fun root => { draft with root }

/-- The table of a document, or `none` where it is not well formed. -/
def parse? (text : List Char) : Option Members := do
  let found ← all? statements text
  return (← found.foldlM Draft.take ⟨[], []⟩).root

end UsbBoot.Toml
