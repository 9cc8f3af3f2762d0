/-
What a TOML document holds, and how it grows.

A document is a table, built up one statement at a time.  Who made a table decides who
may still add to it.  A table that was written as a value is closed.  One that only
stands on the way to a header can still get a header of its own.  One that came about by
a dotted key grows by dotted keys alone.

Growing is stated as a change along a path, so every rule about what may be extended is
a clause about the item met at one key.
-/

namespace UsbBoot.Toml

/-- How a table came about. -/
inductive Made
  /-- As a value, in braces. -/
  | value
  /-- By a header of its own. -/
  | header
  /-- On the way to the header of another. -/
  | implied
  /-- On the way of a dotted key. -/
  | dotted
  deriving DecidableEq, Repr

/-- What a key stands for. -/
inductive Item
  | string (text : String)
  | integer (value : Int)
  /-- A date, a time or both. -/
  | moment
  /-- A truth value or a number that is not whole. -/
  | plain
  /-- An array written as a value. -/
  | list (items : List Item)
  | table (made : Made) (members : List (String × Item))
  /-- An array of tables, one for each of its headers. -/
  | tables (elements : List (List (String × Item)))

/-- The keys of a table and what they stand for. -/
abbrev Members := List (String × Item)

namespace Members

def get? (members : Members) (key : String) : Option Item :=
  (members.find? (·.1 == key)).map (·.2)

/-- Change what a key stands for, or give up. -/
def alter (key : String) (change : Option Item → Option Item) : Members → Option Members
  | [] => (change none).map fun item => [(key, item)]
  | (name, item) :: rest =>
    if name = key then (change (some item)).map fun item => (name, item) :: rest
    else (alter key change rest).map ((name, item) :: ·)

/-- Change the last of some tables, or give up. -/
def alterLast (change : Members → Option Members) : List Members → Option (List Members)
  | [] => none
  | [last] => (change last).map fun last => [last]
  | first :: rest => (alterLast change rest).map (first :: ·)

/-- Put an item at a key that stands for nothing yet. -/
def insertNew (key : String) (item : Item) : Members → Option Members :=
  alter key fun
    | none => some item
    | some _ => none

/-- Put an item at a dotted key.  The tables on the way are made if they are missing; the
last of them must be one that grows by dotted keys. -/
def insert (key : String) (item : Item) : List String → Members → Option Members
  | [], members => insertNew key item members
  | name :: path, members =>
    alter name (fun
      | none => (insert key item path []).map (.table .dotted)
      | some (.table .dotted inner) => (insert key item path inner).map (.table .dotted)
      -- Headers made this one: a dotted key may lead through it, but not add to it.
      | some (.table .implied inner) =>
        if path.isEmpty then none else (insert key item path inner).map (.table .implied)
      | some (.tables elements) =>
        if path.isEmpty then none else (alterLast (insert key item path) elements).map .tables
      | some _ => none) members

/-- Change the table that the path of a header leads to.  The tables on the way are made if
they are missing; of an array of tables the last one is meant. -/
def alterAt (change : Members → Option Members) : List String → Members → Option Members
  | [], members => change members
  | name :: path, members =>
    alter name (fun
      | none => (alterAt change path []).map (.table .implied)
      -- A table in braces is complete.
      | some (.table .value _) => none
      | some (.table made inner) => (alterAt change path inner).map (.table made)
      | some (.tables elements) => (alterLast (alterAt change path) elements).map .tables
      | some _ => none) members

/-- Give a table its header. -/
def openTable (key : String) : Members → Option Members :=
  alter key fun
    | none => some (.table .header [])
    | some (.table .implied members) => some (.table .header members)
    | some _ => none

/-- Begin the next table of an array of tables. -/
def openElement (key : String) : Members → Option Members :=
  alter key fun
    | none => some (.tables [[]])
    | some (.tables elements) => some (.tables (elements ++ [[]]))
    | some _ => none

end Members

namespace Item

def string? : Item → Option String
  | .string text => some text
  | _ => none

/-- A whole number from zero on and below a bound. -/
def natural? (bound : Nat) : Item → Option Nat
  | .integer value => if 0 ≤ value ∧ value < bound then some value.toNat else none
  | _ => none

def items? : Item → Option (List Item)
  | .list items => some items
  | .tables elements => some (elements.map (.table .header))
  | _ => none

/-- The fields of a structure, in the order of their names.  In a table a field may be
missing; in an array all stand in their order.  A moment counts as a table without any. -/
def fields? (names : List String) : Item → Option (List (Option Item))
  | .table _ members => some (names.map (Members.get? members))
  | .moment => some (names.map fun _ => none)
  | item => do
    let items ← item.items?
    if items.length < names.length then none else some ((items.take names.length).map some)

end Item
end UsbBoot.Toml
