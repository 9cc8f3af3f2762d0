/-
Choosing the device to load.

A request names a family, a pair of numbers, both or neither.  With a pair there is
nothing left to find: only the family may be missing, and then the table knows it or the
fallback is taken.  With a family alone exactly one pair among the attached devices must
belong to it.  With nothing the first attached device in the table is taken.
-/
import UsbBoot.Device.Table
import UsbBoot.Failure

namespace UsbBoot.Device

/-- What is asked for. -/
structure Selector where
  family : Option Chip.Family
  id : Option Id
  deriving DecidableEq, Repr

def Selector.isEmpty (selector : Selector) : Bool :=
  selector.family.isNone && selector.id.isNone

/-- Where the family of a chosen device comes from. -/
inductive FamilySource
  /-- From the request. -/
  | explicit
  /-- From the table. -/
  | table
  /-- From nowhere: it is the fallback. -/
  | fallback
  deriving DecidableEq, Repr

/-- The word for where a family comes from. -/
def FamilySource.token : FamilySource → String
  | .explicit => "explicit"
  | .table => "table"
  | .fallback => "default"

structure Resolved where
  id : Id
  family : Chip.Family
  source : FamilySource
  deriving DecidableEq, Repr

/-- The entries of a family among the attached devices, each once, in bus order. -/
def candidates (table : Table) (family : Chip.Family) (devices : List Info) : List Known :=
  ((devices.filterMap fun device => table.lookup device.id).filter (·.family == family)).eraseDups

/-- How it is told that more than one pair fits. -/
def ambiguityDetail (family : Chip.Family) (found : List Known) : String :=
  toString found.length ++ " attached " ++ family.display ++ " devices match: " ++
    ", ".intercalate (found.map (·.id.lower))

/-- The family of a pair. -/
def resolveId (table : Table) (id : Id) : Resolved :=
  match table.lookup id with
  | some known => ⟨id, known.family, .table⟩
  | none => ⟨id, .fallback, .fallback⟩

def resolve (table : Table) (selector : Selector) (devices : List Info) :
    Except Failure Resolved :=
  match selector.family, selector.id with
  -- The user is taken at their word, whatever the table says of the pair.
  | some family, some id => .ok ⟨id, family, .explicit⟩
  | none, some id => .ok (resolveId table id)
  | some family, none =>
    match candidates table family devices with
    | [] => .error .notFound
    | [only] => .ok ⟨only.id, family, .explicit⟩
    | many => .error (.ambiguous (ambiguityDetail family many))
  | none, none =>
    match devices.findSome? fun device => table.lookup device.id with
    | none => .error .notFound
    | some known => .ok ⟨known.id, known.family, .table⟩

/-- What is said while a device is chosen. -/
def resolveNotes (table : Table) (selector : Selector) (devices : List Info) : List Log.Line :=
  match selector.family, selector.id with
  | some _, some _ => []
  | none, some id =>
    match table.lookup id with
    | some known => [.debug .devices (id.upper ++ " is a known " ++ known.family.display ++
        " (" ++ known.name ++ ")")]
    | none => []
  | some family, none =>
    match candidates table family devices with
    | [only] => [.info .devices ("Found " ++ only.name ++ " at " ++ only.id.upper)]
    | _ => []
  | none, none =>
    match devices.findSome? fun device => table.lookup device.id with
    | none => []
    | some known => [.info .devices ("Auto-detected " ++ known.name ++ " at " ++ known.id.upper)]

end UsbBoot.Device
