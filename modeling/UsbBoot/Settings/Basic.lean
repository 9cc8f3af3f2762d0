/-
Settings.

Settings give what a request leaves open: the device, its family, the loader, and more
entries for the table of known devices.  They are kept as they were written; what is
written wrongly is found out only where it is needed, so that a wrong entry does no harm
to a request that does without it.

Settings from several files are laid one over the other.  The upper layer's values win,
and its table entries are added after those of the lower one.
-/
import UsbBoot.Device.Table
import UsbBoot.Report

namespace UsbBoot

/-- An entry for the table of known devices, as it is written. -/
structure Settings.Entry where
  id : Device.Id
  /-- The name of the family. -/
  type : String
  /-- What the device is called in lists. -/
  name : Option String
  deriving DecidableEq, Repr

/-- Settings, as they are written. -/
structure Settings where
  device : Option String
  type : Option String
  loader : Option String
  /-- More entries for the table of known devices. -/
  known : List Settings.Entry
  deriving DecidableEq, Repr

/-- What is wrong with settings. -/
inductive Settings.Fault
  /-- The family has no such name. -/
  | unknownType (name : String)
  /-- The device is no pair of numbers. -/
  | badDevice (fault : Device.Id.Fault)
  /-- The family of a table entry has no such name. -/
  | unknownEntryType (name : String) (id : Device.Id)
  deriving DecidableEq, Repr

def Settings.Fault.message : Settings.Fault → String
  | .unknownType name => "unknown microcontroller type in config: " ++ name
  | .badDevice fault => "device.vid_pid: " ++ fault.message
  | .unknownEntryType name id => "unknown type '" ++ name ++ "' for known device " ++ id.lower

/-- How a run that needs wrong settings is reported. -/
def Settings.Fault.report (fault : Settings.Fault) : Report :=
  .of (.settings fault.message)

namespace Settings

def empty : Settings :=
  ⟨none, none, none, []⟩

/-- Settings with another layer on top. -/
def merge (lower upper : Settings) : Settings where
  device := upper.device <|> lower.device
  type := upper.type <|> lower.type
  loader := upper.loader <|> lower.loader
  known := lower.known ++ upper.known

/-- The family that is set. -/
def family (settings : Settings) : Except Fault (Option Chip.Family) :=
  match settings.type with
  | none => .ok none
  | some name =>
    match Chip.Family.ofName? name with
    | none => .error (.unknownType name)
    | some family => .ok (some family)

/-- The device that is set. -/
def deviceId (settings : Settings) : Except Fault (Option Device.Id) :=
  match settings.device with
  | none => .ok none
  | some text =>
    match Device.Id.read text with
    | .error fault => .error (.badDevice fault)
    | .ok id => .ok (some id)

/-- What the table holds for an entry.  One without a name is called after its family. -/
def Entry.known (entry : Entry) : Except Fault Device.Known :=
  match Chip.Family.ofName? entry.type with
  | none => .error (.unknownEntryType entry.type entry.id)
  | some family => .ok ⟨entry.id, family, entry.name.getD (family.display ++ " device")⟩

/-- A table with entries added to it. -/
def addEntries (table : Device.Table) (entries : List Entry) : Except Fault Device.Table :=
  entries.foldlM (fun table entry => return table.add (← entry.known)) table

/-- The table of known devices. -/
def table (settings : Settings) : Except Fault Device.Table :=
  addEntries .builtin settings.known

/-- What is said while entries are added, up to the first wrong one. -/
def addEntriesNotes (table : Device.Table) : List Entry → List Log.Line
  | [] => []
  | entry :: rest =>
    match entry.known with
    | .error _ => []
    | .ok known => table.addNotes known ++ addEntriesNotes (table.add known) rest

/-- What is said while the table is put together. -/
def tableNotes (settings : Settings) : List Log.Line :=
  addEntriesNotes .builtin settings.known

/-! ### Layers -/

@[simp] theorem merge_empty (settings : Settings) : settings.merge empty = settings := by
  simp [merge, empty]

@[simp] theorem empty_merge (settings : Settings) : empty.merge settings = settings := by
  simp [merge, empty]

end Settings
end UsbBoot
