/-
Settings in a document.

A document has three tables: `device`, `load`, and the array `known_device`.  All of
them may be missing, and what they hold beside the known keys is passed over.  What has
a known key must be of the right kind, or the whole document counts for nothing.
-/
import UsbBoot.Count
import UsbBoot.Settings.Basic
import UsbBoot.Toml.Document

namespace UsbBoot.Settings

open Toml (Item Members)

/-- Read what may be missing. -/
def optionally {α : Type} (read : Item → Option α) : Option Item → Option (Option α)
  | none => some none
  | some item => (read item).map some

/-- The device and its family. -/
def deviceOf? (item : Item) : Option (Option String × Option String) := do
  match ← item.fields? ["vid_pid", "type"] with
  | [device, type] => return (← optionally Item.string? device, ← optionally Item.string? type)
  | _ => none

def loaderOf? (item : Item) : Option (Option String) := do
  match ← item.fields? ["loader"] with
  | [loader] => optionally Item.string? loader
  | _ => none

/-- A number of sixteen bits. -/
def numberOf? (item : Item) : Option UInt16 :=
  (item.natural? shortLimit).map Nat.toUInt16

/-- An entry for the table of known devices. -/
def entryOf? (item : Item) : Option Entry := do
  match ← item.fields? ["vid", "pid", "type", "name"] with
  | [vendor, product, type, name] =>
    let id : Device.Id := ⟨← numberOf? (← vendor), ← numberOf? (← product)⟩
    return ⟨id, ← (← type).string?, ← optionally Item.string? name⟩
  | _ => none

/-- The settings in the table of a document. -/
def ofMembers? (members : Members) : Option Settings := do
  let (device, type) := (← optionally deviceOf? (members.get? "device")).getD (none, none)
  let loader := (← optionally loaderOf? (members.get? "load")).getD none
  let known ← optionally (fun item => do (← item.items?).mapM entryOf?)
    (members.get? "known_device")
  return ⟨device, type, loader, known.getD []⟩

/-- The settings that some text holds. -/
def ofText? (text : List Char) : Option Settings :=
  (Toml.parse? text).bind ofMembers?

end UsbBoot.Settings
