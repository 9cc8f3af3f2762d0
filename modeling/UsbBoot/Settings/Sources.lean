/-
Where settings come from.

The caller may name a file, and then it alone counts.  Otherwise the user's own file is
read, and the one in the working directory is laid over it.  A file that is not there is
passed over in silence; one that holds no settings is passed over with a warning, since
a broken file must not keep a device from being loaded.
-/
import UsbBoot.Effect
import UsbBoot.Files
import UsbBoot.Settings.Document
import UsbBoot.Text.Utf8

namespace UsbBoot.Settings

/-- The file in the working directory. -/
def localPath : String := "ezload.toml"

/-- The user's own file, below the directory for such files. -/
def userPath (directory : String) : String :=
  directory ++ "/ezload/config.toml"

/-- How it is worded that bytes are no text. -/
def notText : String := "stream did not contain valid UTF-8"

/-- How it is worded that a text holds no settings. -/
def notSettings : String := "not a valid settings document"

/-- The settings a file holds, or what is said of it when it holds none. -/
def ofLookup (path : String) : Lookup → Except (Option Log.Line) Settings
  | .absent _ => .error none
  | .unreadable text => .error (some (unreadable text))
  | .found bytes =>
    match Text.decode bytes with
    | none => .error (some (unreadable notText))
    | some text =>
      match ofText? text with
      | none => .error (some (.warn .settings
          ("Failed to parse config file " ++ path ++ ": " ++ notSettings)))
      | some settings => .ok settings
where
  /-- What is said of a file that cannot be read. -/
  unreadable (text : String) : Log.Line :=
    .warn .settings ("Failed to read config file " ++ path ++ ": " ++ text)

variable {ε : Type}

/-- The settings in the file that the caller names. -/
def named (files : String → Lookup) (path : String) : Stage ε Settings :=
  match ofLookup path (files path) with
  | .ok settings => do
    .note [.debug .settings ("Loaded config from " ++ path)]
    return settings
  | .error note => do
    .note (note.toList ++
      [.warn .settings ("Could not load config from " ++ path ++ ", using defaults")])
    return empty

/-- The settings in a file that is read if it is there. -/
def layer (files : String → Lookup) (title path : String) : Stage ε Settings :=
  match ofLookup path (files path) with
  | .ok settings => do
    .note [.debug .settings ("Loaded " ++ title ++ " config from " ++ path)]
    return settings
  | .error note => do
    .note note.toList
    return empty

/-- The settings of the user's own file and of the one in the working directory. -/
def layered (files : String → Lookup) (user : Option String) : Stage ε Settings := do
  let lower ← match user with
    | none => pure empty
    | some path => layer files "global" path
  let upper ← layer files "local" localPath
  return lower.merge upper

/-- The settings of a run. -/
def gather (files : String → Lookup) (user caller : Option String) : Stage ε Settings :=
  match caller with
  | some path => named files path
  | none => layered files user

end UsbBoot.Settings
