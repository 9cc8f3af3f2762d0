/-
The command line.

This part alone deals with the system.  It finds out which files a run looks at, reads
them, lets the program run on what it found, and shows what is to be seen.  The bus it
offers is empty.
-/
import UsbBoot.CommandLine.Usage
import UsbBoot.Program

namespace UsbBoot.Main

/-- The variables of the environment that a run looks at. -/
def watchedVariables : List String :=
  ["HOME", "XDG_CONFIG_HOME", "SHELL", Job.deviceVariable] ++ CommandLine.standIns.map (·.2)

/-- The settings files that a run looks at. -/
def settingsPaths (environment : String → Option String) (options : Options) : List String :=
  match options.settings with
  | some path => [path]
  | none => (Program.userSettings? environment).toList ++ [Settings.localPath]

/-- The image files that a run looks at. -/
def imagePaths (settings : Settings) : Command → List String
  | .load job => job.firmware :: (job.loaderPath settings).toList
  | .info firmware _ => [firmware]
  | .listDevices _ _ | .completions _ => []

/-- How the system words an error. -/
def wording (error : IO.Error) : String :=
  let coded (code : UInt32) (details : String) := details ++ " (os error " ++ toString code ++ ")"
  match error with
  | .noFileOrDirectory _ code details => coded code details
  | .permissionDenied _ code details => coded code details
  | .inappropriateType _ code details => coded code details
  | .invalidArgument _ code details => coded code details
  | .noSuchThing _ code details => coded code details
  | .otherError code details => coded code details
  | other => toString other

/-- Look for a file. -/
def lookup (path : String) : IO Lookup := do
  try
    return .found (← IO.FS.readBinFile path).toList
  catch error =>
    match error with
    | .noFileOrDirectory .. => return .absent (wording error)
    | _ => return .unreadable (wording error)

def lookupAll (paths : List String) : IO (List (String × Lookup)) :=
  paths.mapM fun path => return (path, ← lookup path)

/-- What came of looking for a file. -/
def answers (found : List (String × Lookup)) (path : String) : Lookup :=
  (found.lookup path).getD (.absent Files.nothingThere)

def run (environment : String → Option String) (options : Options) : IO UInt32 := do
  let settingsFound ← lookupAll (settingsPaths environment options)
  let gathered : Stage Report Settings :=
    Settings.gather (answers settingsFound) (Program.userSettings? environment) options.settings
  let settings := gathered.result.toOption.getD .empty
  let imagesFound ← lookupAll (imagePaths settings options.command)
  let world : World := ⟨answers (settingsFound ++ imagesFound), environment, .empty⟩
  let run := Program.run world options
  let time := toString (← IO.monoMsNow)
  IO.eprint (Program.shown (Program.logStyle options) time run)
  IO.print (Program.output run)
  return (Program.exitCode run).toUInt32

def start (arguments : List String) : IO UInt32 := do
  let values ← watchedVariables.mapM fun name => return (name, ← IO.getEnv name)
  let environment (name : String) : Option String := (values.lookup name).join
  match CommandLine.parse environment arguments with
  | .error refusal =>
    if refusal.isError then IO.eprint refusal.message else IO.print refusal.message
    return refusal.exitCode.toUInt32
  | .ok options => run environment options

end UsbBoot.Main

/-- Run with the arguments of the command line. -/
def main (arguments : List String) : IO UInt32 :=
  UsbBoot.Main.start arguments
