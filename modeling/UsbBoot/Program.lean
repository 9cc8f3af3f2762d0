/-
The program.

A run is given its options and the world: the files, the environment and the bus.  It
gathers the settings, does what it is asked to and ends with an exit code.  What can be
seen of it goes three ways: text for whoever reads the output, lines and log for the
user, and calls to the USB stack.
-/
import UsbBoot.CommandLine.Options
import UsbBoot.Completion
import UsbBoot.Image.Summary
import UsbBoot.Image.Writer
import UsbBoot.Job.Run
import UsbBoot.Settings.Sources

namespace UsbBoot

/-- What a run finds. -/
structure World where
  /-- What comes of looking for a file. -/
  files : String → Lookup
  environment : String → Option String
  bus : Usb.Bus

namespace Program

/-! ### Settings -/

/-- The directory for the user's own settings: the one that the environment names, if it
names one by a full path, or else the usual place in the user's home. -/
def settingsDirectory? (environment : String → Option String) : Option String :=
  match (environment "XDG_CONFIG_HOME").filter (·.toList.head? == some '/') with
  | some directory => some directory
  | none => ((environment "HOME").filter (!·.isEmpty)).map (· ++ "/.config")

/-- The user's own settings file. -/
def userSettings? (environment : String → Option String) : Option String :=
  (settingsDirectory? environment).map Settings.userPath

/-! ### Commands -/

/-- Write a value as the answer to a request that went well. -/
def answer (data : Json.Value) : Stage Report Unit :=
  .emit [.print ((Json.success data).render 0 ++ "\n")]

def showImage (files : String → Lookup) (path : String) (format : ImageFormat) :
    Stage Report Unit := do
  let image ← Image.load files path
  match format with
  | .summary => .tell (image.summary path)
  | .json => answer image.summaryObject
  | .ihex => .emit [.print (String.ofList (image.write Image.defaultRecordLength))]

def listDevices (bus : Usb.Bus) (settings : Settings) (json knownOnly : Bool) :
    Stage Report Unit := do
  .note settings.tableNotes
  let table ← .ofExcept (settings.table.mapError Settings.Fault.report)
  let attached ← bus.list.mapError fun failure =>
    (Report.ofFailure failure).within "Failed to enumerate USB devices"
  let devices := if knownOnly then table.known attached else attached
  if json then answer (Device.listingObject table devices)
  else do
    .tell (Device.listing table knownOnly devices)
    .note (Device.resolveNotes table Device.anyKnown devices)
    .tell (Device.choiceLines table devices)

/-- How it is told that no shell was named and none could be found out. -/
def noShell : Report :=
  .of (.usage
    "could not detect your shell, specify it explicitly, e.g.: ezload completions bash")

/-- The shell that is named, or else the user's own. -/
def shellFor (environment : String → Option String) (named : Option Shell) : Option Shell :=
  named <|> (environment "SHELL").bind Shell.ofPath?

def complete (environment : String → Option String) (named : Option Shell) :
    Stage Report Unit :=
  match shellFor environment named with
  | none => .fail noShell
  | some shell => .emit [.print (Completion.script shell)]

def perform (world : World) (settings : Settings) (options : Options) : Stage Report Unit :=
  match options.command with
  | .load job =>
    job.run world.files world.bus settings (world.environment Job.deviceVariable) options.quiet
  | .info firmware format => showImage world.files firmware format
  | .listDevices json known => listDevices world.bus settings json known
  | .completions shell => complete world.environment shell

/-- The line of the log that every run begins with. -/
def greeting (options : Options) : Log.Line :=
  .debug .program (CommandLine.programName ++ " v" ++ CommandLine.programVersion ++
    " (verbose level: " ++ toString options.verbose ++ ")")

def run (world : World) (options : Options) : Stage Report Unit := do
  .note [greeting options]
  let settings ← Settings.gather world.files (userSettings? world.environment) options.settings
  perform world settings options

/-! ### What is seen of a run -/

def exitCode (run : Stage Report Unit) : Nat :=
  match run.result with
  | .ok () => 0
  | .error report => report.exitCode

/-- All that is seen; how a run failed is told last. -/
def effects (run : Stage Report Unit) : List Effect :=
  match run.result with
  | .ok () => run.effects
  | .error report => run.effects ++ [.tell ("Error: " ++ report.message)]

/-- Which lines of the log are shown and how. -/
def logStyle (options : Options) : Log.Style where
  threshold :=
    if options.quiet then .warn
    else match options.verbose with
      | 0 => .info
      | 1 => .debug
      | _ => .trace
  detailed := 2 ≤ options.verbose

/-- The text an effect adds to the output. -/
def outputOf : Effect → String
  | .print text => text
  | .log _ | .tell _ | .call _ => ""

/-- The text an effect adds to what the user sees; `time` stands for the moment. -/
def shownOf (style : Log.Style) (time : String) : Effect → String
  | .log line =>
    if line.level.isShownAt style.threshold then line.render style.detailed time else ""
  | .tell line => line ++ "\n"
  | .print _ | .call _ => ""

/-- The call that an effect is. -/
def callOf? : Effect → Option Usb.Call
  | .call call => some call
  | .log _ | .tell _ | .print _ => none

def output (run : Stage Report Unit) : String :=
  String.join ((effects run).map outputOf)

/-- What the user sees of a run. -/
def shown (style : Log.Style) (time : String) (run : Stage Report Unit) : String :=
  String.join ((effects run).map (shownOf style time))

def calls (run : Stage Report Unit) : List Usb.Call :=
  (effects run).filterMap callOf?

end Program
end UsbBoot
