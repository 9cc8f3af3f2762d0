/-
What the arguments ask for.

A command's arguments are completed from the environment, then checked against each
other, and last it is seen whether one is missing.  An argument that all levels have may
stand before the command or after it, and the one after it counts.
-/
import UsbBoot.CommandLine.Scan
import UsbBoot.Job.Basic

namespace UsbBoot

/-- How an image is shown. -/
inductive ImageFormat
  /-- In short, for the user. -/
  | summary
  /-- In short, for a program. -/
  | json
  /-- As Intel HEX. -/
  | ihex
  deriving DecidableEq, Repr

/-- What the program is to do. -/
inductive Command
  | load (job : Job)
  | info (firmware : String) (format : ImageFormat)
  /-- List the attached devices, maybe for a program, maybe the known ones only. -/
  | listDevices (json known : Bool)
  | completions (shell : Option Shell)
  deriving DecidableEq, Repr

/-- What the user asks for. -/
structure Options where
  /-- How much more is to be told than usual. -/
  verbose : Nat
  /-- Whether only what matters is to be told. -/
  quiet : Bool
  settings : Option String
  command : Command
  deriving DecidableEq, Repr

namespace CommandLine

/-! ### Values by what they are -/

/-- The path an argument gives. -/
def Given.path? (given : Given) (name : Name) : Option String :=
  match given.get? name with
  | some (.path text) => some text
  | _ => none

def Given.byte? (given : Given) : Option UInt8 :=
  match given.get? .configByte with
  | some (.byte value) => some value
  | _ => none

def Given.family? (given : Given) : Option Chip.Family :=
  match given.get? .family with
  | some (.family family) => some family
  | _ => none

def Given.device? (given : Given) : Option Device.Id :=
  match given.get? .device with
  | some (.device id) => some id
  | _ => none

def Given.shell? (given : Given) : Option Shell :=
  match given.get? .shell with
  | some (.shell shell) => some shell
  | _ => none

/-! ### A command -/

/-- The variables of the environment that stand in for arguments. -/
def standIns : List (Name × String) :=
  [(.loader, "EZLOAD_LOADER"), (.family, "EZLOAD_TYPE"), (.device, "EZLOAD_DEVICE")]

/-- Complete what was given from the environment. -/
def Given.complete (environment : String → Option String) (given : Given) :
    Except Refusal Given :=
  standIns.foldlM (fun given entry =>
    if given.has entry.1 then .ok given
    else match environment entry.2 with
      | none => .ok given
      | some text => given.put entry.1 text) given

/-- The command that a level's arguments ask for. -/
def commandOf (environment : String → Option String) (level : Level) (given : Given) :
    Except Refusal Command :=
  match level with
  | .program => .error .noCommand
  | .load => do
    let given ← given.complete environment
    match given.path? .firmware with
    | none => .error .missingArgument
    | some firmware =>
      return .load ⟨firmware, given.path? .loader, given.byte?, given.family?, given.device?⟩
  | .info =>
    if given.has .json && given.has .ihex then .error .conflict
    else match given.path? .firmware with
      | none => .error .missingArgument
      | some firmware =>
        .ok (.info firmware
          (if given.has .json then .json else if given.has .ihex then .ihex else .summary))
  | .listDevices => .ok (.listDevices (given.has .json) (given.has .known))
  | .completions => .ok (.completions given.shell?)

/-- What comes of asking for help on the commands with these words. -/
def helpOn : List String → Refusal
  | [] => .help
  | [word] => if Level.isCommand word then .help else .unknownCommand
  | _ => .unknownCommand

/-- The arguments after a command's word: what its level was given, and the command. -/
def parseCommand (environment : String → Option String) (word : String) (rest : List String) :
    Except Refusal (Given × Command) :=
  match Level.ofToken? word with
  | none => .error (helpOn rest)
  | some level => do
    let scanned ← scan level false .nothing rest
    let given ← scanned.given.settle
    return (given, ← commandOf environment level given)

/-! ### The whole -/

/-- The most that verbosity counts up to. -/
def verboseLimit : Nat := 255

/-- The options, of what was given before the command and after it. -/
def optionsOf (outer inner : Given) (command : Command) : Options where
  verbose :=
    let level := if inner.has .verbose then inner else outer
    min (level.count .verbose) verboseLimit
  quiet := inner.has .quiet || outer.has .quiet
  settings := inner.path? .settings <|> outer.path? .settings
  command := command

def parse (environment : String → Option String) (arguments : List String) :
    Except Refusal Options := do
  let scanned ← scan .program false .nothing arguments
  match scanned.command with
  | some (word, rest) =>
    let (inner, command) ← parseCommand environment word rest
    let outer ← scanned.given.settle
    return optionsOf outer inner command
  | none =>
    let outer ← scanned.given.settle
    if outer.values.isEmpty then .error .nothingAsked else .error .noCommand

end CommandLine
end UsbBoot
