/-
The arguments there are.

The program has a level of its own and one for each of its commands.  A level says which
long words and which letters stand for what; some arguments are flags, others take a
value, and two commands have an argument that is told by its place alone.
-/
import UsbBoot.Device.Id
import UsbBoot.Chip.Family
import UsbBoot.Eeprom.ConfigByte
import UsbBoot.Shell

namespace UsbBoot.CommandLine

/-- What an argument is about. -/
inductive Name
  | verbose
  | quiet
  | settings
  | help
  | version
  | firmware
  | loader
  | configByte
  | family
  | device
  | json
  | ihex
  | known
  | shell
  deriving DecidableEq, Repr

/-- Where arguments are given. -/
inductive Level
  /-- In front of the command. -/
  | program
  /-- After `load`. -/
  | load
  /-- After `info`. -/
  | info
  /-- After `list-devices`. -/
  | listDevices
  /-- After `completions`. -/
  | completions
  deriving DecidableEq, Repr

/-- Why arguments do not lead to a run. -/
inductive Refusal
  /-- Help was asked for. -/
  | help
  /-- The version was asked for. -/
  | version (text : String)
  /-- Nothing was asked for, so help is shown. -/
  | nothingAsked
  | noCommand
  | unknownCommand
  | unknownArgument
  | missingArgument
  /-- Arguments do not go together, or one was given twice. -/
  | conflict
  /-- A flag was given a value. -/
  | needlessValue
  /-- A value is missing, empty or none of those there are. -/
  | invalidValue
  /-- A value cannot be read, for the reason that is told. -/
  | unreadableValue (complaint : String)
  deriving DecidableEq, Repr

namespace Refusal

/-- Whether something is wrong; asking for help or the version is not. -/
def isError : Refusal → Bool
  | .help | .version _ => false
  | _ => true

def exitCode (refusal : Refusal) : Nat :=
  if refusal.isError then 2 else 0

end Refusal

/-! ### Levels -/

namespace Level

/-- The word for a command. -/
def token : Level → String
  | .program => ""
  | .load => "load"
  | .info => "info"
  | .listDevices => "list-devices"
  | .completions => "completions"

def commands : List Level := [.load, .info, .listDevices, .completions]

/-- The command with exactly this word. -/
def ofToken? (token : String) : Option Level :=
  commands.find? (·.token == token)

/-- The command that shows help, which has no level of its own. -/
def helpToken : String := "help"

/-- Whether a word is that of a command. -/
def isCommand (word : String) : Bool :=
  word == helpToken || (ofToken? word).isSome

/-- The long words for the arguments that all levels have. -/
def sharedWords : List (String × Name) :=
  [("verbose", .verbose), ("quiet", .quiet), ("config", .settings), ("help", .help),
   ("version", .version)]

/-- The letters for the arguments that all levels have. -/
def sharedLetters : List (Char × Name) :=
  [('v', .verbose), ('q', .quiet), ('h', .help), ('V', .version)]

/-- The long words for a level's own arguments. -/
def ownWords : Level → List (String × Name)
  | .program | .completions => []
  | .load => [("firmware", .firmware), ("loader", .loader), ("config-byte", .configByte),
      ("type", .family), ("device", .device)]
  | .info => [("json", .json), ("ihex", .ihex)]
  | .listDevices => [("json", .json), ("known", .known)]

/-- The letters for a level's own arguments. -/
def ownLetters : Level → List (Char × Name)
  | .load => [('I', .firmware), ('s', .loader), ('c', .configByte), ('t', .family),
      ('D', .device)]
  | _ => []

/-- The argument a long word stands for. -/
def word? (level : Level) (word : String) : Option Name :=
  (level.ownWords ++ sharedWords).lookup word

/-- The argument a letter stands for. -/
def letter? (level : Level) (letter : Char) : Option Name :=
  (level.ownLetters ++ sharedLetters).lookup letter

/-- The argument that is told by its place. -/
def placed? : Level → Option Name
  | .info => some .firmware
  | .completions => some .shell
  | _ => none

end Level

/-! ### Values -/

/-- The value of an argument. -/
inductive Value
  /-- That of a flag: it is there. -/
  | flag
  | path (text : String)
  | byte (value : UInt8)
  | family (family : Chip.Family)
  | device (id : Device.Id)
  | shell (shell : Shell)
  deriving DecidableEq, Repr

namespace Name

/-- Whether an argument takes a value. -/
def takesValue : Name → Bool
  | .settings | .firmware | .loader | .configByte | .family | .device | .shell => true
  | .verbose | .quiet | .help | .version | .json | .ihex | .known => false

/-- Whether an argument may be given more than once; then it counts how often. -/
def repeats (name : Name) : Bool :=
  name == .verbose

/-- A value or a refusal. -/
def orRefuse (refusal : Refusal) : Option Value → Except Refusal Value
  | some value => .ok value
  | none => .error refusal

/-- Read the value of an argument. -/
def read (name : Name) (text : String) : Except Refusal Value :=
  match name with
  | .settings | .firmware | .loader =>
    if text.isEmpty then .error .invalidValue else .ok (.path text)
  | .configByte =>
    orRefuse (.unreadableValue (Eeprom.configByteComplaint text))
      ((Eeprom.readConfigByte? text).map .byte)
  | .family => orRefuse .invalidValue ((Chip.Family.ofToken? text).map .family)
  | .device =>
    match Device.Id.read text with
    | .error fault => .error (.unreadableValue fault.message)
    | .ok id => .ok (.device id)
  | .shell => orRefuse .invalidValue ((Shell.ofToken? text).map .shell)
  | .verbose | .quiet | .help | .version | .json | .ihex | .known => .ok .flag

end Name
end UsbBoot.CommandLine
