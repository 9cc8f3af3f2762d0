/-
Going through the arguments of a level.

An argument begins with two hyphens and is a long word, maybe with its value after an
equals sign; or it begins with one hyphen and is a run of letters, the last of which may
have its value right behind it; or it is a plain word.  Two hyphens alone make plain
words of all that follows.

A value that stands in an argument of its own is looked at only when the next argument
has turned out to be one.  So of two faults the later one may be told: a word that is no
argument counts more than the wrong value in front of it.
-/
import UsbBoot.CommandLine.Name

namespace UsbBoot.CommandLine

/-- What a level was given so far. -/
structure Given where
  /-- The arguments and their values, in order. -/
  values : List (Name × Value)
  /-- The last argument, if its value was not looked at yet or is still to come. -/
  pending : Option (Name × Option String)
  deriving DecidableEq, Repr

namespace Given

def nothing : Given :=
  ⟨[], none⟩

def get? (given : Given) (name : Name) : Option Value :=
  given.values.lookup name

def has (given : Given) (name : Name) : Bool :=
  (given.get? name).isSome

def count (given : Given) (name : Name) : Nat :=
  given.values.countP (·.1 == name)

/-- Whether the value of the last argument is still to come. -/
def awaitsValue (given : Given) : Bool :=
  given.pending.any (·.2.isNone)

/-- Take in an argument with its value. -/
def put (given : Given) (name : Name) (text : String) : Except Refusal Given :=
  if !name.repeats && given.has name then .error .conflict
  else match name.read text with
    | .error refusal => .error refusal
    | .ok value => .ok { given with values := given.values ++ [(name, value)] }

/-- Look at the value that was not looked at yet. -/
def settle (given : Given) : Except Refusal Given :=
  match given.pending with
  | none => .ok given
  | some (_, none) => .error .invalidValue
  | some (name, some text) => { given with pending := none }.put name text

/-- Take in an argument whose value is known. -/
def settlePut (given : Given) (name : Name) (text : String) : Except Refusal Given := do
  (← given.settle).put name text

/-- Take in an argument whose value is not looked at yet or is still to come. -/
def postpone (given : Given) (name : Name) (text : Option String) : Except Refusal Given := do
  return { ← given.settle with pending := some (name, text) }

end Given

/-! ### One argument -/

def programName : String := "ezload"

def programVersion : String := "0.1.0"

/-- What is shown when the version is asked for. -/
def Level.versionText (level : Level) : String :=
  let title := if level = .program then programName else programName ++ "-" ++ level.token
  title ++ " " ++ programVersion ++ "\n"

/-- Take in a flag. -/
def Given.raise (level : Level) (given : Given) (name : Name) : Except Refusal Given := do
  let given ← given.settle
  match name with
  | .help => .error .help
  | .version => .error (.version level.versionText)
  | name => given.put name ""

/-- Take in a long word. -/
def Given.takeWord (level : Level) (given : Given) (word : String) (value : Option String) :
    Except Refusal Given :=
  match level.word? word with
  | none => .error .unknownArgument
  | some name =>
    match name.takesValue, value with
    | true, none => given.postpone name none
    | true, some text => given.settlePut name text
    | false, none => given.raise level name
    | false, some _ => .error .needlessValue

/-- Take in a run of letters. -/
def Given.takeLetters (level : Level) : Given → List Char → Except Refusal Given
  | given, [] => .ok given
  | given, letter :: rest =>
    match level.letter? letter with
    | none => .error .unknownArgument
    | some name =>
      if name.takesValue then
        match rest with
        | [] => given.postpone name none
        | '=' :: value => given.settlePut name (String.ofList value)
        | value => given.settlePut name (String.ofList value)
      else do
        Given.takeLetters level (← given.raise level name) rest

/-- Take in a plain word that is no value and no command. -/
def Given.takePlain (level : Level) (afterHyphens : Bool) (given : Given) (word : String) :
    Except Refusal Given :=
  match level.placed? with
  | some name =>
    if given.has name || given.pending.any (·.1 == name) then .error .unknownArgument
    else given.postpone name (some word)
  | none =>
    if level = .program && !(afterHyphens && Level.isCommand word) then .error .unknownCommand
    else .error .unknownArgument

/-- The look of an argument. -/
inductive Shape
  /-- Two hyphens alone. -/
  | hyphens
  /-- A long word, maybe with its value. -/
  | word (word : String) (value : Option String)
  /-- A run of letters. -/
  | letters (letters : List Char)
  /-- A plain word. -/
  | plain
  deriving DecidableEq, Repr

/-- The look of some text. -/
def Shape.of (text : List Char) : Shape :=
  match text with
  | ['-', '-'] => .hyphens
  | '-' :: '-' :: rest =>
    let word := String.ofList (rest.takeWhile (· != '='))
    match rest.dropWhile (· != '=') with
    | [] => .word word none
    | _ :: value => .word word (some (String.ofList value))
  | '-' :: letter :: rest => .letters (letter :: rest)
  | _ => .plain

/-! ### All arguments -/

/-- What the arguments of a level come to. -/
structure Scanned where
  given : Given
  /-- The word of a command, and the arguments after it. -/
  command : Option (String × List String)
  deriving DecidableEq, Repr

/-- Go through the arguments of a level, up to the word of a command if it is the program's
own. -/
def scan (level : Level) : Bool → Given → List String → Except Refusal Scanned
  | _, given, [] => .ok ⟨given, none⟩
  | true, given, text :: rest => do
    scan level true (← given.takePlain level true text) rest
  | false, given, text :: rest =>
    if level = .program && !given.awaitsValue && Level.isCommand text then
      .ok ⟨given, some (text, rest)⟩
    else match Shape.of text.toList with
      | .hyphens => scan level true given rest
      | .word word value => do scan level false (← given.takeWord level word value) rest
      | .letters letters => do scan level false (← given.takeLetters level letters) rest
      | .plain =>
        match given.pending with
        | some (name, none) =>
          scan level false { given with pending := some (name, some text) } rest
        | _ => do scan level false (← given.takePlain level false text) rest

end UsbBoot.CommandLine
