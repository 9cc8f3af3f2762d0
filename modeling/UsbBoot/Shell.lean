/-
The shells that completion scripts are written for.
-/

namespace UsbBoot

inductive Shell
  | bash
  | elvish
  | fish
  | powershell
  | zsh
  deriving DecidableEq, Repr

namespace Shell

def all : List Shell := [.bash, .elvish, .fish, .powershell, .zsh]

def token : Shell → String
  | .bash => "bash"
  | .elvish => "elvish"
  | .fish => "fish"
  | .powershell => "powershell"
  | .zsh => "zsh"

/-- The shell with exactly this token. -/
def ofToken? (token : String) : Option Shell :=
  all.find? (·.token == token)

/-- The last name in a path, if it has one: slashes at the end and parts that stay in place
do not count, and a part that leads up is no name. -/
def lastName? (path : String) : Option String :=
  let parts := (path.toList.splitOn '/').map String.ofList
  match (parts.filter fun part => part != "" && part != ".").getLast? with
  | some ".." => none
  | name => name

/-- The shell that a program's path means. -/
def ofPath? (path : String) : Option Shell :=
  match lastName? path with
  | some "pwsh" => some .powershell
  | some name => ofToken? name
  | none => none

end Shell
end UsbBoot
