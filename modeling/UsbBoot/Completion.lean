/-
Completion scripts.

A script tells a shell which words may follow the program's name.
-/
import UsbBoot.CommandLine.Scan

namespace UsbBoot.Completion

/-- The words for the commands. -/
def words : List String :=
  CommandLine.Level.commands.map CommandLine.Level.token ++ [CommandLine.Level.helpToken]

/-- The words with something between. -/
def joined (between : String) : String :=
  between.intercalate words

/-- The script for a shell. -/
def script (shell : Shell) : String :=
  let name := CommandLine.programName
  match shell with
  | .bash => "complete -W \"" ++ joined " " ++ "\" " ++ name ++ "\n"
  | .elvish => "set edit:completion:arg-completer[" ++ name ++ "] = \x7b|@words| put " ++
      joined " " ++ " \x7d\n"
  | .fish => "complete -c " ++ name ++ " -f -n __fish_use_subcommand -a \"" ++ joined " " ++
      "\"\n"
  | .powershell => "Register-ArgumentCompleter -Native -CommandName " ++ name ++
      " -ScriptBlock \x7b '" ++ joined "', '" ++ "' \x7d\n"
  | .zsh => "#compdef " ++ name ++ "\n_arguments '1:command:(" ++ joined " " ++ ")'\n"

end UsbBoot.Completion
