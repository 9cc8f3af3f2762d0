/-
What is shown in place of a run.
-/
import UsbBoot.CommandLine.Scan

namespace UsbBoot.CommandLine

def usage : String :=
  "Usage: " ++ programName ++ " [OPTIONS] <COMMAND>\n\n" ++
  "Commands:\n" ++
  "  load          Load firmware into a device\n" ++
  "  info          Show information about an Intel HEX file\n" ++
  "  list-devices  List attached USB devices\n" ++
  "  completions   Generate shell completion scripts\n\n" ++
  "Options:\n" ++
  "  -v, --verbose        Tell more\n" ++
  "  -q, --quiet          Tell less\n" ++
  "      --config <PATH>  Use this configuration file\n" ++
  "  -h, --help           Show this text\n" ++
  "  -V, --version        Show the version\n"

def Refusal.message : Refusal → String
  | .help | .nothingAsked => usage
  | .version text => text
  | .noCommand => "error: a command is needed\n"
  | .unknownCommand => "error: there is no such command\n"
  | .unknownArgument => "error: there is no such argument\n"
  | .missingArgument => "error: a required argument was not given\n"
  | .conflict => "error: the arguments do not go together\n"
  | .needlessValue => "error: a flag takes no value\n"
  | .invalidValue => "error: a value is missing or not allowed\n"
  | .unreadableValue complaint => "error: a value cannot be read: " ++ complaint ++ "\n"

end UsbBoot.CommandLine
