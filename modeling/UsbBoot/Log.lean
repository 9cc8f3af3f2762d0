/-
Log lines.

A line has a level, the part of the program that speaks, and a text.  Parts that compute
return their lines beside their results; only the outermost part decides which of them
are shown, and in which of the two layouts.  A text may quote what somebody else wrote: in
the log it can neither begin a line of its own nor steer the terminal.
-/
import UsbBoot.Text.Control
import UsbBoot.Text.Number

namespace UsbBoot.Log

/-- How much a line matters, the weightiest first. -/
inductive Level
  | warn
  | info
  | debug
  | trace
  deriving DecidableEq, Repr

namespace Level

/-- The place of a level in the order from weighty to light. -/
def rank : Level → Nat
  | .warn => 2
  | .info => 3
  | .debug => 4
  | .trace => 5

def name : Level → String
  | .warn => "WARN"
  | .info => "INFO"
  | .debug => "DEBUG"
  | .trace => "TRACE"

/-- Whether lines of `level` are shown where `threshold` is the lightest level wanted. -/
def isShownAt (level threshold : Level) : Bool :=
  level.rank ≤ threshold.rank

end Level

/-- The part of the program a line comes from. -/
inductive Topic
  | program
  | settings
  | loadCommand
  | image
  | devices
  | engine
  | usb
  deriving DecidableEq, Repr

/-- The name of a part, as detailed log lines give it. -/
def Topic.name : Topic → String
  | .program => "ezload"
  | .settings => "ezload::config"
  | .loadCommand => "ezload::commands::load"
  | .image => "ezload::image::segment"
  | .devices => "ezload::device"
  | .engine => "ezload::target::ezusb::flasher"
  | .usb => "ezload::port::native"

structure Line where
  level : Level
  topic : Topic
  text : String
  deriving DecidableEq, Repr

namespace Line

def warn (topic : Topic) (text : String) : Line := ⟨.warn, topic, text⟩
def info (topic : Topic) (text : String) : Line := ⟨.info, topic, text⟩
def debug (topic : Topic) (text : String) : Line := ⟨.debug, topic, text⟩
def trace (topic : Topic) (text : String) : Line := ⟨.trace, topic, text⟩

end Line

/-- Which lines are shown and how. -/
structure Style where
  /-- The lightest level shown. -/
  threshold : Level
  /-- Whether lines name their time and topic. -/
  detailed : Bool
  deriving DecidableEq, Repr

/-- A level's name, filled with blanks to five characters. -/
def Level.column (level : Level) : String :=
  level.name ++ String.ofList (List.replicate (5 - level.name.length) ' ')

/-- How far the text after a line break is moved in. -/
def indentWidth : Nat := 4

/-- A text with all that follows a line break moved in, so that only what begins a line of the
log stands at the margin. -/
def indent (text : List Char) : List Char :=
  text.flatMap fun c =>
    if c = '\n' then c :: List.replicate indentWidth ' ' else [c]

/-- What stands in front of the text of a line; `time` stands for the moment of writing. -/
def Line.heading (detailed : Bool) (time : String) (line : Line) : String :=
  if detailed then "[" ++ time ++ " " ++ line.level.column ++ " " ++ line.topic.name ++ "] "
  else "[" ++ line.level.column ++ "] "

/-- A line as it is shown, with the line break that ends it; `time` stands for the moment of
writing. A control string that the text leaves open takes the line break with it. -/
def Line.render (detailed : Bool) (time : String) (line : Line) : String :=
  let heading := (line.heading detailed time).toList
  String.ofList (Text.withoutControls (heading ++ indent line.text.toList ++ ['\n']))

end UsbBoot.Log
