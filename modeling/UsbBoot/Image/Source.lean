/-
Where an image is read from.

A source delivers bytes and then ends, or delivers bytes and then fails.  It is read by
lines.  A line is complete once the line feed after it was delivered, or once the source
has ended; so what stands after the last line feed is a line of a source that ends and
is lost when the source fails.
-/
import UsbBoot.Text.Utf8

namespace UsbBoot.Image

/-- What comes after the bytes of a source. -/
inductive Ending
  /-- Nothing: the source is at its end. -/
  | complete
  /-- Every further attempt to read fails, as the system words it. -/
  | failed (text : String)
  deriving DecidableEq, Repr

/-- The bytes of an image file, and how they end. -/
structure Source where
  bytes : List UInt8
  ending : Ending
  deriving DecidableEq, Repr

/-- The byte between lines. -/
def lineFeed : UInt8 := 0x0A

/-- The lines each followed by a line feed, and the bytes after the last of them. -/
def splitLines : List UInt8 → List (List UInt8) × List UInt8
  | [] => ([], [])
  | byte :: rest =>
    match splitLines rest with
    | (lines, tail) =>
      if byte = lineFeed then ([] :: lines, tail)
      else match lines with
        | [] => ([], byte :: tail)
        | line :: lines => ((byte :: line) :: lines, tail)

namespace Source

/-- A source that holds a text and ends. -/
def ofText (text : List Char) : Source :=
  ⟨Text.encode text, .complete⟩

/-- The lines a source delivers before it ends or fails. -/
def lines (source : Source) : List (List UInt8) :=
  match splitLines source.bytes with
  | (lines, []) => lines
  | (lines, tail) =>
    match source.ending with
    | .complete => lines ++ [tail]
    | .failed _ => lines

end Source
end UsbBoot.Image
