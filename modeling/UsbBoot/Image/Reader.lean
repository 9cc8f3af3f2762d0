/-
Reading an image.

Lines are taken one after the other.  Blank lines and comments are passed over; every
other line has to be a record.  The reader holds the base address in force, the segments
it has closed and the one it is adding to.  A data record must lie within the address
space and apart from all bytes read so far; it is added to the open segment if it starts
just where that one ends, and opens a segment of its own if not.  The record that ends
the image ends the reading: nothing after it is looked at.

One line is classified without regard to the others (`Entry.ofLine`), and one record is
taken in without regard to lines (`State.take`).  The loop in between only counts.
-/
import UsbBoot.Failure
import UsbBoot.Image.Basic
import UsbBoot.Image.Source
import UsbBoot.Log
import UsbBoot.Record.Line

namespace UsbBoot.Image

/-- What one line of a file holds. -/
inductive Entry
  /-- A blank line or a comment. -/
  | nothing
  | record (record : Record)
  | malformed (fault : Record.Fault)
  deriving DecidableEq, Repr

/-- The byte that begins a comment. -/
def commentMark : UInt8 := 0x23

/-- What a line holds.  A line that is no text counts as one with a bad digit. -/
def Entry.ofLine (line : List UInt8) : Entry :=
  match Text.trimBytes line with
  | [] => .nothing
  | first :: rest =>
    if first = commentMark then .nothing
    else match Text.decode (first :: rest) with
      | none => .malformed .invalidDigit
      | some text =>
        match Record.parse text with
        | .error fault => .malformed fault
        | .ok found => .record found

/-- What the reader holds between two lines. -/
structure State where
  /-- The base address in force. -/
  base : UInt32
  /-- The segments that are finished, in file order. -/
  closed : List Segment
  /-- The segment that may still grow. -/
  current : Option Segment
  deriving DecidableEq, Repr

namespace State

/-- The reader before the first line. -/
def initial : State :=
  ⟨0, [], none⟩

def segments (state : State) : List Segment :=
  state.closed ++ state.current.toList

/-- Take in bytes that were found to lie apart from all others. -/
def add (state : State) (address : UInt32) (bytes : List UInt8) : State :=
  match state.current with
  | some segment =>
    if segment.stop = address.toNat then { state with current := some (segment.extend bytes) }
    else ⟨state.base, state.closed ++ [segment], some ⟨address, bytes⟩⟩
  | none => { state with current := some ⟨address, bytes⟩ }

/-- Take in the bytes of a data record on the given line. -/
def takeData (state : State) (line : Nat) (offset : UInt16) (bytes : List UInt8) :
    Except Failure State :=
  -- A record that carries nothing may lie anywhere, even where others do.
  if bytes.isEmpty then .ok state
  else
    let address := state.base + offset.toUInt32
    if addressLimit < address.toNat + bytes.length then .error (.malformed line .pastEnd)
    else if state.segments.any (Segment.meets · address bytes.length) then
      .error (.overlapping address)
    else .ok (state.add address bytes)

/-- Take in a record on the given line; the record that ends the image changes nothing. -/
def take (state : State) (line : Nat) (record : Record) : Except Failure State :=
  match record.kind with
  | .data => state.takeData line record.address record.payload
  | .extendedSegment | .extendedLinear => .ok { state with base := record.base?.getD 0 }
  | .endOfFile | .other _ => .ok state

end State

/-- What a source that never brought the end of the image leads to. -/
def Ending.failure : Ending → Failure
  | .complete => .truncated
  | .failed text => .io text

/-- Read the lines from the given number on. -/
def readLines (ending : Ending) : State → Nat → List (List UInt8) → Except Failure Image
  | _, _, [] => .error ending.failure
  | state, number, line :: rest =>
    match Entry.ofLine line with
    | .nothing => readLines ending state (number + 1) rest
    | .malformed fault => .error (.malformed number fault)
    | .record record =>
      -- The lines behind this one may hold anything.
      if record.kind = .endOfFile then .ok ⟨state.segments⟩
      else match state.take number record with
        | .error failure => .error failure
        | .ok state => readLines ending state (number + 1) rest

def read (source : Source) : Except Failure Image :=
  readLines source.ending .initial 1 source.lines

/-! ### What the log says meanwhile -/

/-- The lines logged for a record that was taken in on the given line. -/
def noteRecord (number : Nat) (record : Record) : List Log.Line :=
  match record.kind with
  | .extendedSegment | .extendedLinear =>
    [.trace .image ("Base address now 0x" ++ Text.upperHex 8 (record.base?.getD 0).toNat)]
  | .other tag =>
    [.trace .image ("Ignoring record type " ++ Text.upperHex 2 tag.toNat ++ " on line " ++
      toString number)]
  | .data | .endOfFile => []

/-- The line logged for a finished image. -/
def noteImage (image : Image) : Log.Line :=
  .debug .image ("Parsed " ++ toString image.segments.length ++ " segment(s), " ++
    toString image.length ++ " bytes")

/-- The lines logged while the lines from the given number on are read. -/
def noteLines : State → Nat → List (List UInt8) → List Log.Line
  | _, _, [] => []
  | state, number, line :: rest =>
    match Entry.ofLine line with
    | .nothing => noteLines state (number + 1) rest
    | .malformed _ => []
    | .record record =>
      if record.kind = .endOfFile then [noteImage ⟨state.segments⟩]
      else match state.take number record with
        | .error _ => []
        | .ok state => noteRecord number record ++ noteLines state (number + 1) rest

/-- The lines logged while an image is read. -/
def readNotes (source : Source) : List Log.Line :=
  noteLines .initial 1 source.lines

end UsbBoot.Image
