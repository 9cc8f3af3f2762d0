/-
An image in short: how many bytes lie where, and which parts hold it without a loader.
-/
import UsbBoot.Chunk
import UsbBoot.Json.Value

namespace UsbBoot.Image

/-- The first and the last address of a segment, in base sixteen.  Of a segment without bytes
the last address is the one before the first, if there is one. -/
def addresses (segment : Segment) : String × String :=
  ("0x" ++ Text.upperHex 4 segment.base.toNat, "0x" ++ Text.upperHex 4 (segment.stop - 1))

/-- A segment as a line of text. -/
def segmentLine (index : Nat) (segment : Segment) : String :=
  let (first, last) := addresses segment
  "  [" ++ Text.padLeft 2 ' ' (toString index) ++ "] " ++ first ++ " - " ++ last ++ " (" ++
    toString segment.length ++ " bytes)"

def familiesLine (families : List Chip.Family) : String :=
  if families.isEmpty then "none (needs a second-stage loader)"
  else ", ".intercalate (families.map Chip.Family.display)

def summary (path : String) (image : Image) : List String :=
  ["Firmware Information",
   "  File: " ++ path,
   "  Segments: " ++ toString image.segments.length,
   "  Total size: " ++ toString image.length ++ " bytes",
   "",
   "Segments"] ++
  (image.segments.zipIdx.map fun entry => segmentLine entry.2 entry.1) ++
  ["", "  Fits on-chip RAM of: " ++ familiesLine image.fittingFamilies]

def segmentObject (segment : Segment) : Json.Value :=
  .object [("address", .string (addresses segment).1), ("length", .number segment.length)]

def summaryObject (image : Image) : Json.Value :=
  .object [
    ("fits_on_chip", .array (image.fittingFamilies.map fun family => .string family.token)),
    ("segment_count", .number image.segments.length),
    ("segments", .array (image.segments.map segmentObject)),
    ("total_size", .number image.length)]

end UsbBoot.Image
