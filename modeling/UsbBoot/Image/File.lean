/-
Reading an image from a file.
-/
import UsbBoot.Effect
import UsbBoot.Files
import UsbBoot.Image.Reader
import UsbBoot.Report

namespace UsbBoot.Image

/-- The image in a file. -/
def ofLookup (lookup : Lookup) : Except Failure Image :=
  match lookup.bytes with
  | .error text => .error (.io text)
  | .ok bytes => read ⟨bytes, .complete⟩

/-- What is said while a file is read. -/
def lookupNotes (lookup : Lookup) : List Log.Line :=
  match lookup.bytes with
  | .error _ => []
  | .ok bytes => readNotes ⟨bytes, .complete⟩

/-- Read the image at a path. -/
def load (files : String → Lookup) (path : String) : Stage Report Image := do
  .note (.debug .image ("Loading Intel HEX image from " ++ path) :: lookupNotes (files path))
  .ofExcept ((ofLookup (files path)).mapError fun failure =>
    (Report.ofFailure failure).within ("Failed to load firmware " ++ path))

end UsbBoot.Image
