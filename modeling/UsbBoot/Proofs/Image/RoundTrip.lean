/-
What is written is read back.

The lines of a written image hold its records and come to an end, so the image that is read
from them is what those records say: the segments that hold something, joined where they
touch.  That image is written and read without any further change, and so is every other
one that was read from somewhere.
-/
import UsbBoot.Proofs.Image.Lines
import UsbBoot.Proofs.Image.Reading
import UsbBoot.Proofs.Image.Written
import UsbBoot.Proofs.Output
import UsbBoot.Proofs.Text.Utf8

namespace UsbBoot.Image

/-! ### Lines of a text -/

theorem lineFeed_not_mem_line (record : Record) : lineFeed ∉ Text.encode record.line := by
  rw [Text.encode_of_isGraphic record.isGraphic_line]
  intro hmem
  obtain ⟨c, hc, hbyte⟩ := List.mem_map.mp hmem
  have hgraphic := record.isGraphic_line c hc
  have hvalue := Text.toNat_byteOf hgraphic
  rw [hbyte] at hvalue
  exact absurd (hvalue ▸ hgraphic.1) (by decide)

/-- The lines of records that are each written on a line of its own. -/
theorem lines_ofText (records : List Record) :
    (Source.ofText (records.flatMap fun record => record.line ++ ['\n'])).lines
      = records.map fun record => Text.encode record.line := by
  have hsplit : splitLines (Text.encode (records.flatMap fun record => record.line ++ ['\n']))
      = (records.map fun record => Text.encode record.line, []) := by
    induction records with
    | nil => rfl
    | cons record rest ih =>
        have hencode : Text.encode ((record :: rest).flatMap fun record => record.line ++ ['\n'])
            = Text.encode record.line ++ lineFeed
              :: Text.encode (rest.flatMap fun record => record.line ++ ['\n']) := by
          simp only [Text.encode, List.flatMap_cons, List.flatMap_append, List.append_assoc]
          rfl
        rw [hencode, splitLines_append (lineFeed_not_mem_line record), ih]
        rfl
  rw [Source.lines, Source.ofText, hsplit]

theorem holds_line {record : Record} (h : record.Legible) :
    Holds (Text.encode record.line) record := by
  have hgraphic := record.isGraphic_line
  have htrim := Text.trimBytes_encode_of_isGraphic hgraphic
  have hencode := Text.encode_of_isGraphic hgraphic
  rw [Holds, IsIdle, htrim]
  constructor
  · -- It begins with a colon: it is not blank, and no comment.
    rw [hencode]
    simp [Record.line, Text.byteOf, commentMark]
  · exact ⟨record.line, Text.decode_encode record.line, Record.parse_line h⟩

theorem delivers_lines {records : List Record} (h : ∀ record ∈ records, Goes record) :
    Delivers ((records ++ [Record.endOfFile]).map fun record => Text.encode record.line)
      records := by
  induction records with
  | nil => exact .ended [] (holds_line Record.legible_endOfFile) rfl
  | cons record rest ih =>
      obtain ⟨hfirst, hrest⟩ := List.forall_mem_cons.mp h
      exact .record (holds_line hfirst.legible) hfirst.more (ih hrest)

/-! ### Images -/

/-- **Segments that fit are read back without the empty ones, joined where they touch, if
they lie apart; if they do not, that is found.** -/
theorem read_write (wanted : Nat) {segments : List Segment}
    (hfits : ∀ segment ∈ segments, segment.Fits) :
    ((solidOf segments).Pairwise Segment.Apart →
        read (.ofText (write wanted ⟨segments⟩)) = .ok ⟨joined (solidOf segments)⟩) ∧
      (¬(solidOf segments).Pairwise Segment.Apart →
        ∃ address, read (.ofText (write wanted ⟨segments⟩)) = .error (.overlapping address)) := by
  have hcuts := inForce_initial.segmentRecords (.closest wanted) hfits
  have hdelivers : Delivers (Source.ofText (write wanted ⟨segments⟩)).lines
      (segmentRecords (.closest wanted) 0 segments) := by
    rw [write, lines_ofText]
    exact delivers_lines
      (goes_segmentRecords (.closest wanted) 0 hfits)
  have hread := read_of_delivers hdelivers (hcuts.fits hfits)
  rwa [contents, hcuts.joined, hcuts.apart_iff] at hread

theorem solidOf_of_solid {segments : List Segment}
    (h : ∀ segment ∈ segments, segment.bytes ≠ []) : solidOf segments = segments := by
  refine List.filter_eq_self.mpr fun segment hmem => ?_
  simpa [Segment.isEmpty] using h segment hmem

/-- **An image that was read is read back from what is written of it.** -/
theorem read_write_of_read {source : Source} {image : Image} (h : read source = .ok image)
    (wanted : Nat) : read (.ofText (image.write wanted)) = .ok image := by
  obtain ⟨records, -, hfits, hapart, rfl⟩ := (read_eq_ok_iff source image).mp h
  -- None of its segments is empty and none touches the one before, so nothing is changed.
  have hsolid := solidOf_of_solid (solid_joined (solid_contentsAfter [] records))
  have hjoined : joined (joined (contents records)) = joined (contents records) :=
    @joinAfter_of_isChain none _ (isChain_joinAfter none (contents records))
  have hread := (read_write wanted (fits_joined hfits)).1
  rw [contents, hsolid, ← contents, hjoined] at hread
  exact hread (apart_joined hapart)

/-! ### An image that is shown -/

theorem load_onlyLogs {files : String → Lookup} {path : String} {image : Image}
    (h : ofLookup (files path) = .ok image) : (load files path).OnlyLogs image := by
  refine ⟨Log.Line.debug .image ("Loading Intel HEX image from " ++ path)
    :: lookupNotes (files path), ?_⟩
  rw [load, h]
  exact congrArg (Stage.mk · (.ok image)) (List.append_nil _)

theorem exists_read_of_ofLookup {lookup : Lookup} {image : Image}
    (h : ofLookup lookup = .ok image) : ∃ source, read source = .ok image := by
  rw [ofLookup] at h
  split at h
  · cases h
  · exact ⟨_, h⟩

section Shown

variable {world : World} {options : Options} {path : String}
  (hcommand : options.command = .info path .ihex)
include hcommand

theorem run_prints {image : Image} (h : ofLookup (world.files path) = .ok image) :
    (Program.run world options).result = .ok () ∧
      Program.output (Program.run world options)
        = String.ofList (image.write defaultRecordLength) := by
  obtain ⟨settings, hresult, houtput⟩ := Program.run_performs world options
  have hload := load_onlyLogs h
  rw [hresult, houtput, Program.perform, hcommand]
  dsimp only
  rw [Program.showImage, hload.result, hload.output]
  refine ⟨rfl, ?_⟩
  simp [Program.output, Program.effects, Program.outputOf, Stage.emit]

theorem ofLookup_of_run (h : (Program.run world options).result = .ok ()) :
    ∃ image, ofLookup (world.files path) = .ok image := by
  obtain ⟨settings, hresult, -⟩ := Program.run_performs world options
  rw [hresult, Program.perform, hcommand] at h
  dsimp only at h
  cases hlookup : ofLookup (world.files path) with
  | ok image => exact ⟨image, rfl⟩
  | error failure =>
      rw [Program.showImage, load, hlookup] at h
      cases h

/-- What a run printed is printed again from a file that holds it. -/
theorem run_again (h : (Program.run world options).result = .ok ()) {other : World}
    {again : Options} {printed : String} (hagain : again.command = .info printed .ihex)
    (hfile : other.files printed
      = .found (Text.encode (Program.output (Program.run world options)).toList)) :
    (Program.run other again).result = .ok () ∧
      Program.output (Program.run other again) = Program.output (Program.run world options) := by
  obtain ⟨image, hlookup⟩ := ofLookup_of_run hcommand h
  obtain ⟨source, hread⟩ := exists_read_of_ofLookup hlookup
  have houtput := (run_prints hcommand hlookup).2
  rw [houtput, String.toList_ofList] at hfile
  have hprinted : ofLookup (other.files printed) = .ok image := by
    rw [hfile]
    exact read_write_of_read hread defaultRecordLength
  rw [houtput]
  exact run_prints hagain hprinted

end Shown

/-! ### All of it -/

/-- **Writing and reading bring an image back.**  Segments that fit come back joined and
without the empty ones, however long the records are, unless they overlap; an image that was
read comes back as it is; and what the program printed of an image it prints again. -/
theorem round_trip :
    (∀ (segments : List Segment) (wanted : Nat), (∀ segment ∈ segments, segment.Fits) →
      ((solidOf segments).Pairwise Segment.Apart →
        read (.ofText (write wanted ⟨segments⟩)) = .ok ⟨joined (solidOf segments)⟩) ∧
      (¬(solidOf segments).Pairwise Segment.Apart →
        ∃ address,
          read (.ofText (write wanted ⟨segments⟩)) = .error (.overlapping address))) ∧
    (∀ (source : Source) (image : Image), read source = .ok image →
      ∀ wanted, read (.ofText (image.write wanted)) = .ok image) ∧
    ∀ (world other : World) (options again : Options) (path printed : String),
      options.command = .info path .ihex → again.command = .info printed .ihex →
      (Program.run world options).result = .ok () →
      other.files printed
        = .found (Text.encode (Program.output (Program.run world options)).toList) →
      (Program.run other again).result = .ok () ∧
        Program.output (Program.run other again)
          = Program.output (Program.run world options) := by
  refine ⟨?_, ?_, ?_⟩
  · intro segments wanted hfits
    exact read_write wanted hfits
  · intro source image hread wanted
    exact read_write_of_read hread wanted
  · intro world other options again path printed hcommand hagain hrun hfile
    exact run_again hcommand hrun hagain hfile

/-- Segments over the edge of a page that touch, an empty one between them, and a lower one
behind. -/
def straddling : List Segment :=
  [⟨0xFFFE, [0x01, 0x02, 0x03]⟩, ⟨5, []⟩, ⟨0x10001, [0x04]⟩, ⟨0, [0x05]⟩]

def crossed : List Segment :=
  [⟨0xFFFFFFFE, [0x01, 0x02]⟩, ⟨0xFFFFFFFF, [0x03]⟩]

def resumedWorld : World :=
  ⟨fun _ => .found resumed.bytes, fun _ => none, .empty⟩

def showing (path : String) : Options :=
  ⟨0, false, none, .info path .ihex⟩

/-- The world in which a file holds what was printed. -/
def printedWorld : World :=
  { resumedWorld with
    files := fun _ => .found
      (Text.encode (Program.output (Program.run resumedWorld (showing "one.hex"))).toList) }

theorem round_trip_straddling :
    read (.ofText (write 2 ⟨straddling⟩))
      = .ok ⟨[⟨0xFFFE, [0x01, 0x02, 0x03, 0x04]⟩, ⟨0, [0x05]⟩]⟩ ∧
    (∃ address, read (.ofText (write 2 ⟨crossed⟩)) = .error (.overlapping address)) ∧
    read (.ofText (resumedImage.write 300)) = .ok resumedImage ∧
    (Program.run resumedWorld (showing "one.hex")).result = .ok () ∧
    (Program.run printedWorld (showing "other.hex")).result = .ok () ∧
    Program.output (Program.run printedWorld (showing "other.hex"))
      = Program.output (Program.run resumedWorld (showing "one.hex")) := by
  obtain ⟨hwritten, hread, hrun⟩ := round_trip
  have hlookup : ofLookup (resumedWorld.files "one.hex") = .ok resumedImage := by
    decide +kernel
  have hresumed : (Program.run resumedWorld (showing "one.hex")).result = .ok () :=
    (run_prints rfl hlookup).1
  refine ⟨?_, ?_, ?_, hresumed, ?_⟩
  · exact (hwritten straddling 2 (by decide)).1 (by decide)
  · exact (hwritten crossed 2 (by decide)).2 (by decide)
  · exact hread resumed resumedImage (by decide +kernel) 300
  · exact hrun resumedWorld printedWorld (showing "one.hex") (showing "other.hex") "one.hex"
      "other.hex" rfl rfl hresumed rfl

end UsbBoot.Image
