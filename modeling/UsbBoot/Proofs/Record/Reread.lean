/-
Records read back from their own lines.

The fields of a record may be changed after its checksum was made, and its line is written from
whatever they are.  So a record may be one that no line stands for: with more payload than its
count byte can state, with a checksum of other fields, of a kind whose tag stands for another,
or setting the base with anything but two bytes.  What is read from such a line is told here.
The count is compared first, so that a payload which is too long is found by it whatever the
checksum is; the checksum comes next, and is compared with the one that the fields call for,
since they are what the line spells.
-/
import UsbBoot.Proofs.Record.Grammar

namespace UsbBoot.Record

/-- A kind is not the one its tag is read as only if it takes the tag of another for its own. -/
theorem Kind.isCanonical_iff (kind : Kind) :
    kind.IsCanonical ↔ ∀ tag ∈ [0x00, 0x01, 0x02, 0x04], kind ≠ .other tag := by
  cases kind with
  | data | endOfFile | extendedSegment | extendedLinear =>
      exact ⟨fun _ => by simp, fun _ => by decide⟩
  | other tag =>
      rw [IsCanonical, Kind.tag, ofTag]
      split_ifs <;> simp_all

theorem Kind.IsCanonical.setsBase_iff {kind : Kind} (h : kind.IsCanonical) :
    kind.setsBase = true ↔ kind.tag = 0x02 ∨ kind.tag = 0x04 := by
  have hkind : ofTag kind.tag = kind := h
  rw [← setsBase_ofTag_iff, hkind]

theorem legible_iff (record : Record) :
    record.Legible ↔ record.isSound = true ∧ record.payload.length ≤ 255 ∧
      record.kind.IsCanonical ∧
      (record.kind.tag = 0x02 ∨ record.kind.tag = 0x04 → record.payload.length = 2) := by
  constructor
  · intro h
    exact ⟨h.sound, Nat.le_of_lt_succ h.short, h.canonical,
      fun htag => h.base (h.canonical.setsBase_iff.mpr htag)⟩
  · rintro ⟨hsound, hshort, hcanonical, hbase⟩
    exact ⟨Nat.lt_succ_of_le hshort, hsound, hcanonical,
      fun hsets => hbase (hcanonical.setsBase_iff.mp hsets)⟩

/-- A payload that is too long goes on behind where its count says it ends. -/
theorem ofBytes_of_long {record : Record} (h : 255 < record.payload.length) :
    ofBytes record.bytes = .error .trailing := by
  have hcount : record.payload.length.toUInt8.toNat = record.payload.length % 256 := by
    rw [Nat.toUInt8_eq, UInt8.toNat_ofNat']
  refine @ofBytes_of_many record.bytes record.payload.length.toUInt8 rfl ?_
  rw [hcount, bytes_eq]
  simp only [List.length_cons, List.length_append, List.length_nil]
  omega

theorem ofBytes_of_stale {record : Record} (hshort : record.payload.length ≤ 255)
    (hstale : record.isSound = false) :
    ofBytes record.bytes = .error (.checksum record.expectedChecksum record.checksum) := by
  have hcount : record.payload.length = record.payload.length.toUInt8.toNat := by
    rw [Nat.toUInt8_eq, UInt8.toNat_ofNat']
    omega
  have hdiffer : record.checksum ≠ record.expectedChecksum := by
    intro heq
    rw [record.isSound_iff.mpr heq] at hstale
    cases hstale
  rw [bytes_eq, ofBytes_counted _ _ _ _ hcount]
  exact if_pos hdiffer

/--
**Which records are read back from their own lines.**

A record is read back, with its checksum, exactly if the checksum is the one its fields call
for, the payload has no more than 255 bytes, the kind is the one its tag stands for, and the
payload has two bytes if the kind sets the base.  A longer payload goes on behind the end of the
record, and a checksum of other fields is told together with the right one.
-/
theorem parse_line_exact (record : Record) :
    (parse record.line = .ok record ↔
      record.isSound = true ∧ record.payload.length ≤ 255 ∧ record.kind.IsCanonical ∧
        (record.kind.tag = 0x02 ∨ record.kind.tag = 0x04 → record.payload.length = 2)) ∧
    (record.kind.IsCanonical ↔ ∀ tag ∈ [0x00, 0x01, 0x02, 0x04], record.kind ≠ .other tag) ∧
    (255 < record.payload.length → parse record.line = .error .trailing) ∧
    (record.payload.length ≤ 255 → record.isSound = false →
      parse record.line = .error (.checksum record.expectedChecksum record.checksum)) := by
  refine ⟨?_, record.kind.isCanonical_iff, fun hlong => ?_, fun hshort hstale => ?_⟩
  · rw [← legible_iff]
    exact ⟨legible_of_parse, parse_line⟩
  · rw [parse_line_eq, ofBytes_of_long hlong]
  · rw [parse_line_eq, ofBytes_of_stale hshort hstale]

/-- A record with another payload put in, and with one whose length starts over at zero. -/
theorem parse_line_exact_changed :
    let record := Record.data 0x0030 [0x02, 0x33]
    let changed : Record := { record with payload := [0x02, 0x34, 0x00] }
    let endless : Record := { record with payload := List.replicate 256 0x00 }
    parse record.line = .ok record ∧
    changed.payload.length ≤ 255 ∧ changed.isSound = false ∧
    parse changed.line = .error (.checksum changed.expectedChecksum changed.checksum) ∧
    255 < endless.payload.length ∧ parse endless.line = .error .trailing := by
  intro record changed endless
  have hread : parse record.line = .ok record :=
    (parse_line_exact record).1.mpr (by decide +kernel)
  have hshort : changed.payload.length ≤ 255 := by decide
  have hstale : changed.isSound = false := by decide +kernel
  have hlong : 255 < endless.payload.length := by decide +kernel
  exact ⟨hread, hshort, hstale, (parse_line_exact changed).2.2.2 hshort hstale, hlong,
    (parse_line_exact endless).2.2.1 hlong⟩

end UsbBoot.Record
