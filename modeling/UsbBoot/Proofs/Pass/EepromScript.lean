/-
What an EEPROM pass sends.

All its writes go by one request.  If every record has room for its length and address,
nothing is refused, and the writes are the byte that makes the EEPROM unbootable, a
header and its data for every record, and the header that makes it bootable again.
-/
import UsbBoot.Proofs.Eeprom.Loader
import UsbBoot.Proofs.Pass.Outcome

namespace UsbBoot.Pass

open Device (Identity)
open Eeprom (HasRoom headerBytes recordBytes chunkBytes chunkBytes_cons recordHeader_of_hasRoom
  length_recordBytes)

/-! ### All by one request -/

theorem sends_notes (lines : List Log.Line) : sends (lines.map .note) = [] := by
  induction lines with
  | nil => rfl
  | cons line rest ih => exact ih

theorem sends_eepromScript (profile : Chip.Profile) (identity : Identity)
    (config : Option UInt8) (total : Nat) (list : List Chunk) :
    sends (eepromScript profile identity config total list)
      = sends (eepromTransfers profile identity config total list) := by
  rw [eepromScript_eq, sends_append, sends_notes]
  rfl

/-- Actions that write nothing but the EEPROM. -/
def EepromOnly (actions : List Action) : Prop :=
  ∀ write ∈ sends actions, write.request = .eeprom

theorem eepromOnly_eepromScript (profile : Chip.Profile) (identity : Identity)
    (config : Option UInt8) (total : Nat) (list : List Chunk) :
    EepromOnly (eepromScript profile identity config total list) := by
  rw [EepromOnly, sends_eepromScript]
  exact (transfers_eepromTransfers profile identity config total list).request

/-! ### Nothing is refused -/

theorem feasible_eepromWrite (offset : UInt32) (data : List UInt8) :
    Feasible (eepromWrite offset data) := by
  simp [Feasible, eepromWrite]

theorem feasible_notes (lines : List Log.Line) : Feasible (lines.map .note) := by
  simp [Feasible]

/-- A record with room for its length and address is a header, then its data. -/
theorem recordActions_of_hasRoom {address : UInt32} {data : List UInt8}
    (h : HasRoom data.length address) (offset : UInt32) (last : Bool) (between : List Action) :
    recordActions offset address data last between
      = between ++ eepromWrite offset (headerBytes data.length address last)
        ++ eepromWrite (offset + Eeprom.recordHeaderLength) data := by
  rw [recordActions, recordHeader_of_hasRoom h]

theorem recordActions_of_not_hasRoom {address : UInt32} {data : List UInt8}
    (h : ¬HasRoom data.length address) (offset : UInt32) (last : Bool) (between : List Action) :
    recordActions offset address data last between
      = [.refuse (.outOfRange address data.length)] := by
  have hover : Eeprom.maxRecord < data.length ∨ 0xFFFF < address := by
    rcases Classical.not_and_iff_not_or_not.mp h with hlong | hfar
    · exact Or.inl (Nat.lt_of_not_le hlong)
    · exact Or.inr (UInt32.lt_iff_toNat_lt.mpr (Nat.lt_of_not_le hfar))
  rw [recordActions, Eeprom.recordHeader, if_pos hover]

theorem feasible_recordActions {address : UInt32} {data : List UInt8}
    (h : HasRoom data.length address) (offset : UInt32) (last : Bool) {between : List Action}
    (hbetween : Feasible between) :
    Feasible (recordActions offset address data last between) := by
  rw [recordActions_of_hasRoom h, feasible_append, feasible_append]
  exact ⟨⟨hbetween, feasible_eepromWrite _ _⟩, feasible_eepromWrite _ _⟩

theorem feasible_chunkRecords {list : List Chunk}
    (hroom : ∀ chunk ∈ list, HasRoom chunk.data.length chunk.address) (total : Nat)
    (offset : UInt32) (written : Nat) : Feasible (chunkRecords total offset written list) := by
  induction list generalizing offset written with
  | nil => simp [Feasible, chunkRecords]
  | cons chunk rest ih =>
      have hrest := ih fun other hmem => hroom other (List.mem_cons_of_mem _ hmem)
      rw [chunkRecords, feasible_append]
      refine ⟨feasible_recordActions (hroom chunk List.mem_cons_self) _ _ (by simp [Feasible]), ?_⟩
      intro cause hmem
      rcases List.mem_cons.mp hmem with heq | hin
      · cases heq
      · exact hrest _ _ cause hin

theorem feasible_eepromScript {profile : Chip.Profile} {list : List Chunk}
    (hroom : ∀ chunk ∈ list, HasRoom chunk.data.length chunk.address)
    (hlast : HasRoom 1 profile.resetRegister) (identity : Identity) (config : Option UInt8)
    (total : Nat) : Feasible (eepromScript profile identity config total list) := by
  have hfinal : HasRoom [profile.releaseValue].length profile.resetRegister := hlast
  simp only [eepromScript, feasible_append]
  refine ⟨⟨⟨⟨⟨⟨?_, ?_⟩, ?_⟩, ?_⟩, ?_⟩, ?_⟩, ?_⟩
  · exact feasible_notes _
  · simp [Feasible]
  · exact feasible_eepromWrite _ _
  · exact feasible_chunkRecords hroom _ _ _
  · exact feasible_recordActions hfinal _ _ (by simp [Feasible])
  · exact feasible_eepromWrite _ _
  · simp [Feasible]

/-! ### Where records are put -/

theorem sends_recordActions {address : UInt32} {data : List UInt8}
    (h : HasRoom data.length address) (offset : UInt32) (last : Bool) {between : List Action}
    (hbetween : sends between = []) :
    sends (recordActions offset address data last between)
      = [⟨.eeprom, offset, headerBytes data.length address last⟩,
        ⟨.eeprom, offset + Eeprom.recordHeaderLength, data⟩] := by
  rw [recordActions_of_hasRoom h, sends_append, sends_append, hbetween]
  rfl

theorem toNat_afterHeader {offset : UInt32} (h : offset.toNat + 4 < longLimit) :
    (offset + Eeprom.recordHeaderLength).toNat = offset.toNat + 4 := by
  have hfour : Eeprom.recordHeaderLength.toNat = 4 := rfl
  rw [longLimit] at h
  rw [UInt32.toNat_add, hfour]
  omega

/-- As long as addresses last, the next record starts behind the data of this one. -/
theorem toNat_nextOffset {offset : UInt32} {length : Nat}
    (h : offset.toNat + (4 + length) < longLimit) :
    (nextOffset offset length).toNat = offset.toNat + (4 + length) := by
  have hheader : (offset + Eeprom.recordHeaderLength).toNat = offset.toNat + 4 :=
    toNat_afterHeader (by omega)
  rw [longLimit] at h
  rw [nextOffset, UInt32.toNat_add, hheader, Nat.toUInt32_eq, UInt32.toNat_ofNat']
  omega

theorem contiguous_record {address : UInt32} {data : List UInt8} {offset : UInt32} {last : Bool}
    (h : offset.toNat + 4 < longLimit) :
    Contiguous offset.toNat [⟨offset, headerBytes data.length address last⟩,
      ⟨offset + Eeprom.recordHeaderLength, data⟩] :=
  ⟨rfl, toNat_afterHeader h, trivial⟩

/-- The segments a list of actions puts into the EEPROM. -/
def sentSegments (actions : List Action) : List Segment :=
  (sends actions).map ControlWrite.segment

theorem sentSegments_append (xs ys : List Action) :
    sentSegments (xs ++ ys) = sentSegments xs ++ sentSegments ys := by
  simp [sentSegments]

theorem sentSegments_recordActions {address : UInt32} {data : List UInt8}
    (h : HasRoom data.length address) (offset : UInt32) (last : Bool) {between : List Action}
    (hbetween : sends between = []) :
    sentSegments (recordActions offset address data last between)
      = [⟨offset, headerBytes data.length address last⟩,
        ⟨offset + Eeprom.recordHeaderLength, data⟩] := by
  rw [sentSegments, sends_recordActions h offset last hbetween]
  rfl

theorem bytesOf_recordActions {address : UInt32} {data : List UInt8}
    (h : HasRoom data.length address) (offset : UInt32) (last : Bool) {between : List Action}
    (hbetween : sends between = []) :
    bytesOf (sentSegments (recordActions offset address data last between))
      = recordBytes address data last := by
  simp [sentSegments_recordActions h offset last hbetween, recordBytes]

/-- The records of chunks are written one directly after the other. -/
theorem chunkRecords_placed {list : List Chunk}
    (hroom : ∀ chunk ∈ list, HasRoom chunk.data.length chunk.address) (total : Nat)
    (offset : UInt32) (written : Nat)
    (hfits : offset.toNat + (chunkBytes list).length < longLimit) :
    Contiguous offset.toNat (sentSegments (chunkRecords total offset written list)) ∧
      bytesOf (sentSegments (chunkRecords total offset written list)) = chunkBytes list ∧
      (recordsEnd offset list).toNat = offset.toNat + (chunkBytes list).length := by
  induction list generalizing offset written with
  | nil => exact ⟨trivial, rfl, rfl⟩
  | cons chunk rest ih =>
      have hchunk := hroom chunk List.mem_cons_self
      rw [chunkBytes_cons, List.length_append, length_recordBytes] at hfits
      have hnext : (nextOffset offset chunk.data.length).toNat
          = offset.toNat + (4 + chunk.data.length) := toNat_nextOffset (by omega)
      obtain ⟨hcontiguous, hbytes, hend⟩ := ih
        (fun other hmem => hroom other (List.mem_cons_of_mem _ hmem))
        (nextOffset offset chunk.data.length) (written + chunk.data.length) (by omega)
      have hsplit : sentSegments (chunkRecords total offset written (chunk :: rest))
          = sentSegments (recordActions offset chunk.address chunk.data false [.check])
            ++ sentSegments (chunkRecords total (nextOffset offset chunk.data.length)
              (written + chunk.data.length) rest) := sentSegments_append _ _
      have hrecord := sentSegments_recordActions hchunk offset false
        (rfl : sends [.check] = [])
      have hdata := bytesOf_recordActions hchunk offset false (rfl : sends [.check] = [])
      refine ⟨?_, ?_, ?_⟩
      · rw [hsplit]
        refine contiguous_append ?_ ?_
        · rw [hrecord]
          exact contiguous_record (by omega)
        · rw [hdata, length_recordBytes, ← hnext]
          exact hcontiguous
      · rw [hsplit, bytesOf_append, hdata, hbytes, chunkBytes_cons]
      · rw [recordsEnd, List.foldl_cons, ← recordsEnd, hend, hnext, chunkBytes_cons,
          List.length_append, length_recordBytes]
        omega

/-- The byte that keeps the part from booting, the records, and the header over that byte. -/
theorem sentSegments_eepromScript (profile : Chip.Profile) (identity : Identity)
    (config : Option UInt8) (total : Nat) (list : List Chunk) :
    sentSegments (eepromScript profile identity config total list)
      = [⟨0, [Eeprom.noBoot]⟩] ++ sentSegments (recordsScript profile total list)
        ++ [⟨0, Eeprom.bootHeader profile identity (configByte profile config)⟩] := by
  have hwrite : ∀ data : List UInt8, sentSegments (eepromWrite 0 data) = [⟨0, data⟩] :=
    fun _ => rfl
  have hnote : ∀ line, sentSegments [.note line] = [] := fun _ => rfl
  rw [sentSegments, sends_eepromScript, ← sentSegments, eepromTransfers]
  simp only [sentSegments_append, hwrite, hnote, List.append_nil]

/-- All records are written from the end of the header on. -/
theorem recordsScript_placed {profile : Chip.Profile} {list : List Chunk}
    (hroom : ∀ chunk ∈ list, HasRoom chunk.data.length chunk.address)
    (hlast : HasRoom 1 profile.resetRegister) (total : Nat)
    (hshort : profile.bootHeaderLength + (chunkBytes list).length + 5 < longLimit) :
    Contiguous profile.bootHeaderLength (sentSegments (recordsScript profile total list)) ∧
      bytesOf (sentSegments (recordsScript profile total list))
        = chunkBytes list ++ recordBytes profile.resetRegister [profile.releaseValue] true := by
  have hfinal : HasRoom [profile.releaseValue].length profile.resetRegister := hlast
  have hstart : profile.bootHeaderLength.toUInt32.toNat = profile.bootHeaderLength := by
    rw [Chip.Profile.bootHeaderLength]
    split <;> rfl
  obtain ⟨hcontiguous, hbytes, hend⟩ := chunkRecords_placed hroom total
    profile.bootHeaderLength.toUInt32 0 (by omega)
  rw [hstart] at hcontiguous hend
  rw [recordsScript, sentSegments_append]
  constructor
  · refine contiguous_append hcontiguous ?_
    rw [hbytes, ← hend, sentSegments_recordActions hfinal _ _ rfl]
    exact contiguous_record (by omega)
  · rw [bytesOf_append, hbytes, bytesOf_recordActions hfinal _ _ rfl]

end UsbBoot.Pass
