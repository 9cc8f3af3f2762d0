/-
An EEPROM pass leaves an image to boot from.

The image is the header, then one record after the other, then the record that lets the
CPU run.  The pass does not write it in this order: it first spoils the marker, and puts
the header over that last of all.  What is left is the image all the same, and a boot
loader that knows nothing but the format reads from it who the part is to be, the chunks
of the plan, and the write that starts the firmware.
-/
import UsbBoot.Proofs.Pass.Allowed
import UsbBoot.Proofs.Pass.Answer
import UsbBoot.Proofs.Pass.EepromScript

namespace UsbBoot

variable {σ : Type}

open Device (Identity)

namespace Eeprom

/-- The number of bytes of the image that carries some chunks. -/
def imageLength (profile : Chip.Profile) (list : List Chunk) : Nat :=
  profile.bootHeaderLength + total (list.map fun chunk => 4 + chunk.data.length) + 5

/-- The record that lets the CPU run. -/
def finalRecord (profile : Chip.Profile) : Record :=
  ⟨profile.resetRegister.toNat, [profile.releaseValue], true⟩

def recordsBytes (profile : Chip.Profile) (list : List Chunk) : List UInt8 :=
  chunkBytes list ++ recordBytes profile.resetRegister [profile.releaseValue] true

/-- The image that carries some chunks. -/
def imageBytes (profile : Chip.Profile) (identity : Identity) (config : UInt8)
    (list : List Chunk) : List UInt8 :=
  bootHeader profile identity config ++ recordsBytes profile list

theorem length_chunkBytes (list : List Chunk) :
    (chunkBytes list).length = total (list.map fun chunk => 4 + chunk.data.length) := by
  induction list with
  | nil => rfl
  | cons chunk rest ih =>
      rw [chunkBytes_cons, List.length_append, length_recordBytes, ih, List.map_cons, total_cons]

theorem length_imageBytes (profile : Chip.Profile) (identity : Identity) (config : UInt8)
    (list : List Chunk) :
    (imageBytes profile identity config list).length = imageLength profile list := by
  rw [imageBytes, recordsBytes, List.length_append, List.length_append, length_bootHeader,
    length_chunkBytes, length_recordBytes, imageLength, Nat.add_assoc]
  rfl

theorem headerOf_configByte (profile : Chip.Profile) (identity : Identity)
    (config : Option UInt8) :
    headerOf profile identity (Pass.configByte profile config)
      = ⟨profile.bootMarker, identity,
        if profile.hasConfigByte then some (config.getD 0 &&& profile.configMask) else none⟩ := by
  cases hconfig : profile.hasConfigByte with
  | false => simp [headerOf, hconfig]
  | true => cases config <;> simp [headerOf, Pass.configByte, hconfig, UInt8.and_assoc]

/-- What a part makes of an image: all there is in it, and nothing else. -/
theorem readsRecords_imageBytes {profile : Chip.Profile} {list : List Chunk}
    (hroom : ∀ chunk ∈ list, HasRoom chunk.data.length chunk.address)
    (hlast : HasRoom 1 profile.resetRegister) (identity : Identity) (config : UInt8)
    (records : List Record) :
    ReadsRecords (Memory.stretch 0 (imageBytes profile identity config list))
        profile.bootHeaderLength records
      ↔ records = list.map recordOf ++ [finalRecord profile] := by
  have hfinal : HasRoom [profile.releaseValue].length profile.resetRegister := hlast
  have hreads := readsRecords_chunkBytes hroom hfinal (bootHeader profile identity config) []
  rw [List.append_nil, length_bootHeader] at hreads
  constructor
  · intro h
    exact h.unique hreads
  · rintro rfl
    exact hreads

end Eeprom

namespace Pass

open Eeprom (HasRoom bootHeader imageBytes recordsBytes imageLength)

/-! ### What the writes leave -/

/-- The header hides the byte that spoiled the marker, so the image is all that is left. -/
theorem load_eepromScript {profile : Chip.Profile} {list : List Chunk}
    (hroom : ∀ chunk ∈ list, HasRoom chunk.data.length chunk.address)
    (hlast : HasRoom 1 profile.resetRegister)
    (hshort : imageLength profile list < longLimit) (identity : Identity)
    (config : Option UInt8) (total : Nat) :
    Memory.unknown.load (sentSegments (eepromScript profile identity config total list))
      = Memory.stretch 0 (imageBytes profile identity (configByte profile config) list) := by
  rw [imageLength, ← Eeprom.length_chunkBytes] at hshort
  obtain ⟨hcontiguous, hbytes⟩ := recordsScript_placed hroom hlast total hshort
  have hspoiled : ([Eeprom.noBoot] : List UInt8).length
      ≤ (imageBytes profile identity (configByte profile config) list).length := by
    simp [imageBytes, bootHeader]
  have hheader := Eeprom.length_bootHeader profile identity (configByte profile config)
  rw [sentSegments_eepromScript, Memory.load_append, Memory.load_append, hcontiguous.load,
    hbytes, ← recordsBytes]
  simp only [Memory.load_cons, Memory.load_nil, Memory.onto_unknown]
  have hbase : (0 : UInt32).toNat = 0 := rfl
  have himage : (Memory.stretch 0 (bootHeader profile identity (configByte profile config))).onto
        (Memory.stretch profile.bootHeaderLength (recordsBytes profile list))
      = Memory.stretch 0 (imageBytes profile identity (configByte profile config) list) := by
    rw [imageBytes, Memory.stretch_append, hheader, Nat.zero_add]
  rw [hbase, ← Memory.onto_assoc, himage]
  exact Memory.stretch_onto_shorter 0 hspoiled

/-! ### What is allowed has room -/

/-- No chunk of an EEPROM pass is too long for a record. -/
theorem length_le_maxRecord {profile : Chip.Profile} {plan : Plan}
    (heeprom : plan.destination = .eeprom) :
    ∀ chunk ∈ plan.chunks profile, chunk.data.length ≤ Eeprom.maxRecord := by
  intro chunk hmem
  have hbounded := (chunks_sound profile (plan.limit profile) plan.segments chunk hmem).bounded
  simp only [Plan.limit, heeprom, Chunk.limited] at hbounded
  have hmost : Eeprom.maxRecord = 1023 := rfl
  omega

/-- A record has room for a chunk, if the chip's windows lie where records can point. -/
theorem hasRoom_of_allowed {profile : Chip.Profile} {plan : Plan}
    (heeprom : plan.destination = .eeprom) (hallowed : plan.obstacle? profile = none)
    (hwindows : ∀ window ∈ profile.onChip, window.stop.toNat ≤ 0x10000) :
    ∀ chunk ∈ plan.chunks profile, HasRoom chunk.data.length chunk.address := by
  intro chunk hmem
  have hsound := chunks_sound profile (plan.limit profile) plan.segments chunk hmem
  have honChip := Plan.onChip_of_allowed (by simp [Plan.ReachesOut, heeprom]) hallowed chunk hmem
  have hnonempty := hsound.nonempty
  refine ⟨length_le_maxRecord heeprom chunk hmem, ?_⟩
  rw [hsound.marked, Chip.Profile.holds, List.any_eq_true] at honChip
  obtain ⟨window, hwindow, hholds⟩ := honChip
  rw [Chip.Window.holds, Bool.and_eq_true, decide_eq_true_eq, decide_eq_true_eq] at hholds
  have hstop := hwindows window hwindow
  omega

/-- Bytes whose chunks all lie on such a chip do not run past the last address. -/
theorem fits_of_onChip {profile : Chip.Profile} (limit : Option Nat) (address : UInt32)
    (bytes : List UInt8) (hwindows : ∀ window ∈ profile.onChip, window.stop.toNat ≤ 0x10000)
    (h : ∀ chunk ∈ runChunks profile limit address bytes, chunk.onChip = true) :
    address.toNat + bytes.length ≤ addressLimit := by
  fun_induction runChunks profile limit address bytes with
  | case1 address => exact Nat.le_of_lt address.toNat_lt
  | case2 address first rest count ih =>
      have hle : count ≤ rest.length + 1 := Chunk.take_le ..
      have hholds := h _ List.mem_cons_self
      simp only [Chip.Profile.holds, List.any_eq_true, Chip.Window.holds, Bool.and_eq_true,
        decide_eq_true_eq] at hholds
      obtain ⟨window, hwindow, -, hinside⟩ := hholds
      have hstop := hwindows window hwindow
      have hnext : (address + count.toUInt32).toNat = address.toNat + count := by
        rw [UInt32.toNat_add, Nat.toUInt32_eq, UInt32.toNat_ofNat']
        omega
      have hrest := ih fun chunk hmem => h chunk (List.mem_cons_of_mem _ hmem)
      rw [hnext, List.length_drop, List.length_cons] at hrest
      rw [List.length_cons]
      omega

theorem fits_of_allowed {profile : Chip.Profile} {plan : Plan}
    (heeprom : plan.destination = .eeprom) (hallowed : plan.obstacle? profile = none)
    (hwindows : ∀ window ∈ profile.onChip, window.stop.toNat ≤ 0x10000) :
    ∀ segment ∈ plan.segments, segment.Fits := by
  intro segment hmem
  refine fits_of_onChip (plan.limit profile) segment.base segment.bytes hwindows fun chunk hin => ?_
  have hchunk : chunk ∈ plan.chunks profile := List.mem_flatMap.mpr ⟨segment, hmem, hin⟩
  exact Plan.onChip_of_allowed (by simp [Plan.ReachesOut, heeprom]) hallowed chunk hchunk

theorem copyRecords_recordOf (memory : Memory) (list : List Chunk) :
    Eeprom.copyRecords memory (list.map Eeprom.recordOf)
      = memory.load (list.map Chunk.segment) := by
  rw [Eeprom.copyRecords, Memory.load, List.foldl_map, List.foldl_map]
  rfl

/-- What some writes leave of an EEPROM of which nothing was known. -/
def eepromAfter (list : List ControlWrite) : Memory :=
  Memory.unknown.replay (list.filter (·.request == .eeprom))

theorem eepromAfter_released {actions : List Action} (honly : EepromOnly actions)
    (profile : Chip.Profile) :
    eepromAfter (sends actions ++ [releaseWrite profile])
      = Memory.unknown.load (sentSegments actions) := by
  have hall : (sends actions).filter (·.request == .eeprom) = sends actions := by
    refine List.filter_eq_self.mpr fun write hmem => ?_
    rw [honly write hmem]
    rfl
  have hnone : [releaseWrite profile].filter (·.request == .eeprom) = [] := rfl
  rw [eepromAfter, List.filter_append, hall, hnone, List.append_nil]
  rfl

/--
**An EEPROM pass leaves an image that a part boots from.**

On a calm port an EEPROM pass that is allowed succeeds, if the chip's windows and the CPU
control register lie where records can point and the image is not too long.  What it
leaves of an EEPROM of which nothing was known reads back, header and records, as the
identity and the config byte asked for, the chunks of the plan in order, and the write
that lets the CPU run; and nothing else can be read from it, nor is anything written
behind it.  A part that copies the chunks where they say gets what loading the segments
one after the other leaves.
-/
theorem run_writes_bootImage {port : Port σ} (hcalm : port.Calm) (target : Target)
    (pass : String) (plan : Plan) (engine : Engine) (state : σ)
    (heeprom : plan.destination = .eeprom)
    (hallowed : plan.obstacle? target.profile = none)
    (hwindows : ∀ window ∈ target.profile.onChip, window.stop.toNat ≤ 0x10000)
    (hregister : target.profile.resetRegister.toNat ≤ 0xFFFF)
    (hshort : imageLength target.profile (plan.chunks target.profile) < longLimit) :
    let result := run port target pass plan engine state
    let memory := eepromAfter (writes result.events)
    result.failure = none ∧ result.engine.phase = .done ∧
      Eeprom.readHeader? target.profile.hasConfigByte memory
        = some ⟨target.profile.bootMarker, target.identity,
          if target.profile.hasConfigByte
          then some (plan.config.getD 0 &&& target.profile.configMask) else none⟩ ∧
      (∀ records, Eeprom.ReadsRecords memory target.profile.bootHeaderLength records
        ↔ records = (plan.chunks target.profile).map Eeprom.recordOf
          ++ [Eeprom.finalRecord target.profile]) ∧
      (∀ address, (memory address).isSome = true
        ↔ address < imageLength target.profile (plan.chunks target.profile)) ∧
      ∀ ram : Memory,
        Eeprom.copyRecords ram ((plan.chunks target.profile).map Eeprom.recordOf)
          = ram.load plan.segments := by
  intro result memory
  have hroom := hasRoom_of_allowed heeprom hallowed hwindows
  have hlast : HasRoom 1 target.profile.resetRegister := ⟨by decide, hregister⟩
  have hscript : script target.profile target.identity plan
      = eepromScript target.profile target.identity plan.config plan.length
        (plan.chunks target.profile) := script_of_eeprom _ _ heeprom
  have hfeasible : Feasible (script target.profile target.identity plan) := by
    rw [hscript]
    exact feasible_eepromScript hroom hlast _ _ _
  obtain ⟨hevents, hfailure, hphase, -⟩ :=
    run_calm hcalm target pass engine state hallowed hfeasible
  have hmemory : memory = Memory.stretch 0 (imageBytes target.profile target.identity
      (configByte target.profile plan.config) (plan.chunks target.profile)) := by
    have hwrites : writes result.events
        = sends (script target.profile target.identity plan)
          ++ [releaseWrite target.profile] := writes_of_seen hevents
    rw [show memory = eepromAfter (writes result.events) from rfl, hwrites, hscript,
      eepromAfter_released (eepromOnly_eepromScript _ _ _ _ _),
      load_eepromScript hroom hlast hshort]
  refine ⟨hfailure, hphase, ?_, ?_, ?_, ?_⟩
  · rw [hmemory, imageBytes, Eeprom.readHeader?_bootHeader, Eeprom.headerOf_configByte]
  · intro records
    rw [hmemory]
    exact Eeprom.readsRecords_imageBytes hroom hlast _ _ records
  · intro address
    rw [hmemory, Memory.stretch_isSome, Eeprom.length_imageBytes, Nat.zero_add]
    exact and_iff_right (Nat.zero_le address)
  · intro ram
    rw [copyRecords_recordOf, Memory.load_eq_onto, Plan.chunks,
      byteAt?_chunks _ _ (fits_of_allowed heeprom hallowed hwindows), ← Memory.load_eq_onto]

/-- Segments that meet, one that is empty, and more config bits than the part heeds. -/
theorem run_writes_bootImage_blankPart :
    let plan : Plan :=
      .eeprom [⟨0xE000, [1, 2, 3]⟩, ⟨0x0000, []⟩, ⟨0x1FFE, [4, 5]⟩, ⟨0x1FFF, [6]⟩] (some 0xFF)
    let memory := eepromAfter
      (writes (run (Schedule.calm.port "loader") blankPart "EEPROM" plan .fresh ⟨0, 0⟩).events)
    plan.obstacle? blankPart.profile = none ∧
      imageLength blankPart.profile (plan.chunks blankPart.profile) < longLimit ∧
      Eeprom.readHeader? true memory = some ⟨0xC2, blankPart.identity, some 0x4F⟩ ∧
      Eeprom.ReadsRecords memory 8 [⟨0xE000, [1, 2, 3], false⟩, ⟨0x1FFE, [4, 5], false⟩,
        ⟨0x1FFF, [6], false⟩, ⟨0xE600, [0], true⟩] := by
  intro plan memory
  have hallowed : plan.obstacle? blankPart.profile = none := by decide +kernel
  have hshort : imageLength blankPart.profile (plan.chunks blankPart.profile) < longLimit := by
    decide +kernel
  obtain ⟨-, -, hheader, hrecords, -⟩ :=
    run_writes_bootImage (Schedule.port_calm "loader") blankPart "EEPROM" plan .fresh ⟨0, 0⟩
      rfl hallowed (by decide) (by decide) hshort
  refine ⟨hallowed, hshort, hheader.trans ?_, (hrecords _).mpr ?_⟩
  · decide +kernel
  · decide +kernel

end Pass
end UsbBoot
