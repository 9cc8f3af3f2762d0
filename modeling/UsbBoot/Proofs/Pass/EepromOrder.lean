/-
In what order an EEPROM is written.

The first write spoils the marker and the last one seals the EEPROM with its header; what
comes between are the headers and data of all records, behind the place of that header.  A
record may turn out to have no room for its length or address, and a script goes on behind
that; but a pass does not, so that what stands there is left out before anything is read off
the script.  From then on there are two cases only: either nothing but records was attempted
behind the first write, or all records were written and the header was attempted as well.
-/
import UsbBoot.Proofs.Pass.BootImage
import UsbBoot.Proofs.Pass.Reset

namespace UsbBoot.Pass

open Device (Identity)
open Eeprom (HasRoom headerBytes imageLength recordHeader_of_hasRoom)

variable {σ : Type}

/-! ### Behind a refusal -/

theorem perform_refusal (port : Port σ) (pass : String) (front back : List Action)
    (cause : Failure) (engine : Engine) (state : σ) :
    perform port pass (front ++ .refuse cause :: back) engine state
      = perform port pass (front ++ [.refuse cause]) engine state := by
  induction front generalizing engine state with
  | nil => rfl
  | cons action rest ih => cases action <;> simp only [List.cons_append, perform, ih]

theorem Guarded.refusal {engine : Engine} {front back : List Action} {cause : Failure}
    (h : Guarded engine (front ++ .refuse cause :: back)) :
    Guarded engine (front ++ [.refuse cause]) := by
  induction front generalizing engine with
  | nil => exact ⟨h.1, h.1 rfl⟩
  | cons action rest ih => exact ⟨h.1, ih h.2⟩

/-- A pass ends as if its script did not go on behind a refusal. -/
theorem run_ended_refusal (port : Port σ) (target : Target) (pass : String) {plan : Plan}
    (engine : Engine) (state : σ) (h : plan.obstacle? target.profile = none)
    {front back : List Action} {cause : Failure}
    (hscript : script target.profile target.identity plan = front ++ .refuse cause :: back) :
    Ended target.profile pass port.cancelled.isSome (front ++ [.refuse cause])
      (run port target pass plan engine state) := by
  have hbody := perform_performed port pass (front ++ [.refuse cause]) engine.restart state
  have hguarded := guarded_script target.profile target.identity plan engine.restart
  rw [hscript] at hguarded
  simp only [run, h, hscript, perform_refusal]
  exact hbody.ended port target.profile (hbody.needsRelease hguarded.refusal) rfl

/-! ### The writes for all records -/

/-- The header of a record and its data. -/
def recordWrites (offset address : UInt32) (data : List UInt8) (last : Bool) :
    List ControlWrite :=
  [⟨.eeprom, offset, headerBytes data.length address last⟩,
    ⟨.eeprom, offset + Eeprom.recordHeaderLength, data⟩]

def chunkRecordWrites : UInt32 → List Chunk → List ControlWrite
  | _, [] => []
  | offset, chunk :: rest =>
    recordWrites offset chunk.address chunk.data false ++
      chunkRecordWrites (nextOffset offset chunk.data.length) rest

/-- The records of all chunks, and the one that lets the CPU run. -/
def imageWrites (profile : Chip.Profile) (list : List Chunk) : List ControlWrite :=
  chunkRecordWrites profile.bootHeaderLength.toUInt32 list ++
    recordWrites (recordsEnd profile.bootHeaderLength.toUInt32 list) profile.resetRegister
      [profile.releaseValue] true

/-- A record is written, or there is no room for it. -/
theorem sends_recordActions_cases (offset address : UInt32) (data : List UInt8) (last : Bool)
    {between : List Action} (hbetween : sends between = []) :
    sends (recordActions offset address data last between)
        = recordWrites offset address data last ∨
      ∃ cause, recordActions offset address data last between = [.refuse cause] := by
  by_cases hroom : HasRoom data.length address
  · exact Or.inl (sends_recordActions hroom offset last hbetween)
  · exact Or.inr ⟨_, recordActions_of_not_hasRoom hroom offset last between⟩

theorem sends_recordActions_subset (offset address : UInt32) (data : List UInt8) (last : Bool)
    {between : List Action} (hbetween : sends between = []) :
    sends (recordActions offset address data last between)
      ⊆ recordWrites offset address data last := by
  rcases sends_recordActions_cases offset address data last hbetween with heq | ⟨cause, heq⟩
  · rw [heq]
    exact List.Subset.refl _
  · rw [heq]
    exact List.nil_subset _

theorem sends_recordActions_of_feasible {offset address : UInt32} {data : List UInt8}
    {last : Bool} {between : List Action} (hbetween : sends between = [])
    (h : Feasible (recordActions offset address data last between)) :
    sends (recordActions offset address data last between)
      = recordWrites offset address data last := by
  rcases sends_recordActions_cases offset address data last hbetween with heq | ⟨cause, heq⟩
  · exact heq
  · rw [heq] at h
    exact absurd List.mem_cons_self (h cause)

theorem sends_chunkRecords_cons (total : Nat) (offset : UInt32) (written : Nat) (chunk : Chunk)
    (rest : List Chunk) :
    sends (chunkRecords total offset written (chunk :: rest))
      = sends (recordActions offset chunk.address chunk.data false [.check]) ++
        sends (chunkRecords total (nextOffset offset chunk.data.length)
          (written + chunk.data.length) rest) :=
  sends_append _ _

theorem sends_chunkRecords_subset (total : Nat) (offset : UInt32) (written : Nat)
    (list : List Chunk) :
    sends (chunkRecords total offset written list) ⊆ chunkRecordWrites offset list := by
  induction list generalizing offset written with
  | nil => exact List.nil_subset _
  | cons chunk rest ih =>
      rw [sends_chunkRecords_cons, chunkRecordWrites]
      have hrecord := sends_recordActions_subset offset chunk.address chunk.data false
        (rfl : sends [.check] = [])
      exact List.append_subset.mpr ⟨List.subset_append_of_subset_left _ hrecord,
        List.subset_append_of_subset_right _ (ih _ _)⟩

theorem sends_chunkRecords_of_feasible {total : Nat} {offset : UInt32} {written : Nat}
    {list : List Chunk} (h : Feasible (chunkRecords total offset written list)) :
    sends (chunkRecords total offset written list) = chunkRecordWrites offset list := by
  induction list generalizing offset written with
  | nil => rfl
  | cons chunk rest ih =>
      obtain ⟨hrecord, hrest⟩ := feasible_append.mp h
      rw [sends_chunkRecords_cons, chunkRecordWrites,
        sends_recordActions_of_feasible rfl hrecord,
        ih fun cause hmem => hrest cause (List.mem_cons_of_mem _ hmem)]

theorem sends_recordsScript_subset (profile : Chip.Profile) (total : Nat) (list : List Chunk) :
    sends (recordsScript profile total list) ⊆ imageWrites profile list := by
  rw [recordsScript, sends_append, imageWrites]
  exact List.append_subset.mpr
    ⟨List.subset_append_of_subset_left _ (sends_chunkRecords_subset _ _ _ _),
      List.subset_append_of_subset_right _ (sends_recordActions_subset _ _ _ _ rfl)⟩

theorem sends_recordsScript_of_feasible {profile : Chip.Profile} {total : Nat}
    {list : List Chunk} (h : Feasible (recordsScript profile total list)) :
    sends (recordsScript profile total list) = imageWrites profile list := by
  obtain ⟨hchunks, hlast⟩ := feasible_append.mp h
  rw [recordsScript, sends_append, sends_chunkRecords_of_feasible hchunks,
    sends_recordActions_of_feasible rfl hlast, imageWrites]

/-! ### Where they go -/

theorem le_address_recordWrites {offset address : UInt32} {data : List UInt8} {last : Bool}
    (h : offset.toNat + 4 < longLimit) :
    ∀ write ∈ recordWrites offset address data last, offset.toNat ≤ write.address.toNat := by
  have hdata := toNat_afterHeader h
  simp only [recordWrites, List.forall_mem_cons]
  exact ⟨Nat.le_refl _, by omega, nofun⟩

theorem le_address_chunkRecordWrites {offset : UInt32} {list : List Chunk}
    (h : offset.toNat + total (list.map fun chunk => 4 + chunk.data.length) < longLimit) :
    (∀ write ∈ chunkRecordWrites offset list, offset.toNat ≤ write.address.toNat) ∧
      (recordsEnd offset list).toNat
        = offset.toNat + total (list.map fun chunk => 4 + chunk.data.length) := by
  induction list generalizing offset with
  | nil => exact ⟨nofun, rfl⟩
  | cons chunk rest ih =>
      rw [List.map_cons, total_cons] at h ⊢
      have hnext : (nextOffset offset chunk.data.length).toNat
          = offset.toNat + (4 + chunk.data.length) := toNat_nextOffset (by omega)
      obtain ⟨hrest, hend⟩ := @ih (nextOffset offset chunk.data.length) (by omega)
      constructor
      · rw [chunkRecordWrites]
        refine List.forall_mem_append.mpr ⟨le_address_recordWrites (by omega), ?_⟩
        intro write hmem
        have hle := hrest write hmem
        omega
      · rw [recordsEnd, List.foldl_cons, ← recordsEnd, hend, hnext, Nat.add_assoc]

theorem toNat_bootHeaderLength (profile : Chip.Profile) :
    profile.bootHeaderLength.toUInt32.toNat = profile.bootHeaderLength := by
  rw [Chip.Profile.bootHeaderLength]
  split <;> rfl

/-- No record gets at the place of the header. -/
theorem le_address_imageWrites {profile : Chip.Profile} {list : List Chunk}
    (hshort : imageLength profile list < longLimit) :
    ∀ write ∈ imageWrites profile list, profile.bootHeaderLength ≤ write.address.toNat := by
  have hstart := toNat_bootHeaderLength profile
  rw [imageLength] at hshort
  obtain ⟨hchunks, hend⟩ := @le_address_chunkRecordWrites
    profile.bootHeaderLength.toUInt32 list (by omega)
  rw [hstart] at hchunks hend
  rw [imageWrites]
  refine List.forall_mem_append.mpr ⟨hchunks, ?_⟩
  intro write hmem
  have hle := le_address_recordWrites (by omega) write hmem
  omega

/-! ### How far a pass comes -/

/-- The write that keeps a part from booting. -/
def spoilWrite : ControlWrite :=
  ⟨.eeprom, 0, [Eeprom.noBoot]⟩

/-- The write that makes it boot again. -/
def sealWrite (profile : Chip.Profile) (identity : Identity) (config : Option UInt8) :
    ControlWrite :=
  ⟨.eeprom, 0, Eeprom.bootHeader profile identity (configByte profile config)⟩

/-- The attempts to write the EEPROM, in order. -/
def eepromAttempts (events : List Event) : List Attempt :=
  (attempts events).filter (·.write.request == .eeprom)

/-- What an EEPROM script does first, in front of some other actions. -/
def opening (notes : List Log.Line) (tail : List Action) : List Action :=
  notes.map .note ++ .enter .transferring :: (eepromWrite 0 [Eeprom.noBoot] ++ tail)

theorem sends_opening (notes : List Log.Line) (tail : List Action) :
    sends (opening notes tail) = spoilWrite :: sends tail := by
  rw [opening, sends_append, sends_notes]
  rfl

/-- What it does last, when the records end at an offset. -/
def sealing (profile : Chip.Profile) (identity : Identity) (config : Option UInt8)
    (stop : UInt32) : List Action :=
  eepromWrite 0 (Eeprom.bootHeader profile identity (configByte profile config)) ++
    [.note (.debug .engine ("EEPROM image complete, " ++ toString (nextOffset stop 1).toNat ++
      " bytes used"))]

/-- The attempts that come of some actions: all writes are attempted, or those until a stop. -/
inductive Attempted (actions : List Action) : List Attempt → Prop
  | all : Attempted actions ((sends actions).map Attempt.ok)
  | stopped {before after : List Action} {action : Action} {cause : Failure} {last : List Event}
    (split : actions = before ++ action :: after) (stops : Stops action cause last) :
    Attempted actions (triedUntil before last)

theorem Attempted.subset {actions : List Action} {tried : List Attempt}
    (h : Attempted actions tried) : ∀ attempt ∈ tried, attempt.write ∈ sends actions := by
  intro attempt hmem
  cases h with
  | all =>
      obtain ⟨write, hwrite, rfl⟩ := List.mem_map.mp hmem
      exact hwrite
  | stopped split stops =>
      rw [split]
      exact triedUntil_subset stops attempt hmem

/-- What comes of a script with such an opening: the first write fails, or the other actions
come to something. -/
theorem Ended.opened {profile : Chip.Profile} {pass : String} {asks : Bool}
    {notes : List Log.Line} {tail : List Action} {run : Run σ}
    (h : Ended profile pass asks (opening notes tail) run) (htail : AllTransfer .eeprom tail) :
    ∃ first later, eepromAttempts run.events = first :: later ∧ first.write = spoilWrite ∧
      (first.failure ≠ none → later = []) ∧
      (first.failure = none → Attempted tail later) := by
  have honly : EepromOnly (opening notes tail) := by
    intro write hmem
    rw [sends_opening] at hmem
    rcases List.mem_cons.mp hmem with rfl | hlater
    · rfl
    · exact htail.request write hlater
  obtain ⟨release, body, hattempts, hbody⟩ := h.attempts
  have heeprom : eepromAttempts run.events = body := by
    obtain ⟨records, other, hrecords, hrequests⟩ := h.eepromBody honly
    obtain ⟨rfl, -⟩ := List.append_inj' (hattempts.symm.trans hrecords) rfl
    have hkept : body.filter (·.write.request == .eeprom) = body := by
      refine List.filter_eq_self.mpr fun attempt hmem => ?_
      rw [hrequests attempt hmem]
      rfl
    rw [eepromAttempts, hattempts, List.filter_append, hkept]
    exact List.append_nil body
  rw [heeprom]
  rcases hbody with rfl | ⟨before, after, action, cause, last, hsplit, hstops, rfl⟩
  · rw [sends_opening]
    exact ⟨_, _, rfl, rfl, fun hfailed => absurd rfl hfailed, fun _ => .all⟩
  rw [opening] at hsplit
  rcases split_append hsplit with ⟨middle, hnotes⟩ | ⟨later, rfl, henter⟩
  · -- Remarks do not stop a pass.
    have hmem : action ∈ notes.map Action.note := by
      rw [hnotes]
      exact List.mem_append_right _ List.mem_cons_self
    obtain ⟨line, -, rfl⟩ := List.mem_map.mp hmem
    cases hstops
  -- Of what follows, the first write is the first action that can stop it.
  obtain ⟨_, rfl, hnote⟩ := stop_behind henter hstops rfl
  obtain ⟨_, rfl, hspoil⟩ := stop_behind hnote hstops rfl
  rw [triedUntil_append, sends_notes]
  rcases stop_cons hspoil with ⟨rfl, rfl⟩ | ⟨later, rfl, hlater⟩
  · cases hstops
    exact ⟨⟨spoilWrite, some cause⟩, [], rfl, rfl, fun _ => rfl, nofun⟩
  · refine ⟨.ok spoilWrite, triedUntil later last, rfl, rfl, fun hfailed => absurd rfl hfailed, ?_⟩
    intro _
    exact .stopped hlater hstops

theorem opening_append (notes : List Log.Line) (xs ys : List Action) :
    opening notes (xs ++ ys) = opening notes xs ++ ys := by
  simp [opening]

theorem transfers_recordsScript (profile : Chip.Profile) (total : Nat) (list : List Chunk) :
    AllTransfer .eeprom (recordsScript profile total list) := by
  rw [recordsScript, allTransfer_append]
  exact ⟨transfers_chunkRecords _ _ _ _, transfers_recordActions _ _ _ _ (allTransfer_nil _)⟩

section Sealing

variable {profile : Chip.Profile} {identity : Identity} {config : Option UInt8} {stop : UInt32}

theorem transfers_sealing : AllTransfer .eeprom (sealing profile identity config stop) := by
  rw [sealing, allTransfer_append, allTransfer_cons]
  exact ⟨transfers_eepromWrite _ _, .note _, allTransfer_nil _⟩

theorem sealing_stopped {before after : List Action} {action : Action} {cause : Failure}
    {last : List Event} (h : sealing profile identity config stop = before ++ action :: after)
    (hstops : Stops action cause last) :
    triedUntil before last = [⟨sealWrite profile identity config, some cause⟩] := by
  obtain ⟨_, rfl, hsend⟩ := stop_behind h hstops rfl
  rcases stop_cons hsend with ⟨rfl, rfl⟩ | ⟨_, rfl, hnote⟩
  · cases hstops
    rfl
  · obtain ⟨_, rfl, hnil⟩ := stop_behind hnote hstops rfl
    simp at hnil

/-- What comes of all records, if there is room for them, and of the header behind them. -/
theorem records_then_seal {total : Nat} {list : List Chunk}
    (hfeasible : Feasible (recordsScript profile total list)) {later : List Attempt}
    (h : Attempted (recordsScript profile total list ++ sealing profile identity config stop)
      later) :
    (∀ attempt ∈ later, attempt.write ∈ imageWrites profile list) ∨
      ∃ failure, later = (imageWrites profile list).map Attempt.ok
        ++ [⟨sealWrite profile identity config, failure⟩] := by
  have hsends := sends_recordsScript_of_feasible hfeasible
  cases h with
  | all =>
      right
      rw [sends_append, hsends, List.map_append]
      exact ⟨none, rfl⟩
  | stopped split stops =>
      rcases split_append split with ⟨middle, hrecords⟩ | ⟨later, rfl, hseal⟩
      · left
        intro attempt hmem
        have htried := Attempted.subset (.stopped hrecords stops) attempt hmem
        rwa [hsends] at htried
      · right
        rw [triedUntil_append, hsends, sealing_stopped hseal stops]
        exact ⟨_, rfl⟩

end Sealing

theorem records_then_refusal {profile : Chip.Profile} {total : Nat} {list : List Chunk}
    {front back : List Action} {refused : Failure}
    (hsplit : recordsScript profile total list = front ++ .refuse refused :: back)
    {later : List Attempt} (h : Attempted (front ++ [.refuse refused]) later) :
    ∀ attempt ∈ later, attempt.write ∈ imageWrites profile list := by
  intro attempt hmem
  refine sends_recordsScript_subset profile total list ?_
  have hwrite := h.subset attempt hmem
  rw [sends_append] at hwrite
  rw [hsplit, sends_append]
  rcases List.mem_append.mp hwrite with hfront | hnone
  · exact List.mem_append_left _ hfront
  · cases hnone

theorem script_eq_opening (profile : Chip.Profile) (identity : Identity) {plan : Plan}
    (heeprom : plan.destination = .eeprom) :
    script profile identity plan
      = opening (eepromNotes profile identity plan.config)
        (recordsScript profile plan.length (plan.chunks profile) ++
          sealing profile identity plan.config
            (recordsEnd profile.bootHeaderLength.toUInt32 (plan.chunks profile))) := by
  simp only [script_of_eeprom profile identity heeprom, eepromScript, opening, recordsScript,
    sealing, List.append_assoc, List.cons_append, List.nil_append]

/-- **Behind the first write come records only, or all records and then the header.** -/
theorem run_eepromOrder (port : Port σ) (target : Target) (pass : String) {plan : Plan}
    (engine : Engine) (state : σ) (heeprom : plan.destination = .eeprom)
    (hallowed : plan.obstacle? target.profile = none) :
    ∃ first later,
      eepromAttempts (run port target pass plan engine state).events = first :: later ∧
      first.write = spoilWrite ∧ (first.failure ≠ none → later = []) ∧
      ((∀ attempt ∈ later,
          attempt.write ∈ imageWrites target.profile (plan.chunks target.profile)) ∨
        ∃ failure, later
          = (imageWrites target.profile (plan.chunks target.profile)).map Attempt.ok
            ++ [⟨sealWrite target.profile target.identity plan.config, failure⟩]) := by
  have hscript := script_eq_opening target.profile target.identity heeprom
  have hrecords := transfers_recordsScript target.profile plan.length (plan.chunks target.profile)
  by_cases hfeasible :
      Feasible (recordsScript target.profile plan.length (plan.chunks target.profile))
  · -- There is room for every record, so the script goes on to the header.
    have hended := run_ended port target pass engine state hallowed
    rw [hscript] at hended
    obtain ⟨first, later, hseen, hwrite, hfailed, hwent⟩ :=
      hended.opened (allTransfer_append.mpr ⟨hrecords, transfers_sealing⟩)
    refine ⟨first, later, hseen, hwrite, hfailed, ?_⟩
    by_cases hspoiled : first.failure = none
    · exact records_then_seal hfeasible (hwent hspoiled)
    · rw [hfailed hspoiled]
      exact Or.inl (List.forall_mem_nil _)
  · -- Some record has no room, and the pass stops there at the latest.
    obtain ⟨refused, hmem⟩ := Classical.not_forall.mp hfeasible
    obtain ⟨front, back, hsplit⟩ := List.append_of_mem (Classical.not_not.mp hmem)
    rw [hsplit, List.append_assoc, List.cons_append, opening_append] at hscript
    have hended := run_ended_refusal port target pass engine state hallowed hscript
    rw [← opening_append] at hended
    rw [hsplit, allTransfer_append, allTransfer_cons] at hrecords
    obtain ⟨first, later, hseen, hwrite, hfailed, hwent⟩ := hended.opened
      (allTransfer_append.mpr ⟨hrecords.1, allTransfer_cons.mpr ⟨hrecords.2.1, allTransfer_nil _⟩⟩)
    refine ⟨first, later, hseen, hwrite, hfailed, Or.inl ?_⟩
    by_cases hspoiled : first.failure = none
    · exact records_then_refusal hsplit (hwent hspoiled)
    · rw [hfailed hspoiled]
      exact List.forall_mem_nil _

end UsbBoot.Pass
