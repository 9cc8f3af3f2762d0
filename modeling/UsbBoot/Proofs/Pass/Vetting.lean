/-
Which writes the user is asked about.

A write is vetted if the user was asked since the write before it, and did not give up.
`vetted` reads this off what was seen, and `vettedSends` off a script; the two agree as far
as a pass comes, since no answer but the one to go on leads to the next write.

A RAM pass has every chunk vetted, so that only the two writes to the CPU control register
go out unasked.  An EEPROM pass asks once for a chunk, ahead of the header of its record.
What nobody is asked about is the data of a record, the final record, the header of the
image, and the byte that spoils the marker: so an EEPROM that boots is spoiled even for a
user who had given up before.
-/
import UsbBoot.Proofs.Pass.EepromOrder

namespace UsbBoot.Pass

open Eeprom (HasRoom)

variable {σ : Type}

/-- The writes that were attempted, each with whether it was vetted; whether the first one
is may depend on what was asked before. -/
def vetted : Bool → List Event → List (ControlWrite × Bool)
  | _, [] => []
  | _, .asked answer :: rest => vetted (!answer) rest
  | asked, .wrote write _ :: rest => (write, asked) :: vetted false rest
  | asked, .note _ :: rest | asked, .progress _ _ _ :: rest => vetted asked rest

/-- The writes of some actions, up to the first that cannot be put into a transfer, each with
whether it is vetted. -/
def vettedSends : Bool → List Action → List (ControlWrite × Bool)
  | _, [] => []
  | _, .check :: rest => vettedSends true rest
  | asked, .send write :: rest => (write, asked) :: vettedSends false rest
  | _, .refuse _ :: _ => []
  | asked, .note _ :: rest | asked, .enter _ :: rest | asked, .hold :: rest
  | asked, .report _ _ :: rest => vettedSends asked rest

/-! ### What is seen -/

theorem vetted_deeds (asked : Bool) (events : List Event) :
    vetted asked (deeds events) = vetted asked events := by
  induction events generalizing asked with
  | nil => rfl
  | cons event rest ih =>
      cases event with
      | note line => exact ih asked
      | asked answer => exact ih !answer
      | progress pass written total => exact ih asked
      | wrote write failure => exact congrArg ((write, asked) :: ·) (ih false)

theorem vetted_append (asked : Bool) (xs : List Event) :
    ∃ last, ∀ ys, vetted asked (xs ++ ys) = vetted asked xs ++ vetted last ys := by
  induction xs generalizing asked with
  | nil => exact ⟨asked, fun _ => rfl⟩
  | cons event rest ih =>
      cases event with
      | note line => exact ih asked
      | asked answer => exact ih !answer
      | progress pass written total => exact ih asked
      | wrote write failure =>
          obtain ⟨last, hlast⟩ := ih false
          exact ⟨last, fun ys => congrArg _ (hlast ys)⟩

theorem vetted_after_notes (asked : Bool) (lines : List Log.Line) (rest : List Event) :
    vetted asked (lines.map .note ++ rest) = vetted asked rest := by
  rw [← vetted_deeds, deeds_append, deeds_notes, List.nil_append, vetted_deeds]

theorem vetted_writeEvents (asked : Bool) (write : ControlWrite) (reply : Reply)
    (rest : List Event) :
    vetted asked (writeEvents write reply ++ rest) = (write, asked) :: vetted false rest := by
  rw [writeEvents, List.append_assoc, vetted_after_notes]
  rfl

theorem map_fst_vetted (asked : Bool) (events : List Event) :
    (vetted asked events).map Prod.fst = writes events := by
  induction events generalizing asked with
  | nil => rfl
  | cons event rest ih =>
      cases event with
      | note line => exact ih asked
      | asked answer => exact ih !answer
      | progress pass written total => exact ih asked
      | wrote write failure => exact congrArg _ (ih false)

/-- **Where the user can be asked, a body has its writes vetted as its script has.** -/
theorem perform_vetted {port : Port σ} (hasks : port.cancelled.isSome) (pass : String)
    (asked : Bool) (actions : List Action) (engine : Engine) (state : σ) :
    vetted asked (perform port pass actions engine state).events
      <+: vettedSends asked actions := by
  obtain ⟨ask, hask⟩ := Option.isSome_iff_exists.mp hasks
  induction actions generalizing asked engine state with
  | nil => exact List.prefix_refl _
  | cons action rest ih =>
      cases action with
      | note line => exact ih asked engine state
      | enter phase => exact ih asked _ state
      | hold => exact ih asked _ state
      | report written total => exact ih asked engine state
      | refuse cause => exact List.prefix_refl _
      | check =>
          unfold perform
          rw [hask]
          rcases hanswer : ask state with ⟨_ | _, next⟩
          · simp only [hanswer]
            exact ih true engine next
          · -- The user gives up, and nothing follows.
            simp only [hanswer]
            exact List.nil_prefix
      | send write =>
          unfold perform
          rcases hwrite : port.write write state with ⟨reply, next⟩
          have hstep := vetted_writeEvents asked write reply
          cases hreply : reply.failure with
          | none =>
              simp only [hreply, Run.after, hstep, vettedSends]
              exact List.prefix_cons_inj _ |>.mpr (ih false engine next)
          | some cause =>
              have hlast := hstep []
              rw [List.append_nil] at hlast
              simp only [hreply, hlast, vettedSends, vetted]
              exact List.prefix_cons_inj _ |>.mpr List.nil_prefix

/-! ### What a script asks about -/

/-- All chunks vetted, those outside the chip first, with the halt in between. -/
def ramVetted (profile : Chip.Profile) (list : List Chunk) : List (ControlWrite × Bool) :=
  (externalWrites list).map (·, true) ++ (holdWrite profile, false) ::
    (onChipWrites list).map (·, true)

/-- A record, of which the header may be vetted. -/
def recordVetted (offset address : UInt32) (data : List UInt8) (last asked : Bool) :
    List (ControlWrite × Bool) :=
  (recordWrites offset address data last).zip [asked, false]

/-- The records of some chunks, with their headers vetted. -/
def chunksVetted : UInt32 → List Chunk → List (ControlWrite × Bool)
  | _, [] => []
  | offset, chunk :: rest =>
    recordVetted offset chunk.address chunk.data false true ++
      chunksVetted (nextOffset offset chunk.data.length) rest

/-- All records, and the last one with nothing vetted. -/
def imageVetted (profile : Chip.Profile) (list : List Chunk) : List (ControlWrite × Bool) :=
  chunksVetted profile.bootHeaderLength.toUInt32 list ++
    recordVetted (recordsEnd profile.bootHeaderLength.toUInt32 list) profile.resetRegister
      [profile.releaseValue] true false

theorem vettedSends_sendChunks (request : Request) (total written : Nat) (list : List Chunk)
    (tail : List Action) :
    vettedSends false (sendChunks request total written list ++ tail)
      = (chunkWrites request list).map (·, true) ++ vettedSends false tail := by
  induction list generalizing written with
  | nil => rfl
  | cons chunk rest ih => exact congrArg _ (ih _)

theorem vettedSends_externalActions (total : Nat) (external : List Chunk) (tail : List Action) :
    vettedSends false (externalActions total external ++ tail)
      = (chunkWrites .external external).map (·, true) ++ vettedSends false tail := by
  cases external with
  | nil => rfl
  | cons chunk rest => exact vettedSends_sendChunks .external total 0 (chunk :: rest) tail

theorem vettedSends_onChipActions (written total : Nat) (onChip : List Chunk) :
    vettedSends false (onChipActions written total onChip)
      = (chunkWrites .onChip onChip).map (·, true) := by
  have hsent := vettedSends_sendChunks .onChip total written onChip []
  rw [List.append_nil] at hsent
  exact hsent.trans (List.append_nil _)

theorem vettedSends_ramScript (profile : Chip.Profile) (list : List Chunk) :
    vettedSends false (ramScript profile list) = ramVetted profile list := by
  unfold ramScript
  rw [List.append_assoc, vettedSends_externalActions]
  show _ ++ (holdWrite profile, false) :: vettedSends false (onChipActions ..) = _
  rw [vettedSends_onChipActions]
  rfl

theorem vettedSends_notes (lines : List Log.Line) (rest : List Action) :
    vettedSends false (lines.map .note ++ rest) = vettedSends false rest := by
  induction lines with
  | nil => rfl
  | cons line lines ih => exact ih

theorem vettedSends_recordActions {between : List Action} {asked : Bool}
    (hbetween : ∀ rest, vettedSends false (between ++ rest) = vettedSends asked rest)
    (offset address : UInt32) (data : List UInt8) (last : Bool) (tail : List Action) :
    vettedSends false (recordActions offset address data last between ++ tail)
      <+: recordVetted offset address data last asked ++ vettedSends false tail := by
  by_cases hroom : HasRoom data.length address
  · rw [recordActions_of_hasRoom hroom, List.append_assoc, List.append_assoc, hbetween]
    exact List.prefix_refl _
  · rw [recordActions_of_not_hasRoom hroom]
    exact List.nil_prefix

theorem vettedSends_chunkRecords (total : Nat) (offset : UInt32) (written : Nat)
    (list : List Chunk) (tail : List Action) :
    vettedSends false (chunkRecords total offset written list ++ tail)
      <+: chunksVetted offset list ++ vettedSends false tail := by
  induction list generalizing offset written with
  | nil => exact List.prefix_refl _
  | cons chunk rest ih =>
      unfold chunkRecords chunksVetted
      rw [List.append_assoc, List.append_assoc]
      refine (vettedSends_recordActions (fun _ => rfl) ..).trans ?_
      exact List.prefix_append_right_inj _ |>.mpr (ih _ _)

/-- Of an EEPROM script, the headers of all records but the last are vetted. -/
theorem vettedSends_eepromScript {profile : Chip.Profile} {identity : Device.Identity}
    {plan : Plan} (heeprom : plan.destination = .eeprom) :
    vettedSends false (script profile identity plan)
      <+: (spoilWrite, false) :: (imageVetted profile (plan.chunks profile) ++
        [(sealWrite profile identity plan.config, false)]) := by
  rw [script_eq_opening profile identity heeprom, opening, vettedSends_notes]
  show (spoilWrite, false) :: vettedSends false (recordsScript .. ++ _) <+: _
  refine List.prefix_cons_inj _ |>.mpr ?_
  unfold recordsScript imageVetted
  rw [List.append_assoc, List.append_assoc]
  refine (vettedSends_chunkRecords ..).trans ?_
  refine List.prefix_append_right_inj _ |>.mpr ?_
  exact vettedSends_recordActions (fun _ => rfl) ..

/-! ### Passes -/

/-- If the CPU is to be let run after a body, the attempt to do so is all that follows. -/
theorem finish_releases (port : Port σ) (profile : Chip.Profile) {body : Run σ}
    (hneeds : body.engine.needsRelease = true) :
    ∃ release, deeds (finish port profile body).events
      = deeds body.events ++ [.wrote (releaseWrite profile) release] := by
  obtain ⟨hseen, -⟩ := release_spec port profile body.engine body.port
  refine ⟨(release port profile body.engine body.port).failure, ?_⟩
  rw [← hseen]
  unfold finish
  cases body.failure with
  | none =>
      simp only [finishWell, hneeds, if_true, Run.after, deeds_append]
      cases hfail : (release port profile body.engine body.port).failure with
      | none => rfl
      | some cause => by_cases hleft : cause.isDisconnect <;> simp [hleft]
  | some cause =>
      simp only [finishBadly, hneeds, if_true, Run.after, deeds_append]
      cases hfail : (release port profile body.engine body.port).failure <;> simp

theorem run_vettedSends {port : Port σ} (hasks : port.cancelled.isSome) (target : Target)
    (pass : String) {plan : Plan} (engine : Engine) (state : σ)
    (hallowed : plan.obstacle? target.profile = none) :
    ∃ sent asked,
      vetted false (run port target pass plan engine state).events
        = sent ++ [(releaseWrite target.profile, asked)] ∧
      sent <+: vettedSends false (script target.profile target.identity plan) := by
  have hbody := perform_performed port pass (script target.profile target.identity plan)
    engine.restart state
  obtain ⟨release, hseen⟩ := finish_releases port target.profile
    (hbody.needsRelease (guarded_script ..))
  obtain ⟨asked, hasked⟩ := vetted_append false
    (deeds (perform port pass (script target.profile target.identity plan) engine.restart
      state).events)
  refine ⟨_, asked, ?_, perform_vetted hasks pass false _ engine.restart state⟩
  rw [← vetted_deeds, run, hallowed]
  simp only [hseen, hasked, vetted_deeds]
  rfl

theorem spoilWrite_ne_releaseWrite (profile : Chip.Profile) :
    spoilWrite ≠ releaseWrite profile := by
  intro hsame
  have hrequest := congrArg ControlWrite.request hsame
  cases hrequest

/-- An EEPROM pass that is allowed spoils the marker, whatever the port answers. -/
theorem run_spoils (port : Port σ) (target : Target) (pass : String) {plan : Plan}
    (engine : Engine) (state : σ) (heeprom : plan.destination = .eeprom)
    (hallowed : plan.obstacle? target.profile = none) :
    spoilWrite ∈ writes (run port target pass plan engine state).events := by
  obtain ⟨first, later, htried, hwrite, -⟩ :=
    run_eepromOrder port target pass engine state heeprom hallowed
  have hfirst : first ∈ eepromAttempts (run port target pass plan engine state).events := by
    rw [htried]
    exact List.mem_cons_self
  rw [← hwrite]
  exact List.mem_map_of_mem (List.mem_filter.mp hfirst).1

/--
**Of an EEPROM, only the headers of its records are vetted.**

Where the user can be asked, and whatever is answered, all that a RAM pass writes before it
lets the CPU run is vetted, but for the write that halts it.  An EEPROM pass that is allowed
spoils the marker before it asks for the first time.  It then asks ahead of the header of
each record but the last; nobody is asked about the data of a record, the final record or
the header that seals the EEPROM.
-/
theorem run_vetted {port : Port σ} (hasks : port.cancelled.isSome) (target : Target)
    (pass : String) (plan : Plan) (engine : Engine) (state : σ) :
    let seen := vetted false (run port target pass plan engine state).events
    let chunks := plan.chunks target.profile
    (seen = [] ↔ plan.obstacle? target.profile ≠ none) ∧
      (plan.obstacle? target.profile = none →
        match plan.destination with
        | .ram =>
          ∃ sent asked, seen = sent ++ [(releaseWrite target.profile, asked)] ∧
            sent <+: ramVetted target.profile chunks
        | .eeprom =>
          ∃ later asked,
            seen = (spoilWrite, false) :: (later ++ [(releaseWrite target.profile, asked)]) ∧
            later <+: imageVetted target.profile chunks ++
              [(sealWrite target.profile target.identity plan.config, false)]) := by
  intro seen chunks
  constructor
  · cases hobstacle : plan.obstacle? target.profile with
    | some cause => simp [seen, run_refused port target pass engine state hobstacle, vetted]
    | none =>
        obtain ⟨sent, asked, hseen, -⟩ :=
          run_vettedSends hasks target pass engine state hobstacle
        simp [seen, hseen]
  · intro hallowed
    obtain ⟨sent, asked, hseen, hsent⟩ :=
      run_vettedSends hasks target pass engine state hallowed
    cases hdestination : plan.destination with
    | ram =>
        rw [script_of_ram target.profile target.identity hdestination, vettedSends_ramScript]
          at hsent
        exact ⟨sent, asked, hseen, hsent⟩
    | eeprom =>
        have hplanned := hsent.trans (vettedSends_eepromScript hdestination)
        -- The first write is attempted whatever is answered, as nobody is asked before it.
        have hspoil := run_spoils port target pass engine state hdestination hallowed
        rw [← map_fst_vetted false, hseen, List.map_append] at hspoil
        rcases List.prefix_cons_iff.mp hplanned with rfl | ⟨later, rfl, hlater⟩
        · exact absurd (List.mem_singleton.mp hspoil) (spoilWrite_ne_releaseWrite _)
        · exact ⟨later, asked, hseen, hlater⟩

/-- The user gives up at the second record: the data of the first are written, unasked. -/
theorem run_vetted_interrupted :
    let schedule : Schedule := ⟨fun _ => none, some fun n => decide (n = 1)⟩
    let plan : Plan := .eeprom [⟨0x0100, [1, 2]⟩, ⟨0x0200, [3]⟩] none
    let chunks := plan.chunks blankPart.profile
    let records := [(⟨.eeprom, 8, [0x00, 0x02, 0x01, 0x00]⟩, true),
      (⟨.eeprom, 12, [1, 2]⟩, false)]
    (schedule.port "loader").cancelled.isSome ∧
      vetted false (run (schedule.port "loader") blankPart "EEPROM" plan .fresh ⟨0, 0⟩).events
        = (spoilWrite, false) :: (records ++ [(releaseWrite blankPart.profile, false)]) ∧
      records <+: imageVetted blankPart.profile chunks ++
        [(sealWrite blankPart.profile blankPart.identity none, false)] := by
  intro schedule plan chunks records
  have hseen : vetted false
      (run (schedule.port "loader") blankPart "EEPROM" plan .fresh ⟨0, 0⟩).events
        = (spoilWrite, false) :: (records ++ [(releaseWrite blankPart.profile, false)]) := by
    decide +kernel
  have hasks : (schedule.port "loader").cancelled.isSome := rfl
  have hallowed : plan.obstacle? blankPart.profile = none := by decide +kernel
  refine ⟨hasks, hseen, ?_⟩
  obtain ⟨-, hshape⟩ := run_vetted hasks blankPart "EEPROM" plan .fresh ⟨0, 0⟩
  obtain ⟨later, asked, hlater, hplanned⟩ := hshape hallowed
  obtain ⟨-, hrest⟩ := List.cons.inj (hseen.symm.trans hlater)
  obtain ⟨rfl, -⟩ := List.append_inj' hrest rfl
  exact hplanned

/-- Even where the user gave up beforehand, a write goes out that is neither the halt nor the
one that lets the CPU run. -/
theorem run_spoils_unasked :
    let schedule : Schedule := ⟨fun _ => none, some fun _ => true⟩
    let plan : Plan := .eeprom [⟨0, [1, 2, 3]⟩] none
    ¬∀ write asked,
      (write, asked) ∈ vetted false
        (run (schedule.port "loader") blankPart "EEPROM" plan .fresh ⟨0, 0⟩).events →
      write ≠ holdWrite blankPart.profile → write ≠ releaseWrite blankPart.profile →
      asked = true := by
  intro schedule plan hvetted
  have hmem : (spoilWrite, false) ∈ vetted false
      (run (schedule.port "loader") blankPart "EEPROM" plan .fresh ⟨0, 0⟩).events := by
    decide +kernel
  exact absurd (hvetted spoilWrite false hmem (by decide) (by decide)) nofun

end UsbBoot.Pass
