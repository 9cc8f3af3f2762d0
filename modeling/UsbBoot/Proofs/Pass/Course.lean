/-
The course of a pass in which nothing goes wrong.

What a pass is to write follows from its plan alone: the chunks outside the chip, the halt and
the chunks on the chip, or the spoiled marker, the records and the header; and in the end the
CPU is let run.  A pass that succeeded wrote just this, and every write went well.  There is
one exception: when the CPU was let run, the device may have left the bus.
-/
import Mathlib.Data.List.Forall2
import UsbBoot.Proofs.Load.InTurn
import UsbBoot.Proofs.Pass.EepromOrder

namespace UsbBoot

variable {σ : Type}

namespace Pass

/-- What a pass writes for its plan when nothing goes wrong. -/
def Plan.course (plan : Plan) (target : Target) : List ControlWrite :=
  let chunks := plan.chunks target.profile
  match plan.destination with
  | .ram =>
    externalWrites chunks ++ [holdWrite target.profile] ++ onChipWrites chunks
  | .eeprom =>
    spoilWrite :: imageWrites target.profile chunks ++
      [sealWrite target.profile target.identity plan.config]

theorem sends_sealing (profile : Chip.Profile) (identity : Device.Identity)
    (config : Option UInt8) (stop : UInt32) :
    sends (sealing profile identity config stop) = [sealWrite profile identity config] := rfl

/-- A script that comes upon nothing it has to refuse sends the course of its plan. -/
theorem sends_script {target : Target} {plan : Plan}
    (h : Feasible (script target.profile target.identity plan)) :
    sends (script target.profile target.identity plan) = plan.course target := by
  unfold Plan.course
  cases hdestination : plan.destination with
  | ram => rw [script_of_ram target.profile target.identity hdestination, sends_ramScript]
  | eeprom =>
      have hscript := script_eq_opening target.profile target.identity hdestination
      rw [hscript] at h ⊢
      rw [opening_append, feasible_append] at h
      have hrecords : Feasible
          (recordsScript target.profile plan.length (plan.chunks target.profile)) := by
        intro cause hmem
        refine h.1 cause ?_
        exact List.mem_append_right _ (List.mem_cons_of_mem _ (List.mem_append_right _ hmem))
      rw [sends_opening, sends_append, sends_recordsScript_of_feasible hrecords, sends_sealing]
      rfl

/-! ### Planned writes -/

/-- A write as it is meant to happen. -/
structure Planned where
  write : ControlWrite
  /-- Whether it is there to let the CPU run. -/
  release : Bool
  deriving DecidableEq, Repr

/-- All that a pass is to write. -/
def Plan.planned (plan : Plan) (target : Target) : List Planned :=
  (plan.course target).map (⟨·, false⟩) ++ [⟨releaseWrite target.profile, true⟩]

theorem writes_planned (plan : Plan) (target : Target) :
    (plan.planned target).map Planned.write
      = plan.course target ++ [releaseWrite target.profile] := by
  simp [Plan.planned, Function.comp_def]

/-- The attempt that came of a planned write when the pass did not fail by it. -/
inductive Planned.Done (planned : Planned) : Attempt → Prop
  | well : Done planned (.ok planned.write)
  /-- The device had left the bus when the CPU was let run. -/
  | left (cause : Failure) (hrelease : planned.release = true)
    (hleft : cause.isDisconnect = true) : Done planned ⟨planned.write, some cause⟩

theorem write_of_release {plan : Plan} {target : Target} {planned : Planned}
    (h : planned ∈ plan.planned target) (hrelease : planned.release = true) :
    planned.write = releaseWrite target.profile := by
  rcases List.mem_append.mp h with hcourse | hlast
  · obtain ⟨write, -, rfl⟩ := List.mem_map.mp hcourse
    cases hrelease
  · rw [List.mem_singleton.mp hlast]

theorem Planned.Done.write {planned : Planned} {attempt : Attempt} (h : planned.Done attempt) :
    attempt.write = planned.write := by
  cases h <;> rfl

theorem done_course (list : List ControlWrite) :
    List.Forall₂ Planned.Done (list.map (⟨·, false⟩)) (list.map Attempt.ok) := by
  induction list with
  | nil => exact .nil
  | cons write rest ih => exact .cons .well ih

/-- What was done as planned was written as planned. -/
theorem writes_of_done {list : List Planned} {tried : List Attempt}
    (h : List.Forall₂ Planned.Done list tried) :
    tried.map Attempt.write = list.map Planned.write := by
  induction h with
  | nil => rfl
  | cons hfirst _ ih => rw [List.map_cons, List.map_cons, hfirst.write, ih]

/-- A pass that succeeds does all that is planned, in order, and nothing else. -/
theorem run_planned (port : Port σ) (target : Target) (pass : String) {plan : Plan}
    (engine : Engine) (state : σ)
    (h : (run port target pass plan engine state).failure = none) :
    List.Forall₂ Planned.Done (plan.planned target)
      (attempts (run port target pass plan engine state).events) := by
  obtain ⟨hallowed, hfeasible⟩ := feasible_of_success h
  obtain ⟨release, hleft, hattempts⟩ :=
    (run_ended port target pass engine state hallowed).through h
  rw [hattempts, sends_script hfeasible]
  refine List.rel_append (done_course _) (.cons ?_ .nil)
  cases release with
  | none => exact .well
  | some cause => exact .left cause rfl (isDisconnect_of_unlessDisconnect hleft cause rfl)

end Pass

/-! ### Loads -/

open Pass (Answered Destination Engine Target deeds)

/-- A load through a loader that succeeds is two passes that do. -/
theorem loadThrough_well {port : Port σ} {target : Target} {loader firmware : Image}
    {destination : Destination} {config : Option UInt8} {engine : Engine} {state : σ}
    (h : (loadThrough port target loader firmware destination config engine state).failure = none) :
    let loaded := Pass.run port target "loader" loader.onChipPlan engine state
    let placed := Pass.run port target "firmware" (destination.plan config firmware) loaded.engine
      loaded.port
    loaded.failure = none ∧ placed.failure = none ∧
      (loadThrough port target loader firmware destination config engine state).EndsLike placed
        (deeds loaded.events ++ deeds placed.events) := by
  intro loaded placed
  rcases loadThrough_cases port target loader firmware destination config engine state with
    ⟨cause, -, hresult⟩ | ⟨cause, hloaded, hends⟩ | ⟨hloaded, hends⟩
  · rw [hresult] at h
    cases h
  · cases h.symm.trans (hends.failure.trans hloaded)
  · exact ⟨hloaded, hends.failure.symm.trans h, hends⟩

/-- All that is seen of a load through a loader is what the port answered. -/
theorem loadThrough_answered (port : Port σ) (target : Target) (loader firmware : Image)
    (destination : Destination) (config : Option UInt8) (engine : Engine) (state : σ) :
    Answered port state
      (deeds (loadThrough port target loader firmware destination config engine state).events)
      (loadThrough port target loader firmware destination config engine state).port := by
  have hanswered := Pass.run_answered port target "loader" loader.onChipPlan engine state
  rcases loadThrough_cases port target loader firmware destination config engine state with
    ⟨cause, -, hresult⟩ | ⟨cause, -, hends⟩ | ⟨-, hends⟩
  · rw [hresult]
    exact .done state
  · rw [hends.done, hends.port]
    exact hanswered
  · rw [hends.done, hends.port]
    exact hanswered.append (Pass.run_answered ..)

theorem loadOnChip_answered (port : Port σ) (target : Target) (image : Image) (engine : Engine)
    (state : σ) :
    Answered port state (deeds (loadOnChip port target image engine state).events)
      (loadOnChip port target image engine state).port :=
  Pass.run_answered port target "firmware" image.onChipPlan engine state

end UsbBoot
