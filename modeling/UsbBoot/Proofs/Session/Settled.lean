/-
What an engine is between two calls.

An engine outlives a call: plans are judged for it, passes and loads are run on it, one after
the other and with any outcome.  While a pass is performed its phase goes through all there
are.  Whoever looks at it between calls finds one of three, and by that knows what the last
pass came to: it went well, its plan was not allowed, or it broke.  How letting the CPU run
failed is kept only after a pass that broke.

A load through a loader that is not allowed leaves the engine as it was, with whatever an
earlier pass left behind.  So what holds between calls is carried along all calls, and not
just read off the last one.
-/
import Mathlib.Logic.ExistsUnique
import UsbBoot.Proofs.Load.InTurn

namespace UsbBoot

variable {σ : Type}

namespace Pass

/-! ### What a pass comes to -/

/-- What a pass can come to. -/
inductive Verdict
  | well
  /-- Its plan was not allowed. -/
  | rejected
  /-- It was begun and failed. -/
  | broken
  deriving DecidableEq, Repr

/-- The phase by which it is known what the last pass came to. -/
def Verdict.phase : Verdict → Phase
  | .well => .done
  | .rejected => .idle
  | .broken => .failed

theorem Verdict.eq_of_phase {one other : Verdict} (h : one.phase = other.phase) : one = other := by
  cases one <;> cases other <;> cases h <;> rfl

/-- A pass came to this, its plan having been judged so. -/
def Run.CameTo (run : Run σ) (obstacle : Option Failure) : Verdict → Prop
  | .well =>
    run.failure = none ∧ run.engine.phase = .done ∧ run.engine.releaseFailure = none
  | .rejected =>
    obstacle.isSome ∧ run.failure = obstacle ∧ deeds run.events = [] ∧
      run.engine.phase = .idle ∧ run.engine.releaseFailure = none
  | .broken =>
    obstacle = none ∧ attempts run.events ≠ [] ∧ run.failure.isSome ∧ run.engine.phase = .failed

theorem Run.CameTo.phase {run : Run σ} {obstacle : Option Failure} {verdict : Verdict}
    (h : run.CameTo obstacle verdict) : run.engine.phase = verdict.phase := by
  cases verdict with
  | well => exact h.2.1
  | rejected => exact h.2.2.2.1
  | broken => exact h.2.2.2

/-- No pass comes to two things. -/
theorem Run.CameTo.unique {run : Run σ} {obstacle : Option Failure} {one other : Verdict}
    (hone : run.CameTo obstacle one) (hother : run.CameTo obstacle other) : one = other :=
  Verdict.eq_of_phase (hone.phase.symm.trans hother.phase)

/-- Remarks made beforehand do not change what a pass came to. -/
theorem Run.CameTo.after {run : Run σ} {obstacle : Option Failure} {verdict : Verdict}
    (h : run.CameTo obstacle verdict) (line : Log.Line) :
    (run.after [.note line]).CameTo obstacle verdict := by
  cases verdict <;> exact h

/-- Every pass comes to something, whatever the engine was before. -/
theorem run_cameTo (port : Port σ) (target : Target) (pass : String) (plan : Plan)
    (engine : Engine) (state : σ) :
    ∃ verdict,
      (run port target pass plan engine state).CameTo (plan.obstacle? target.profile) verdict := by
  cases hobstacle : plan.obstacle? target.profile with
  | some cause =>
      rw [run_refused port target pass engine state hobstacle]
      exact ⟨.rejected, rfl, rfl, rfl, rfl, rfl⟩
  | none =>
      have hattempts := attempts_ne_nil port target pass engine state hobstacle
      cases run_ended port target pass engine state hobstacle with
      | finished release feasible seen failure phase releaseFailure =>
          cases hfailure : (run port target pass plan engine state).failure with
          | none =>
              rw [hfailure] at phase
              exact ⟨.well, hfailure, phase, releaseFailure⟩
          | some cause =>
              -- All was written, but the CPU could not be let run.
              rw [hfailure] at phase
              exact ⟨.broken, rfl, hattempts, by rw [hfailure]; rfl, phase⟩
      | stopped release before after action cause last split stops seen failure phase _ =>
          exact ⟨.broken, rfl, hattempts, by rw [failure]; rfl, phase⟩

/-! ### What holds between calls -/

/-- What holds of an engine whenever none of its passes is under way. -/
structure Engine.Settled (engine : Engine) : Prop where
  /-- It has not been used, or tells how its last pass ended. -/
  phase : engine.phase = .idle ∨ engine.phase = .done ∨ engine.phase = .failed
  /-- A failed release goes with a failed pass. -/
  releaseFailure : engine.releaseFailure.isSome → engine.phase = .failed

theorem Engine.settled_fresh : Engine.fresh.Settled :=
  ⟨Or.inl rfl, nofun⟩

theorem Run.CameTo.settled {run : Run σ} {obstacle : Option Failure} {verdict : Verdict}
    (h : run.CameTo obstacle verdict) : run.engine.Settled := by
  cases verdict with
  | well =>
      obtain ⟨-, hphase, hnone⟩ := h
      exact ⟨Or.inr (Or.inl hphase), fun hsome => by simp [hnone] at hsome⟩
  | rejected =>
      obtain ⟨-, -, -, hphase, hnone⟩ := h
      exact ⟨Or.inl hphase, fun hsome => by simp [hnone] at hsome⟩
  | broken =>
      obtain ⟨-, -, -, hphase⟩ := h
      exact ⟨Or.inr (Or.inr hphase), fun _ => hphase⟩

theorem settled_run (port : Port σ) (target : Target) (pass : String) (plan : Plan)
    (engine : Engine) (state : σ) : (run port target pass plan engine state).engine.Settled := by
  obtain ⟨verdict, hcame⟩ := run_cameTo port target pass plan engine state
  exact hcame.settled

end Pass

open Pass (Destination Engine Plan Run Target Verdict attempts)

theorem loadOnChip_cameTo (port : Port σ) (target : Target) (image : Image) (engine : Engine)
    (state : σ) :
    ∃ verdict, (loadOnChip port target image engine state).CameTo
      (image.onChipPlan.obstacle? target.profile) verdict := by
  obtain ⟨verdict, hcame⟩ := Pass.run_cameTo port target "firmware" image.onChipPlan engine state
  exact ⟨verdict, hcame.after _⟩

/-- A load through a loader leaves the engine alone, or as one of its passes did. -/
theorem settled_loadThrough (port : Port σ) (target : Target) (loader firmware : Image)
    (destination : Destination) (config : Option UInt8) {engine : Engine} (state : σ)
    (h : engine.Settled) :
    (loadThrough port target loader firmware destination config engine state).engine.Settled := by
  rcases loadThrough_cases port target loader firmware destination config engine state with
    ⟨cause, -, hresult⟩ | ⟨cause, -, hends⟩ | ⟨-, hends⟩
  · rw [hresult]
    exact h
  · rw [hends.engine]
    exact Pass.settled_run ..
  · rw [hends.engine]
    exact Pass.settled_run ..

/-! ### Calls -/

namespace Session

/-- What can be asked of an engine. -/
inductive Call
  /-- To say what stands in the way of a plan. -/
  | judge (plan : Plan)
  /-- To run a pass under a name. -/
  | pass (name : String) (plan : Plan)
  | loadOnChip (image : Image)
  | loadThrough (loader firmware : Image) (destination : Destination) (config : Option UInt8)
  deriving DecidableEq, Repr

/-- What comes of a call. -/
def Call.run (port : Port σ) (target : Target) (call : Call) (engine : Engine) (state : σ) :
    Run σ :=
  match call with
  | .judge plan => ⟨engine, state, [], plan.obstacle? target.profile⟩
  | .pass name plan => Pass.run port target name plan engine state
  | .loadOnChip image => UsbBoot.loadOnChip port target image engine state
  | .loadThrough loader firmware destination config =>
    UsbBoot.loadThrough port target loader firmware destination config engine state

/-- An engine, and the state its port is in. -/
structure Standing (σ : Type) where
  engine : Engine
  port : σ
  deriving DecidableEq, Repr

/-- A new engine. -/
def Standing.fresh (state : σ) : Standing σ :=
  ⟨.fresh, state⟩

/-- What some calls lead to, one after the other. -/
def after (port : Port σ) (target : Target) (calls : List Call) (standing : Standing σ) :
    Standing σ :=
  match calls with
  | [] => standing
  | call :: rest =>
    let run := call.run port target standing.engine standing.port
    after port target rest ⟨run.engine, run.port⟩

theorem Call.settled_run (port : Port σ) (target : Target) (call : Call) {engine : Engine}
    (state : σ) (h : engine.Settled) : (call.run port target engine state).engine.Settled := by
  cases call with
  | judge plan => exact h
  | pass name plan => exact Pass.settled_run ..
  | loadOnChip image => exact Pass.settled_run ..
  | loadThrough loader firmware destination config => exact settled_loadThrough _ _ _ _ _ _ _ h

theorem settled_after (port : Port σ) (target : Target) (calls : List Call)
    {standing : Standing σ} (h : standing.engine.Settled) :
    (after port target calls standing).engine.Settled := by
  induction calls generalizing standing with
  | nil => exact h
  | cons call rest ih => exact ih (call.settled_run port target standing.port h)

/--
**Between calls an engine tells what its last pass came to.**

Whatever has been asked of an engine, and however it went, its phase is that of an engine that
has not been used, of a pass that went well or of one that failed, and it keeps a failed release
only in the last case.  The next pass, or the next load onto the chip, comes to exactly one of
three things: it goes well; its plan is not allowed and nothing is done; or it was allowed, wrote
something and failed.
-/
theorem after_settles (port : Port σ) (target : Target) (calls : List Call) (state : σ) :
    let reached := after port target calls (.fresh state)
    reached.engine.Settled ∧
      (∀ name plan, ∃! verdict,
        (Pass.run port target name plan reached.engine reached.port).CameTo
          (plan.obstacle? target.profile) verdict) ∧
      ∀ image, ∃! verdict,
        (loadOnChip port target image reached.engine reached.port).CameTo
          (image.onChipPlan.obstacle? target.profile) verdict := by
  intro reached
  refine ⟨settled_after port target calls Engine.settled_fresh, fun name plan => ?_,
    fun image => ?_⟩
  · obtain ⟨verdict, hcame⟩ :=
      Pass.run_cameTo port target name plan reached.engine reached.port
    exact ⟨verdict, hcame, fun other hother => hother.unique hcame⟩
  · obtain ⟨verdict, hcame⟩ :=
      loadOnChip_cameTo port target image reached.engine reached.port
    exact ⟨verdict, hcame, fun other hother => hother.unique hcame⟩

/-- A pass breaks and cannot let the CPU run either; a load that is not allowed leaves this as
it is. -/
theorem after_settles_stubborn :
    let schedule : Schedule := ⟨fun n => if n < 2 then some (.usb .pipe) else none, none⟩
    let port := schedule.port "loader"
    let inside : Image := ⟨[⟨0x0000, [1, 2]⟩]⟩
    let outside : Image := ⟨[⟨0x2000, [3]⟩]⟩
    let calls : List Call :=
      [.loadOnChip inside, .judge inside.onChipPlan, .loadThrough outside inside .ram none]
    let reached := after port Pass.blankPart calls (.fresh ⟨0, 0⟩)
    reached.engine.phase = .failed ∧ reached.engine.releaseFailure = some (.usb .pipe) ∧
      reached.engine.Settled ∧
      (∃! verdict, (loadOnChip port Pass.blankPart outside reached.engine reached.port).CameTo
        (outside.onChipPlan.obstacle? Pass.blankPart.profile) verdict) ∧
      (loadOnChip port Pass.blankPart outside reached.engine reached.port).engine = .fresh := by
  intro schedule port inside outside calls reached
  obtain ⟨hsettled, -, honChip⟩ := after_settles port Pass.blankPart calls ⟨0, 0⟩
  exact ⟨by decide +kernel, by decide +kernel, hsettled, honChip outside, by decide +kernel⟩

end Session
end UsbBoot
