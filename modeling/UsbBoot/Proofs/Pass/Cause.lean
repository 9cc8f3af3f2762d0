/-
Why a pass fails.

A pass fails because its plan is not allowed, because the user gave up, because a write failed,
or because a record has no room for what it is to hold.  Of these only the user's wish calls for
an exit code of its own: nothing that goes wrong on a device is taken for a device that was not
found.
-/
import UsbBoot.Proofs.Load.InTurn
import UsbBoot.Proofs.Pass.Refusal
import UsbBoot.Report

namespace UsbBoot

variable {σ : Type}

/-- A failure that calls for no exit code of its own. -/
def Failure.Plain (failure : Failure) : Prop :=
  (Report.ofFailure failure).exitCode = 1

/-- A port all of whose failures are plain. -/
def Port.Plain (port : Port σ) : Prop :=
  ∀ write state cause, (port.write write state).1.failure = some cause → cause.Plain

namespace Pass

/-! ### Passes -/

theorem plain_of_firstOutside? {list : List Chunk} {cause : Failure}
    (h : Plan.firstOutside? list = some cause) : cause.Plain := by
  obtain ⟨chunk, -, rfl⟩ := Option.map_eq_some_iff.mp h
  rfl

theorem plain_of_obstacle? {plan : Plan} {profile : Chip.Profile} {cause : Failure}
    (h : plan.obstacle? profile = some cause) : cause.Plain := by
  unfold Plan.obstacle? at h
  by_cases hlacks : plan.destination = .eeprom ∧ profile.hasEeprom = false
  · rw [if_pos hlacks] at h
    obtain rfl := Option.some.inj h
    rfl
  · rw [if_neg hlacks] at h
    by_cases hreaches : plan.destination = .ram ∧ plan.ramMode = .externalFirst
    · rw [if_pos hreaches] at h
      cases h
    · rw [if_neg hreaches] at h
      exact plain_of_firstOutside? h

/-- A pass on such a port fails plainly, or because the user gave up. -/
theorem run_plain {port : Port σ} (hport : port.Plain) {target : Target} {pass : String}
    {plan : Plan} {engine : Engine} {state : σ} {cause : Failure}
    (h : (run port target pass plan engine state).failure = some cause) :
    cause = .cancelled ∨ cause.Plain := by
  rcases run_cause hport h with hobstacle | ⟨-, hcancelled | hplain | hrefused⟩
  · exact Or.inr (plain_of_obstacle? hobstacle)
  · exact Or.inl hcancelled
  · exact Or.inr hplain
  · obtain ⟨extent, -, -, rfl⟩ := outOfRange_of_mem_refusals hrefused
    exact Or.inr rfl

end Pass

/-! ### Loads -/

open Pass (Destination Engine Target)

theorem loadThrough_plain {port : Port σ} (hport : port.Plain) {target : Target}
    {loader firmware : Image} {destination : Destination} {config : Option UInt8}
    {engine : Engine} {state : σ} {cause : Failure}
    (h : (loadThrough port target loader firmware destination config engine state).failure
      = some cause) : cause = .cancelled ∨ cause.Plain := by
  rcases loadThrough_cases port target loader firmware destination config engine state with
    ⟨other, hobstacle, hresult⟩ | ⟨other, -, hends⟩ | ⟨-, hends⟩
  · rw [hresult] at h
    obtain rfl := Option.some.inj h
    rcases hobstacle with hfirst | hsecond
    · exact Or.inr (Pass.plain_of_obstacle? hfirst)
    · exact Or.inr (Pass.plain_of_obstacle? hsecond)
  · exact Pass.run_plain hport (hends.failure.symm.trans h)
  · exact Pass.run_plain hport (hends.failure.symm.trans h)

end UsbBoot
