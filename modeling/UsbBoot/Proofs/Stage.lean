/-
Stages put together.

If a sequence of stages yields a value, each of them yielded one.  Most stages write nothing
to a device: they are still.  What is written by a sequence that begins with still stages is
written by what follows them, and then all of them have yielded a value.
-/
import UsbBoot.Proofs.Output
import UsbBoot.Proofs.Pass.RamScript

namespace UsbBoot

variable {ε ε' α β : Type}

/-! ### Results -/

theorem mapError_eq_ok_iff {change : ε → ε'} {result : Except ε α} {value : α} :
    result.mapError change = .ok value ↔ result = .ok value := by
  cases result with
  | ok found =>
      show Except.ok found = .ok value ↔ _
      simp
  | error error =>
      show Except.error (change error) = .ok value ↔ _
      simp

theorem mapError_eq_error_iff {change : ε → ε'} {result : Except ε α} {error : ε'} :
    result.mapError change = .error error
      ↔ ∃ cause, result = .error cause ∧ change cause = error := by
  cases result with
  | ok found =>
      show Except.ok found = .error error ↔ _
      simp
  | error cause =>
      show Except.error (change cause) = .error error ↔ _
      simp

theorem bind_eq_ok_iff {result : Except ε α} {next : α → Except ε β} {last : β} :
    (result >>= next) = .ok last ↔ ∃ value, result = .ok value ∧ next value = .ok last := by
  cases result <;> simp [bind, Except.bind]

theorem bind_eq_error_iff {result : Except ε α} {next : α → Except ε β} {error : ε} :
    (result >>= next) = .error error
      ↔ result = .error error ∨ ∃ value, result = .ok value ∧ next value = .error error := by
  cases result <;> simp [bind, Except.bind]

theorem Stage.result_bind_eq_ok_iff {stage : Stage ε α} {next : α → Stage ε β} {last : β} :
    (stage >>= next).result = .ok last ↔
      ∃ value, stage.result = .ok value ∧ (next value).result = .ok last := by
  rw [Stage.result_bind, bind_eq_ok_iff]

namespace Stage

theorem result_ofExcept (result : Except ε α) : (ofExcept result).result = result := rfl

theorem result_note (lines : List Log.Line) : (note lines : Stage ε Unit).result = pure () := rfl

theorem result_call (call : Usb.Call) : (Stage.call call : Stage ε Unit).result = pure () := rfl

theorem result_onFailure (stage : Stage ε α) (effects : List Effect) :
    (stage.onFailure effects).result = stage.result := by
  unfold onFailure
  split <;> rfl

end Stage

/-! ### Effects -/

theorem Stage.mem_effects_bind_left {stage : Stage ε α} (next : α → Stage ε β) {effect : Effect}
    (h : effect ∈ stage.effects) : effect ∈ (stage >>= next).effects := by
  cases hresult : stage.result with
  | ok value =>
      rw [effects_bind_of_ok next hresult]
      exact List.mem_append_left _ h
  | error error => rwa [effects_bind_of_error next hresult]

theorem Stage.mem_effects_bind_right {stage : Stage ε α} {next : α → Stage ε β} {value : α}
    (hresult : stage.result = .ok value) {effect : Effect}
    (h : effect ∈ (next value).effects) : effect ∈ (stage >>= next).effects := by
  rw [effects_bind_of_ok next hresult]
  exact List.mem_append_right _ h

/-! ### Still stages -/

/-- The transfer that an effect is, if it is one. -/
def Effect.transfer? : Effect → Option Usb.Transfer
  | .call (.transfer transfer) => some transfer
  | .call _ | .log _ | .tell _ | .print _ => none

namespace Stage

/-- A stage that writes nothing to a device. -/
def Still (stage : Stage ε α) : Prop :=
  ∀ effect ∈ stage.effects, effect.transfer? = none

theorem still_of_none {stage : Stage ε α} (h : stage.effects = []) : stage.Still := by
  simp [Still, h]

theorem still_pure (value : α) : (pure value : Stage ε α).Still :=
  still_of_none rfl

theorem still_ofExcept (result : Except ε α) : (ofExcept result).Still :=
  still_of_none rfl

theorem still_note (lines : List Log.Line) : (note lines : Stage ε Unit).Still := by
  intro effect hmem
  obtain ⟨line, -, rfl⟩ := List.mem_map.mp hmem
  rfl

theorem still_tell (lines : List String) : (tell lines : Stage ε Unit).Still := by
  intro effect hmem
  obtain ⟨line, -, rfl⟩ := List.mem_map.mp hmem
  rfl

theorem still_print (text : String) : (emit [.print text] : Stage ε Unit).Still := by
  simp [Still, emit, Effect.transfer?]

theorem still_call {call : Usb.Call} (h : (Effect.call call).transfer? = none) :
    (Stage.call call : Stage ε Unit).Still :=
  List.forall_mem_singleton.mpr h

theorem Still.bind {stage : Stage ε α} {next : α → Stage ε β} (h : stage.Still)
    (hnext : ∀ value, (next value).Still) : (stage >>= next).Still := by
  cases hresult : stage.result with
  | ok value =>
      rw [Still, effects_bind_of_ok next hresult]
      exact List.forall_mem_append.mpr ⟨h, hnext value⟩
  | error error =>
      rw [Still, effects_bind_of_error next hresult]
      exact h

theorem Still.mapError {stage : Stage ε α} (h : stage.Still) (change : ε → ε') :
    (stage.mapError change).Still :=
  h

theorem Still.endingWith {stage : Stage ε α} (h : stage.Still) {effects : List Effect}
    (heffects : ∀ effect ∈ effects, effect.transfer? = none) :
    (stage.endingWith effects).Still :=
  List.forall_mem_append.mpr ⟨h, heffects⟩

theorem Still.onFailure {stage : Stage ε α} (h : stage.Still) {effects : List Effect}
    (heffects : ∀ effect ∈ effects, effect.transfer? = none) :
    (stage.onFailure effects).Still := by
  rw [Stage.onFailure]
  split
  · exact h
  · exact h.endingWith heffects

theorem OnlyLogs.still {stage : Stage ε α} {value : α} (h : stage.OnlyLogs value) :
    stage.Still := by
  obtain ⟨lines, rfl⟩ := h
  exact @still_note ε lines

theorem Still.not_mem {stage : Stage ε α} (h : stage.Still) {effect : Effect}
    {transfer : Usb.Transfer} (htransfer : effect.transfer? = some transfer) :
    effect ∉ stage.effects := by
  intro hmem
  rw [h effect hmem] at htransfer
  cases htransfer

section

variable {stage : Stage ε α} {next : α → Stage ε β} {before after : List Effect}
  {effect : Effect} {transfer : Usb.Transfer} (htransfer : effect.transfer? = some transfer)
  (hsplit : (stage >>= next).effects = before ++ effect :: after)
include htransfer hsplit

/-- What is written in a sequence that begins with a still stage is written behind that. -/
theorem Still.split_bind (h : stage.Still) :
    ∃ value later, stage.result = .ok value ∧ before = stage.effects ++ later ∧
      (next value).effects = later ++ effect :: after := by
  cases hresult : stage.result with
  | ok value =>
      rw [effects_bind_of_ok next hresult] at hsplit
      rcases Pass.split_append hsplit with ⟨middle, hfront⟩ | ⟨later, hbefore, hnext⟩
      · refine absurd ?_ (h.not_mem htransfer)
        exact hfront ▸ List.mem_append_right before List.mem_cons_self
      · exact ⟨value, later, rfl, hbefore, hnext⟩
  | error error =>
      rw [effects_bind_of_error next hresult] at hsplit
      exact absurd (hsplit ▸ List.mem_append_right before List.mem_cons_self) (h.not_mem htransfer)

/-- What is written in a sequence that ends with still stages is written before them. -/
theorem split_of_still (hnext : ∀ value, (next value).Still) :
    ∃ middle, stage.effects = before ++ effect :: middle := by
  cases hresult : stage.result with
  | ok value =>
      rw [effects_bind_of_ok next hresult] at hsplit
      rcases Pass.split_append hsplit with hfront | ⟨later, -, hlast⟩
      · exact hfront
      · exact absurd (hlast ▸ List.mem_append_right later List.mem_cons_self)
          ((hnext value).not_mem htransfer)
  | error error =>
      rw [effects_bind_of_error next hresult] at hsplit
      exact ⟨after, hsplit⟩

end

end Stage
end UsbBoot
