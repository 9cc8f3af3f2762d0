/-
What a script refuses, and why a pass fails.

Whether a plan is allowed is settled by the chip's windows.  The records of an EEPROM have
limits of their own, on how much they hold and on where they point, and those come up only when
a record is to be written.  What a script refuses can be read off the extents of its records
alone; where nothing else goes wrong, a pass fails with the first of them that has no room.
-/
import UsbBoot.Proofs.Pass.Answer
import UsbBoot.Proofs.Pass.EepromScript
import UsbBoot.Proofs.Pass.RamScript

namespace UsbBoot.Pass

open Eeprom (HasRoom)

variable {σ : Type}

/-! ### Refusals -/

def Action.refusal? : Action → Option Failure
  | .refuse cause => some cause
  | _ => none

/-- What some actions refuse, in order. -/
def refusals (actions : List Action) : List Failure :=
  actions.filterMap Action.refusal?

theorem filterMap_cons_toList {α β : Type} (f : α → Option β) (first : α) (rest : List α) :
    (first :: rest).filterMap f = (f first).toList ++ rest.filterMap f := by
  cases h : f first <;> simp [h]

@[simp] theorem refusals_append (xs ys : List Action) :
    refusals (xs ++ ys) = refusals xs ++ refusals ys :=
  List.filterMap_append

theorem mem_refusals {actions : List Action} {cause : Failure} :
    cause ∈ refusals actions ↔ .refuse cause ∈ actions := by
  rw [refusals, List.mem_filterMap]
  constructor
  · rintro ⟨action, hmem, hcause⟩
    cases action with
    | refuse other => exact Option.some.inj hcause ▸ hmem
    | note | enter | hold | check | send | report => cases hcause
  · intro hmem
    exact ⟨.refuse cause, hmem, rfl⟩

theorem refusals_eq_nil_iff {actions : List Action} : refusals actions = [] ↔ Feasible actions := by
  simp only [List.eq_nil_iff_forall_not_mem, mem_refusals, Feasible]

/-! ### The extents of records -/

/-- Where a record points, and how much it holds. -/
structure Extent where
  address : UInt32
  length : Nat
  deriving DecidableEq, Repr

/-- Why a record of this extent is refused, if it is. -/
def Extent.refusal? (extent : Extent) : Option Failure :=
  if HasRoom extent.length extent.address then none
  else some (.outOfRange extent.address extent.length)

/-- The extents of the records that a pass writes, in order; the last one lets the CPU run. -/
def Plan.extents (plan : Plan) (profile : Chip.Profile) : List Extent :=
  match plan.destination with
  | .ram => []
  | .eeprom =>
    (plan.chunks profile).map (fun chunk => ⟨chunk.address, chunk.data.length⟩) ++
      [⟨profile.resetRegister, 1⟩]

theorem Plan.mem_extents {plan : Plan} {profile : Chip.Profile} {extent : Extent} :
    extent ∈ plan.extents profile ↔ plan.destination = .eeprom ∧
      ((∃ chunk ∈ plan.chunks profile, ⟨chunk.address, chunk.data.length⟩ = extent) ∨
        extent = ⟨profile.resetRegister, 1⟩) := by
  unfold extents
  cases plan.destination <;> simp

theorem refusals_recordActions (offset address : UInt32) (data : List UInt8) (last : Bool)
    {between : List Action} (hbetween : Feasible between) :
    refusals (recordActions offset address data last between)
      = (Extent.refusal? ⟨address, data.length⟩).toList := by
  by_cases hroom : HasRoom data.length address
  · rw [Extent.refusal?, if_pos hroom]
    exact refusals_eq_nil_iff.mpr (feasible_recordActions hroom offset last hbetween)
  · rw [Extent.refusal?, if_neg hroom, recordActions_of_not_hasRoom hroom]
    rfl

theorem refusals_chunkRecords (total : Nat) (offset : UInt32) (written : Nat)
    (list : List Chunk) :
    refusals (chunkRecords total offset written list)
      = (list.map fun chunk => Extent.mk chunk.address chunk.data.length).filterMap
        Extent.refusal? := by
  induction list generalizing offset written with
  | nil => rfl
  | cons chunk rest ih =>
      have hrest := ih (nextOffset offset chunk.data.length) (written + chunk.data.length)
      rw [chunkRecords, refusals_append, refusals_recordActions _ _ _ _ (by simp [Feasible]),
        List.map_cons, filterMap_cons_toList, ← hrest]
      rfl

/-- **A script refuses the records that have no room, and nothing else.** -/
theorem refusals_script (profile : Chip.Profile) (identity : Device.Identity) (plan : Plan) :
    refusals (script profile identity plan)
      = (plan.extents profile).filterMap Extent.refusal? := by
  cases hdestination : plan.destination with
  | ram =>
      simp only [script, Plan.extents, hdestination]
      exact refusals_eq_nil_iff.mpr (feasible_ramScript profile _)
  | eeprom =>
      have hnotes := refusals_eq_nil_iff.mpr
        (feasible_notes (eepromNotes profile identity plan.config))
      have hspoil := refusals_eq_nil_iff.mpr (feasible_eepromWrite 0 [Eeprom.noBoot])
      have hseal := refusals_eq_nil_iff.mpr (feasible_eepromWrite 0
        (Eeprom.bootHeader profile identity (configByte profile plan.config)))
      have hlast : ∀ offset, refusals (recordActions offset profile.resetRegister
            [profile.releaseValue] true [])
          = (Extent.refusal? ⟨profile.resetRegister, 1⟩).toList :=
        fun offset => refusals_recordActions offset _ _ _ (by simp [Feasible])
      have henter : refusals [.enter .transferring] = [] := rfl
      have hdone : ∀ line, refusals [.note line] = [] := fun _ => rfl
      simp only [script, hdestination, eepromScript, refusals_append, hnotes, henter, hspoil,
        hseal, hdone, hlast, refusals_chunkRecords, Plan.extents, List.filterMap_append,
        filterMap_cons_toList, List.filterMap_nil, List.nil_append, List.append_nil]

/-- What a script refuses lies outside the range of records. -/
theorem outOfRange_of_mem_refusals {profile : Chip.Profile} {identity : Device.Identity}
    {plan : Plan} {cause : Failure} (h : cause ∈ refusals (script profile identity plan)) :
    ∃ extent ∈ plan.extents profile, ¬HasRoom extent.length extent.address ∧
      cause = .outOfRange extent.address extent.length := by
  rw [refusals_script, List.mem_filterMap] at h
  obtain ⟨extent, hmem, hrefused⟩ := h
  unfold Extent.refusal? at hrefused
  split at hrefused
  · cases hrefused
  · rename_i hroom
    exact ⟨extent, hmem, hroom, (Option.some.inj hrefused).symm⟩

/-! ### Why a pass fails -/

theorem perform_calm {port : Port σ} (hcalm : port.Calm) (pass : String) (actions : List Action)
    (engine : Engine) (state : σ) :
    (perform port pass actions engine state).failure = (refusals actions).head? := by
  induction actions generalizing engine state with
  | nil => rfl
  | cons action rest ih =>
      cases action with
      | note line => exact ih engine state
      | enter phase => exact ih _ state
      | hold => exact ih _ state
      | report written total => exact ih engine state
      | refuse cause => rfl
      | check =>
          rw [perform]
          cases hask : port.cancelled with
          | none => exact ih engine state
          | some ask =>
              have hanswer := hcalm.asks ask hask state
              rcases hnext : ask state with ⟨answer, next⟩
              rw [hnext] at hanswer
              obtain rfl : answer = false := hanswer
              simp only [hnext]
              exact ih engine next
      | send write =>
          have hcalmly := hcalm.writes write state
          rw [perform]
          rcases hnext : port.write write state with ⟨reply, next⟩
          have hreply : reply.failure = none := by rwa [hnext] at hcalmly
          simp only [hreply]
          exact ih engine next

/-- On a calm port an allowed pass fails with the first record that has no room. -/
theorem run_calm_failure {port : Port σ} (hcalm : port.Calm) (target : Target) (pass : String)
    {plan : Plan} (engine : Engine) (state : σ) (h : plan.obstacle? target.profile = none) :
    (run port target pass plan engine state).failure
      = ((plan.extents target.profile).filterMap Extent.refusal?).head? := by
  have hbody := perform_calm hcalm pass (script target.profile target.identity plan)
    engine.restart state
  rw [refusals_script] at hbody
  cases hhead : ((plan.extents target.profile).filterMap Extent.refusal?).head? with
  | none =>
      have hfeasible : Feasible (script target.profile target.identity plan) := by
        rw [← refusals_eq_nil_iff, refusals_script]
        exact List.head?_eq_none_iff.mp hhead
      exact (run_calm hcalm target pass engine state h hfeasible).2.1
  | some cause =>
      rw [hhead] at hbody
      simp only [run, h, finish, hbody, Run.after, finishBadly]
      split
      · split <;> rfl
      · rfl

theorem Answered.failures {port : Port σ} {state final : σ} {events : List Event}
    (h : Answered port state events final) {kind : Failure → Prop}
    (hport : ∀ write state cause, (port.write write state).1.failure = some cause → kind cause) :
    ∀ attempt ∈ attempts events, ∀ cause, attempt.failure = some cause → kind cause := by
  induction h with
  | done => exact nofun
  | progress pass written total _ ih => exact ih
  | asked ask _ _ ih => exact ih
  | wrote write _ ih => exact List.forall_mem_cons.mpr ⟨hport write _, ih⟩

/-- A pass fails because its plan is not allowed, because the user gave up, with a failure of
the port, or because a record has no room. -/
theorem run_cause {port : Port σ} {kind : Failure → Prop}
    (hport : ∀ write state cause, (port.write write state).1.failure = some cause → kind cause)
    {target : Target} {pass : String} {plan : Plan} {engine : Engine} {state : σ}
    {cause : Failure} (h : (run port target pass plan engine state).failure = some cause) :
    plan.obstacle? target.profile = some cause ∨
      plan.obstacle? target.profile = none ∧ (cause = .cancelled ∨ kind cause ∨
        cause ∈ refusals (script target.profile target.identity plan)) := by
  cases hobstacle : plan.obstacle? target.profile with
  | some obstacle =>
      rw [run_refused port target pass engine state hobstacle] at h
      exact Or.inl h
  | none =>
      refine Or.inr ⟨rfl, ?_⟩
      have hkind := (run_answered port target pass plan engine state).failures hport
      cases run_ended port target pass engine state hobstacle with
      | finished release _ seen failure =>
          have hrelease := eq_some_of_unlessDisconnect (failure.symm.trans h)
          refine Or.inr (Or.inl (hkind ⟨releaseWrite target.profile, release⟩ ?_ cause hrelease))
          simp [seen]
      | stopped release before after action other last split stops seen failure =>
          obtain rfl := Option.some.inj (failure.symm.trans h)
          cases stops with
          | check => exact Or.inl rfl
          | send write =>
              exact Or.inr (Or.inl (hkind ⟨write, some other⟩ (by simp [seen]) other rfl))
          | refuse =>
              refine Or.inr (Or.inr (mem_refusals.mpr ?_))
              rw [split]
              exact List.mem_append_right before List.mem_cons_self

end UsbBoot.Pass
