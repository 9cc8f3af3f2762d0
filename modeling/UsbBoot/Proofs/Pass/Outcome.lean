/-
What a pass comes to.

Whether the CPU is let run at the end of a pass hangs on two marks in the engine, which
are set at different points of a body and, before a write that may fail, in advance.
`Guarded` is what the marks have to satisfy along a body: wherever an action can stop it,
one of them is set, and at its end as well.  Both kinds of script are guarded, so every
pass that is allowed ends with one attempt to let the CPU run, however it went.

`run_ended` puts body and end together.  It is the only place where `finish` is opened.
-/
import UsbBoot.Proofs.Pass.Transfer

namespace UsbBoot.Pass

variable {σ : Type}

/-! ### The marks along a body -/

def Action.canStop : Action → Bool
  | .check | .send _ | .refuse _ => true
  | .note _ | .enter _ | .hold | .report .. => false

theorem Stops.canStop {action : Action} {cause : Failure} {last : List Event}
    (h : Stops action cause last) : action.canStop = true := by
  cases h <;> rfl

/-- Wherever the actions can be stopped, and at their end, the CPU is to be let run. -/
def Guarded : Engine → List Action → Prop
  | engine, [] => engine.needsRelease = true
  | engine, action :: rest =>
    (action.canStop = true → engine.needsRelease = true) ∧ Guarded (action.engine engine) rest

/-- In front of a guarded body, steady actions have to be guarded by the engine they find. -/
theorem guarded_append {engine : Engine} {front back : List Action}
    (hsteady : ∀ action ∈ front, action.Steady)
    (hmarked : ∀ action ∈ front, action.canStop = true → engine.needsRelease = true)
    (hback : Guarded engine back) : Guarded engine (front ++ back) := by
  induction front with
  | nil => exact hback
  | cons action rest ih =>
      refine ⟨hmarked action List.mem_cons_self, ?_⟩
      rw [hsteady action List.mem_cons_self engine]
      exact ih (fun other hmem => hsteady other (List.mem_cons_of_mem _ hmem))
        (fun other hmem => hmarked other (List.mem_cons_of_mem _ hmem))

theorem guarded_steady {engine : Engine} {actions : List Action}
    (hsteady : ∀ action ∈ actions, action.Steady) (h : engine.needsRelease = true) :
    Guarded engine actions := by
  have := guarded_append hsteady (fun _ _ _ => h) (show Guarded engine [] from h)
  simpa using this

theorem Guarded.before {engine : Engine} {before after : List Action} {action : Action}
    (h : Guarded engine (before ++ action :: after)) (hstop : action.canStop = true) :
    (engineAfter engine before).needsRelease = true := by
  induction before generalizing engine with
  | nil => exact h.1 hstop
  | cons first rest ih => exact ih h.2

theorem Guarded.end {engine : Engine} {actions : List Action} (h : Guarded engine actions) :
    (engineAfter engine actions).needsRelease = true := by
  induction actions generalizing engine with
  | nil => exact h
  | cons first rest ih => exact ih h.2

/-- However a guarded body goes, the CPU is to be let run after it. -/
theorem Performed.needsRelease {pass : String} {asks : Bool} {engine : Engine}
    {actions : List Action} {run : Run σ} (h : Performed pass asks engine actions run)
    (hguarded : Guarded engine actions) : run.engine.needsRelease = true := by
  cases h with
  | finished _ _ _ left =>
      rw [left]
      exact hguarded.end
  | stopped before after action cause last split stops _ _ left =>
      subst split
      rw [left]
      exact hguarded.before stops.canStop

/-! ### Both scripts are guarded -/

/-- From the hold on, the marks stay: the CPU counts as held before the write that holds it. -/
theorem guarded_hold (profile : Chip.Profile) (engine : Engine) (written total : Nat)
    (list : List Chunk) :
    Guarded engine (holdActions profile ++ onChipActions written total list) := by
  simp only [holdActions, onChipActions, List.cons_append, List.nil_append, Guarded,
    Action.engine, Action.canStop, Engine.needsRelease, Bool.true_or, Bool.false_eq_true,
    false_implies, true_and, implies_true]
  exact guarded_steady (transfers_sendChunks _ _ _ _).steady rfl

theorem guarded_ramScript (profile : Chip.Profile) (engine : Engine) (list : List Chunk) :
    Guarded engine (ramScript profile list) := by
  simp only [ramScript, externalActions, List.append_assoc]
  split
  · exact guarded_hold ..
  · refine ⟨nofun, nofun, ?_⟩
    exact guarded_append (transfers_sendChunks _ _ _ _).steady
      (fun _ _ _ => by simp [Action.engine, Engine.needsRelease]) (guarded_hold ..)

theorem guarded_eepromScript (profile : Chip.Profile) (identity : Device.Identity)
    (config : Option UInt8) (total : Nat) (engine : Engine) (list : List Chunk) :
    Guarded engine (eepromScript profile identity config total list) := by
  rw [eepromScript_eq]
  -- Only remarks stand before the phase is entered, and remarks cannot stop a body.
  refine guarded_append ?_ ?_ ?_
  · intro action hmem
    obtain ⟨line, -, rfl⟩ := List.mem_map.mp hmem
    exact fun _ => rfl
  · intro action hmem hstop
    obtain ⟨line, -, rfl⟩ := List.mem_map.mp hmem
    exact absurd hstop nofun
  · refine ⟨nofun, guarded_steady (transfers_eepromTransfers _ _ _ _ _).steady ?_⟩
    simp [Action.engine, Engine.needsRelease]

theorem guarded_script (profile : Chip.Profile) (identity : Device.Identity) (plan : Plan)
    (engine : Engine) : Guarded engine (script profile identity plan) := by
  rw [script]
  split
  · exact guarded_ramScript ..
  · exact guarded_eepromScript ..

/-! ### The end of a pass -/

theorem releaseFailure_engineAfter (engine : Engine) (actions : List Action) :
    (engineAfter engine actions).releaseFailure = engine.releaseFailure := by
  induction actions generalizing engine with
  | nil => rfl
  | cons action rest ih =>
      rw [engineAfter, List.foldl_cons, ← engineAfter, ih]
      cases action <;> rfl

/-- The failure of a release, unless it only says that the device has left the bus. -/
def unlessDisconnect : Option Failure → Option Failure
  | none => none
  | some failure => if failure.isDisconnect then none else some failure

theorem eq_some_of_unlessDisconnect {release : Option Failure} {cause : Failure}
    (h : unlessDisconnect release = some cause) : release = some cause := by
  cases release with
  | none => cases h
  | some other =>
      by_cases hleft : other.isDisconnect = true
      · simp [unlessDisconnect, hleft] at h
      · simpa [unlessDisconnect, hleft] using h

/-- What a pass that was allowed comes to. -/
inductive Ended (profile : Chip.Profile) (pass : String) (asks : Bool) (actions : List Action)
    (run : Run σ) : Prop
  /-- Its body went well; letting the CPU run may still have failed. -/
  | finished (release : Option Failure) (feasible : Feasible actions)
    (seen : deeds run.events
      = allDeeds pass asks actions ++ [.wrote (releaseWrite profile) release])
    (failure : run.failure = unlessDisconnect release)
    (phase : run.engine.phase = if run.failure.isNone then .done else .failed)
    (releaseFailure : run.engine.releaseFailure = none)
  /-- An action stopped its body; then the CPU was let run, or that failed as well. -/
  | stopped (release : Option Failure) (before after : List Action) (action : Action)
    (cause : Failure) (last : List Event)
    (split : actions = before ++ action :: after) (stops : Stops action cause last)
    (seen : deeds run.events
      = allDeeds pass asks before ++ last ++ [.wrote (releaseWrite profile) release])
    (failure : run.failure = some cause)
    (phase : run.engine.phase = .failed)
    (releaseFailure : run.engine.releaseFailure = release)

theorem release_spec (port : Port σ) (profile : Chip.Profile) (engine : Engine) (state : σ) :
    deeds (release port profile engine state).events
        = [.wrote (releaseWrite profile) (release port profile engine state).failure] ∧
      (release port profile engine state).engine.releaseFailure = engine.releaseFailure := by
  rw [release]
  obtain ⟨reply, next⟩ := port.write (releaseWrite profile) state
  cases hreply : reply.failure <;> simp [hreply]

theorem Performed.releaseFailure {pass : String} {asks : Bool} {engine : Engine}
    {actions : List Action} {run : Run σ} (h : Performed pass asks engine actions run) :
    run.engine.releaseFailure = engine.releaseFailure := by
  cases h with
  | finished _ _ _ left => rw [left, releaseFailure_engineAfter]
  | stopped _ _ _ _ _ _ _ _ _ left => rw [left, releaseFailure_engineAfter]

/-- A body that left the CPU to be let run, with the end put to it. -/
theorem Performed.ended (port : Port σ) (profile : Chip.Profile) {pass : String} {asks : Bool}
    {engine : Engine} {actions : List Action} {body : Run σ}
    (h : Performed pass asks engine actions body)
    (hneeds : body.engine.needsRelease = true) (hclean : engine.releaseFailure = none) :
    Ended profile pass asks actions (finish port profile body) := by
  have hkept : body.engine.releaseFailure = none := h.releaseFailure.trans hclean
  obtain ⟨hseen, hrelease⟩ := release_spec port profile body.engine body.port
  cases h with
  | finished feasible failure seen left =>
      rw [finish, failure]
      simp only [finishWell, hneeds, if_true]
      cases hfail : (release port profile body.engine body.port).failure with
      | none =>
          refine .finished none feasible ?_ ?_ ?_ ?_ <;>
            simp [Run.after, seen, hseen, hfail, hrelease, hkept, unlessDisconnect]
      | some cause =>
          refine .finished (some cause) feasible ?_ ?_ ?_ ?_ <;>
            cases hleft : cause.isDisconnect <;>
            simp [Run.after, seen, hseen, hfail, hrelease, hkept, hleft, unlessDisconnect]
  | stopped before after action cause last split stops failure seen left =>
      rw [finish, failure]
      simp only [finishBadly, hneeds, if_true]
      cases hfail : (release port profile body.engine body.port).failure with
      | none =>
          refine .stopped none before after action cause last split stops ?_ ?_ ?_ ?_ <;>
            simp [Run.after, seen, hseen, hfail, hrelease, hkept]
      | some other =>
          refine .stopped (some other) before after action cause last split stops ?_ ?_ ?_ ?_ <;>
            simp [Run.after, seen, hseen, hfail]

/-- A pass that is not allowed does nothing. -/
theorem run_refused (port : Port σ) (target : Target) (pass : String) {plan : Plan}
    (engine : Engine) (state : σ) {cause : Failure}
    (h : plan.obstacle? target.profile = some cause) :
    run port target pass plan engine state = ⟨engine.restart, state, [], some cause⟩ := by
  simp [run, h]

/-- **A pass that is allowed ends with one attempt to let the CPU run.** -/
theorem run_ended (port : Port σ) (target : Target) (pass : String) {plan : Plan}
    (engine : Engine) (state : σ) (h : plan.obstacle? target.profile = none) :
    Ended target.profile pass port.cancelled.isSome
      (script target.profile target.identity plan) (run port target pass plan engine state) := by
  have hbody := perform_performed port pass (script target.profile target.identity plan)
    engine.restart state
  simp only [run, h]
  exact hbody.ended port target.profile (hbody.needsRelease (guarded_script ..)) rfl

end UsbBoot.Pass
