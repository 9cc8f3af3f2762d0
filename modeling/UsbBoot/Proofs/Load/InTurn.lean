/-
The loader comes first.

Only a loader can write what lies outside the chip, and there is one only after all of it was
put on the chip and the CPU was let run.  So a load through a loader is two passes in turn.
Both plans are judged before anything is sent.  The second pass takes place only if the first
one went well, and is allowed then, since nothing a pass does changes what is allowed.  The
first pass writes by the silicon's own request alone; so whatever is written by another
request is written behind all of the first pass.
-/
import UsbBoot.Load
import UsbBoot.Proofs.Pass.Allowed
import UsbBoot.Proofs.Pass.Reset

namespace UsbBoot

variable {σ : Type}

/-! ### A pass onto the chip -/

namespace Pass

/-- What is attempted when all of a plan is put on the chip. -/
def onChipAttempts (profile : Chip.Profile) (plan : Plan) (release : Option Failure) :
    List Attempt :=
  (holdWrite profile :: chunkWrites .onChip (plan.chunks profile)).map Attempt.ok
    ++ [⟨releaseWrite profile, release⟩]

/-- A script that puts an allowed plan on the chip sends all its chunks by one request. -/
theorem sends_onChip {profile : Chip.Profile} {plan : Plan} (hram : plan.destination = .ram)
    (hmode : plan.ramMode = .onChipOnly) (hallowed : plan.obstacle? profile = none)
    (identity : Device.Identity) :
    sends (script profile identity plan)
      = holdWrite profile :: chunkWrites .onChip (plan.chunks profile) := by
  have honChip := Plan.onChip_of_allowed (by simp [Plan.ReachesOut, hmode]) hallowed
  have hinside : (plan.chunks profile).filter (·.onChip) = plan.chunks profile :=
    List.filter_eq_self.mpr honChip
  have houtside : (plan.chunks profile).filter (!·.onChip) = [] :=
    List.filter_eq_nil_iff.mpr fun chunk hmem => by simp [honChip chunk hmem]
  rw [script_of_ram profile identity hram]
  simp only [sends_ramScript, externalWrites, onChipWrites, hinside, houtside]
  rfl

/-- What a pass that went well attempted: all of its body, and then to let the CPU run. -/
theorem Ended.through {profile : Chip.Profile} {pass : String} {asks : Bool}
    {actions : List Action} {run : Run σ} (h : Ended profile pass asks actions run)
    (hfailure : run.failure = none) :
    ∃ release, unlessDisconnect release = none ∧
      Pass.attempts run.events
        = (sends actions).map Attempt.ok ++ [⟨releaseWrite profile, release⟩] := by
  cases h with
  | finished release feasible seen failure phase releaseFailure =>
      refine ⟨release, failure.symm.trans hfailure, ?_⟩
      rw [← attempts_deeds, seen, attempts_append, attempts_allDeeds]
      rfl
  | stopped release before after action cause last split stops seen failure =>
      rw [hfailure] at failure
      cases failure

/-- A pass writes what its script says, and lets the CPU run. -/
theorem write_of_mem_attempts (port : Port σ) (target : Target) (pass : String) {plan : Plan}
    (engine : Engine) (state : σ) (hallowed : plan.obstacle? target.profile = none) :
    ∀ attempt ∈ attempts (run port target pass plan engine state).events,
      attempt.write = releaseWrite target.profile ∨
        attempt.write ∈ sends (script target.profile target.identity plan) := by
  intro attempt hmem
  obtain ⟨release, body, hattempts, hbody⟩ :=
    (run_ended port target pass engine state hallowed).attempts
  rw [hattempts, List.mem_append, List.mem_singleton] at hmem
  rcases hmem with hsent | rfl
  · rcases hbody with rfl | ⟨before, after, action, cause, last, hsplit, hstops, rfl⟩
    · obtain ⟨write, hwrite, rfl⟩ := List.mem_map.mp hsent
      exact Or.inr hwrite
    · rw [hsplit]
      exact Or.inr (triedUntil_subset hstops attempt hsent)
  · exact Or.inl rfl

theorem isDisconnect_of_unlessDisconnect {release : Option Failure}
    (h : unlessDisconnect release = none) :
    ∀ cause, release = some cause → cause.isDisconnect = true := by
  rintro cause rfl
  simpa [unlessDisconnect] using h

section

variable (port : Port σ) (target : Target) (pass : String) (plan : Plan) (engine : Engine)
  (state : σ) (hram : plan.destination = .ram) (hmode : plan.ramMode = .onChipOnly)
  (hallowed : plan.obstacle? target.profile = none)
include hram hmode hallowed

/-- A pass onto the chip writes by the silicon's request alone. -/
theorem request_of_onChip :
    ∀ attempt ∈ attempts (run port target pass plan engine state).events,
      attempt.write.request = .onChip := by
  intro attempt hmem
  rcases write_of_mem_attempts port target pass engine state hallowed attempt hmem with
    hrelease | hsent
  · rw [hrelease]
    rfl
  · rw [sends_onChip hram hmode hallowed] at hsent
    rcases List.mem_cons.mp hsent with hhold | hchunk
    · rw [hhold]
      rfl
    · obtain ⟨chunk, -, hwrite⟩ := mem_chunkWrites hchunk
      rw [hwrite]
      rfl

/-- A pass onto the chip that went well attempted all there is to it. -/
theorem attempts_of_onChip (hfailure : (run port target pass plan engine state).failure = none) :
    ∃ release, (∀ cause, release = some cause → cause.isDisconnect = true) ∧
      attempts (run port target pass plan engine state).events
        = onChipAttempts target.profile plan release := by
  have hended := run_ended port target pass engine state hallowed
  obtain ⟨release, hleft, hattempts⟩ := hended.through hfailure
  rw [sends_onChip hram hmode hallowed] at hattempts
  exact ⟨release, isDisconnect_of_unlessDisconnect hleft, hattempts⟩

end

theorem attempts_ne_nil (port : Port σ) (target : Target) (pass : String) {plan : Plan}
    (engine : Engine) (state : σ) (hallowed : plan.obstacle? target.profile = none) :
    attempts (run port target pass plan engine state).events ≠ [] := by
  obtain ⟨release, body, hattempts, -⟩ :=
    (run_ended port target pass engine state hallowed).attempts
  simp [hattempts]

/-- A run ends like another one, and this was done in it. -/
structure Run.EndsLike (run last : Run σ) (done : List Event) : Prop where
  done : deeds run.events = done
  failure : run.failure = last.failure
  engine : run.engine = last.engine
  port : run.port = last.port

theorem Run.EndsLike.attempts {run last : Run σ} {done : List Event} (h : run.EndsLike last done) :
    Pass.attempts run.events = Pass.attempts done := by
  rw [← attempts_deeds, h.done]

end Pass

/-! ### Two passes -/

open Pass (Destination Engine Plan Run Target attempts deeds onChipAttempts split_append)

section

variable (port : Port σ) (target : Target) {loader firmware : Image}
  {destination : Destination} {config : Option UInt8} (engine : Engine) (state : σ)

/-- What is wrong with a plan is found before anything is sent. -/
theorem loadThrough_refused {cause : Failure}
    (h : loader.onChipPlan.obstacle? target.profile = some cause ∨
      loader.onChipPlan.obstacle? target.profile = none ∧
        (destination.plan config firmware).obstacle? target.profile = some cause) :
    loadThrough port target loader firmware destination config engine state
      = ⟨engine, state, [], some cause⟩ := by
  rcases h with hfirst | ⟨hfirst, hsecond⟩
  · simp [loadThrough, hfirst]
  · simp [loadThrough, hfirst, hsecond]

variable (hfirst : loader.onChipPlan.obstacle? target.profile = none)
  (hsecond : (destination.plan config firmware).obstacle? target.profile = none)
include hfirst hsecond

/-- If the loader pass fails, the load is that pass. -/
theorem loadThrough_cut {cause : Failure}
    (hfailure : (Pass.run port target "loader" loader.onChipPlan engine state).failure
      = some cause) :
    let loaded := Pass.run port target "loader" loader.onChipPlan engine state
    (loadThrough port target loader firmware destination config engine state).EndsLike loaded
      (deeds loaded.events) := by
  simp only [loadThrough, hfirst, hsecond, Run.after, hfailure]
  exact ⟨by simp, hfailure.symm, rfl, rfl⟩

/-- If the loader pass goes well, the load is that pass and the one behind it. -/
theorem loadThrough_both
    (hfailure : (Pass.run port target "loader" loader.onChipPlan engine state).failure = none) :
    let loaded := Pass.run port target "loader" loader.onChipPlan engine state
    let placed := Pass.run port target "firmware" (destination.plan config firmware) loaded.engine
      loaded.port
    (loadThrough port target loader firmware destination config engine state).EndsLike placed
      (deeds loaded.events ++ deeds placed.events) := by
  simp only [loadThrough, hfirst, hsecond, Run.after, hfailure]
  exact ⟨by simp, rfl, rfl, rfl⟩

end

/-- What a load through a loader comes to: nothing, the loader pass, or both passes. -/
theorem loadThrough_cases (port : Port σ) (target : Target) (loader firmware : Image)
    (destination : Destination) (config : Option UInt8) (engine : Engine) (state : σ) :
    let result := loadThrough port target loader firmware destination config engine state
    let loaded := Pass.run port target "loader" loader.onChipPlan engine state
    let placed := Pass.run port target "firmware" (destination.plan config firmware) loaded.engine
      loaded.port
    (∃ cause, (loader.onChipPlan.obstacle? target.profile = some cause ∨
        (destination.plan config firmware).obstacle? target.profile = some cause) ∧
      result = ⟨engine, state, [], some cause⟩) ∨
    (∃ cause, loaded.failure = some cause ∧ result.EndsLike loaded (deeds loaded.events)) ∨
    (loaded.failure = none ∧
      result.EndsLike placed (deeds loaded.events ++ deeds placed.events)) := by
  intro result loaded placed
  cases hfirst : loader.onChipPlan.obstacle? target.profile with
  | some cause =>
      exact .inl ⟨cause, .inl rfl, loadThrough_refused port target engine state (.inl hfirst)⟩
  | none =>
      cases hsecond : (destination.plan config firmware).obstacle? target.profile with
      | some cause =>
          exact .inl ⟨cause, .inr rfl,
            loadThrough_refused port target engine state (.inr ⟨hfirst, hsecond⟩)⟩
      | none =>
          cases hloaded : loaded.failure with
          | some cause =>
              exact .inr (.inl ⟨cause, rfl,
                loadThrough_cut port target engine state hfirst hsecond hloaded⟩)
          | none =>
              exact .inr (.inr ⟨rfl,
                loadThrough_both port target engine state hfirst hsecond hloaded⟩)

/-- What is written by another request than the silicon's is written in the second pass. -/
theorem loadThrough_behind (port : Port σ) (target : Target) (loader firmware : Image)
    (destination : Destination) (config : Option UInt8) (engine : Engine) (state : σ)
    {before after : List Pass.Attempt} {attempt : Pass.Attempt}
    (hsplit : attempts
      (loadThrough port target loader firmware destination config engine state).events
        = before ++ attempt :: after)
    (hrequest : attempt.write.request ≠ .onChip) :
    let loaded := Pass.run port target "loader" loader.onChipPlan engine state
    let placed := Pass.run port target "firmware" (destination.plan config firmware) loaded.engine
      loaded.port
    loader.onChipPlan.obstacle? target.profile = none ∧
      (destination.plan config firmware).obstacle? target.profile = none ∧ loaded.failure = none ∧
      ∃ later, before = attempts loaded.events ++ later ∧
        attempts placed.events = later ++ attempt :: after := by
  intro loaded placed
  have hmem : attempt ∈ attempts
      (loadThrough port target loader firmware destination config engine state).events :=
    hsplit ▸ List.mem_append_right before List.mem_cons_self
  have hnothing : ∀ cause, loadThrough port target loader firmware destination config engine state
      ≠ ⟨engine, state, [], some cause⟩ := by
    intro cause hrefused
    rw [hrefused] at hmem
    cases hmem
  have hfirst : loader.onChipPlan.obstacle? target.profile = none :=
    Option.eq_none_iff_forall_ne_some.mpr fun cause hcause =>
      hnothing cause (loadThrough_refused port target engine state (.inl hcause))
  have hsecond : (destination.plan config firmware).obstacle? target.profile = none :=
    Option.eq_none_iff_forall_ne_some.mpr fun cause hcause =>
      hnothing cause (loadThrough_refused port target engine state (.inr ⟨hfirst, hcause⟩))
  have honChip := Pass.request_of_onChip port target "loader" loader.onChipPlan engine state rfl
    rfl hfirst
  refine ⟨hfirst, hsecond, ?_⟩
  cases hloaded : loaded.failure with
  | some cause =>
      have hends := loadThrough_cut port target engine state hfirst hsecond hloaded
      rw [hends.attempts, Pass.attempts_deeds] at hmem
      exact absurd (honChip attempt hmem) hrequest
  | none =>
      have hends := loadThrough_both port target engine state hfirst hsecond hloaded
      rw [hends.attempts, Pass.attempts_append, Pass.attempts_deeds, Pass.attempts_deeds]
        at hsplit
      rcases split_append hsplit with ⟨middle, hloader⟩ | ⟨later, hbefore, hplaced⟩
      · refine absurd (honChip attempt ?_) hrequest
        exact hloader ▸ List.mem_append_right before List.mem_cons_self
      · exact ⟨rfl, later, hbefore, hplaced⟩

/--
**Nothing is done through a loader before all of the loader is there.**

If either plan is not allowed, the load fails with what is wrong, the loader's first, and does
nothing.  Otherwise it is the loader pass, and, only if that one went well, the firmware pass
behind it, which is allowed then.  Whatever is written by another request than the silicon's
is written after the hold, every chunk of the loader and the release, all of which went well;
only the release may have found that the device had left the bus.
-/
theorem loadThrough_inTurn (port : Port σ) (target : Target) (loader firmware : Image)
    (destination : Destination) (config : Option UInt8) (engine : Engine) (state : σ) :
    let first := loader.onChipPlan
    let second := destination.plan config firmware
    let result := loadThrough port target loader firmware destination config engine state
    (∀ cause,
      (first.obstacle? target.profile = some cause ∨
        first.obstacle? target.profile = none ∧ second.obstacle? target.profile = some cause) →
      result = ⟨engine, state, [], some cause⟩) ∧
    (first.obstacle? target.profile = none → second.obstacle? target.profile = none →
      let loaded := Pass.run port target "loader" first engine state
      let placed := Pass.run port target "firmware" second loaded.engine loaded.port
      (∀ cause, loaded.failure = some cause → result.EndsLike loaded (deeds loaded.events)) ∧
      (loaded.failure = none →
        result.EndsLike placed (deeds loaded.events ++ deeds placed.events) ∧
        attempts placed.events ≠ [])) ∧
    ∀ before attempt after, attempts result.events = before ++ attempt :: after →
      attempt.write.request ≠ .onChip →
      ∃ release, (∀ cause, release = some cause → cause.isDisconnect = true) ∧
        onChipAttempts target.profile first release <+: before := by
  intro first second result
  refine ⟨fun cause => loadThrough_refused port target engine state, ?_, ?_⟩
  · intro hfirst hsecond loaded placed
    refine ⟨fun cause => loadThrough_cut port target engine state hfirst hsecond, fun hwell => ?_⟩
    exact ⟨loadThrough_both port target engine state hfirst hsecond hwell,
      Pass.attempts_ne_nil port target "firmware" loaded.engine loaded.port hsecond⟩
  intro before attempt after hsplit hrequest
  obtain ⟨hfirst, -, hloaded, later, hbefore, -⟩ :=
    loadThrough_behind port target loader firmware destination config engine state hsplit hrequest
  obtain ⟨release, hleft, hall⟩ :=
    Pass.attempts_of_onChip port target "loader" first engine state rfl rfl hfirst hloaded
  exact ⟨release, hleft, later, by rw [hbefore, hall]⟩

/-- A loader that is gone by the time it is let run, and one that lies outside the chip. -/
theorem loadThrough_inTurn_unplugged :
    let schedule : Schedule := ⟨fun n => if 2 ≤ n then some .disconnected else none, none⟩
    let port := schedule.port "loader"
    let loader : Image := ⟨[⟨0x0000, [0x02, 0x00]⟩]⟩
    let firmware : Image := ⟨[⟨0x2000, [1, 2]⟩]⟩
    let profile := Pass.blankPart.profile
    let external : Pass.Attempt := ⟨⟨.external, 0x2000, [1, 2]⟩, some .disconnected⟩
    let last : Pass.Attempt := ⟨Pass.releaseWrite profile, some .disconnected⟩
    let result := loadThrough port Pass.blankPart loader firmware .ram none .fresh ⟨0, 0⟩
    loader.onChipPlan.obstacle? profile = none ∧
      attempts result.events
        = onChipAttempts profile loader.onChipPlan (some .disconnected) ++ [external, last] ∧
      (∃ release, (∀ cause, release = some cause → cause.isDisconnect = true) ∧
        onChipAttempts profile loader.onChipPlan release
          <+: onChipAttempts profile loader.onChipPlan (some .disconnected)) ∧
      loadThrough port Pass.blankPart firmware loader .ram none .fresh ⟨0, 0⟩
        = ⟨.fresh, ⟨0, 0⟩, [], some (.outOfRange 0x2000 2)⟩ := by
  intro schedule port loader firmware profile external last result
  have hfirst : loader.onChipPlan.obstacle? profile = none := by decide +kernel
  have hattempts : attempts result.events
      = onChipAttempts profile loader.onChipPlan (some .disconnected) ++ [external, last] := by
    decide +kernel
  obtain ⟨-, -, hbehind⟩ := loadThrough_inTurn port Pass.blankPart loader firmware .ram none
    .fresh ⟨0, 0⟩
  obtain ⟨hrefused, -, -⟩ := loadThrough_inTurn port Pass.blankPart firmware loader .ram none
    .fresh ⟨0, 0⟩
  exact ⟨hfirst, hattempts, hbehind _ external [last] hattempts nofun,
    hrefused (.outOfRange 0x2000 2) (.inl (by decide +kernel))⟩

end UsbBoot
