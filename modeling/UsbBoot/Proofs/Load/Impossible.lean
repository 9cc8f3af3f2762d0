/-
What cannot be done is not begun.

Two failures say that a request cannot be met: the part lacks what it takes, or bytes would go
where nothing can be written.  Both are looked for before anything is sent, so that an impossible
request leaves the device alone.

An EEPROM pass comes upon the second one again.  A record points with sixteen bits, and judging
a plan does not look at that: it looks at the windows of the chip.  As long as the windows and
the CPU control register lie where records can point, as they do in all families, the two agree.
A profile for which they do not lets plans pass that fail as impossible amid the pass, when the
EEPROM has been spoiled; so what is proved here asks for plans that records can point at, and
says what becomes of the others.
-/
import UsbBoot.Proofs.Load.InTurn
import UsbBoot.Proofs.Pass.Refusal
import UsbBoot.Proofs.Pass.Vetting

namespace UsbBoot

variable {σ : Type}

/-- A failure that says that what was asked cannot be done. -/
def Failure.isImpossible : Failure → Bool
  | .unsupported _ | .outOfRange .. => true
  | _ => false

/-- A port that never says so itself. -/
def Port.Modest (port : Port σ) : Prop :=
  ∀ write state cause, (port.write write state).1.failure = some cause →
    cause.isImpossible = false

namespace Pass

/-! ### What records can point at -/

/-- Records can point at all that the plan has them hold. -/
def Plan.Recordable (plan : Plan) (profile : Chip.Profile) : Prop :=
  ∀ extent ∈ plan.extents profile, extent.address.toNat ≤ 0xFFFF

theorem length_extent_le {plan : Plan} {profile : Chip.Profile} :
    ∀ extent ∈ plan.extents profile, extent.length ≤ Eeprom.maxRecord := by
  intro extent hmem
  obtain ⟨heeprom, ⟨chunk, hchunk, rfl⟩ | rfl⟩ := Plan.mem_extents.mp hmem
  · exact length_le_maxRecord heeprom chunk hchunk
  · exact (by decide : 1 ≤ Eeprom.maxRecord)

/-- Of a plan, only what records cannot point at is refused. -/
theorem recordable_iff {plan : Plan} {profile : Chip.Profile} {identity : Device.Identity} :
    plan.Recordable profile ↔ Feasible (script profile identity plan) := by
  rw [← refusals_eq_nil_iff, refusals_script, List.filterMap_eq_nil_iff]
  refine forall₂_congr fun extent hmem => ?_
  have hlength := length_extent_le extent hmem
  simp [Extent.refusal?, Eeprom.HasRoom, hlength]

/-- A pass to RAM writes no records. -/
theorem recordable_of_ram {plan : Plan} {profile : Chip.Profile} (hram : plan.destination = .ram) :
    plan.Recordable profile := by
  intro extent hmem
  obtain ⟨heeprom, -⟩ := Plan.mem_extents.mp hmem
  cases hram.symm.trans heeprom

/-- If records can point at the whole chip, they can at all that a plan may have them hold. -/
theorem recordable_of_allowed {profile : Chip.Profile}
    (hwindows : ∀ window ∈ profile.onChip, window.stop.toNat ≤ 0x10000)
    (hregister : profile.resetRegister.toNat ≤ 0xFFFF) {plan : Plan}
    (hallowed : plan.obstacle? profile = none) : plan.Recordable profile := by
  intro extent hmem
  obtain ⟨heeprom, ⟨chunk, hchunk, rfl⟩ | rfl⟩ := Plan.mem_extents.mp hmem
  · exact (hasRoom_of_allowed heeprom hallowed hwindows chunk hchunk).2
  · exact hregister

/-- A plan that may be run on a part of some family has records that can point. -/
theorem recordable_of_family (family : Chip.Family) {plan : Plan}
    (hallowed : plan.obstacle? family.profile = none) : plan.Recordable family.profile := by
  refine recordable_of_allowed ?_ ?_ hallowed
  · cases family <;> decide
  · cases family <;> decide

/-! ### Passes -/

/-- A pass for such a plan that is allowed does not fail as impossible. -/
theorem run_possible {port : Port σ} (hmodest : port.Modest) {target : Target} {pass : String}
    {plan : Plan} {engine : Engine} {state : σ} {cause : Failure}
    (hallowed : plan.obstacle? target.profile = none)
    (hrecordable : plan.Recordable target.profile)
    (h : (run port target pass plan engine state).failure = some cause) :
    cause.isImpossible = false := by
  rcases run_cause hmodest h with hobstacle | ⟨-, rfl | hport | hrefused⟩
  · cases hallowed.symm.trans hobstacle
  · rfl
  · exact hport
  · exact absurd (mem_refusals.mp hrefused) (recordable_iff.mp hrecordable cause)

theorem run_impossible {port : Port σ} (hmodest : port.Modest) {target : Target} {pass : String}
    {plan : Plan} {engine : Engine} {state : σ} {cause : Failure}
    (hrecordable : plan.obstacle? target.profile = none → plan.Recordable target.profile)
    (himpossible : cause.isImpossible = true)
    (h : (run port target pass plan engine state).failure = some cause) :
    run port target pass plan engine state = ⟨engine.restart, state, [], some cause⟩ := by
  cases hobstacle : plan.obstacle? target.profile with
  | some obstacle =>
      have hrefused := run_refused port target pass engine state hobstacle
      rw [hrefused] at h ⊢
      rw [← h]
  | none =>
      have hpossible := run_possible hmodest hobstacle (hrecordable hobstacle) h
      cases himpossible.symm.trans hpossible

/-- A plan that may be run, but not with such records, spoils the EEPROM and then fails. -/
theorem run_unrecordable (port : Port σ) (target : Target) (pass : String) {plan : Plan}
    (engine : Engine) (state : σ) (hallowed : plan.obstacle? target.profile = none)
    (hfar : ¬plan.Recordable target.profile) :
    (run port target pass plan engine state).failure ≠ none ∧
      spoilWrite ∈ writes (run port target pass plan engine state).events ∧
      (port.Calm → ∃ address length, 0xFFFF < address.toNat ∧
        (run port target pass plan engine state).failure
          = some (.outOfRange address length)) := by
  refine ⟨fun hwell => ?_, ?_, fun hcalm => ?_⟩
  · exact hfar (recordable_iff.mpr (feasible_of_success hwell).2)
  · cases hdestination : plan.destination with
    | eeprom => exact run_spoils port target pass engine state hdestination hallowed
    | ram => exact absurd (recordable_of_ram hdestination) hfar
  · have hfailure := run_calm_failure hcalm target pass engine state hallowed
    cases hhead : ((plan.extents target.profile).filterMap Extent.refusal?).head? with
    | none =>
        rw [hhead] at hfailure
        exact absurd (recordable_iff.mpr (feasible_of_success hfailure).2) hfar
    | some cause =>
        have hrefused := List.mem_of_mem_head? hhead
        rw [← refusals_script _ target.identity] at hrefused
        obtain ⟨extent, hmem, hroom, rfl⟩ := outOfRange_of_mem_refusals hrefused
        refine ⟨extent.address, extent.length, Nat.lt_of_not_le fun hnear => hroom ?_,
          hfailure.trans hhead⟩
        exact ⟨length_extent_le extent hmem, hnear⟩

end Pass

/-! ### Loads -/

open Pass (Destination Engine Plan Target spoilWrite writes)

theorem loadThrough_impossible {port : Port σ} (hmodest : port.Modest) {target : Target}
    {loader firmware : Image} {destination : Destination} {config : Option UInt8}
    {engine : Engine} {state : σ} {cause : Failure}
    (hrecordable : (destination.plan config firmware).obstacle? target.profile = none →
      (destination.plan config firmware).Recordable target.profile)
    (himpossible : cause.isImpossible = true)
    (h : (loadThrough port target loader firmware destination config engine state).failure
      = some cause) :
    loadThrough port target loader firmware destination config engine state
      = ⟨engine, state, [], some cause⟩ := by
  have hrefused : ∀ other, loadThrough port target loader firmware destination config engine state
      = ⟨engine, state, [], some other⟩ →
      loadThrough port target loader firmware destination config engine state
        = ⟨engine, state, [], some cause⟩ := by
    intro other hresult
    rw [hresult] at h ⊢
    rw [← h]
  cases hfirst : loader.onChipPlan.obstacle? target.profile with
  | some other => exact hrefused other (loadThrough_refused port target engine state (.inl hfirst))
  | none =>
      cases hsecond : (destination.plan config firmware).obstacle? target.profile with
      | some other =>
          exact hrefused other
            (loadThrough_refused port target engine state (.inr ⟨hfirst, hsecond⟩))
      | none =>
          -- Both passes may be run, so neither of them fails in this way.
          exfalso
          have hpossible : cause.isImpossible = false := by
            cases hloaded : (Pass.run port target "loader" loader.onChipPlan engine
                state).failure with
            | some other =>
                have hends := loadThrough_cut port target engine state hfirst hsecond hloaded
                exact Pass.run_possible hmodest hfirst (Pass.recordable_of_ram rfl)
                  (hends.failure.symm.trans h)
            | none =>
                have hends := loadThrough_both port target engine state hfirst hsecond hloaded
                exact Pass.run_possible hmodest hsecond (hrecordable hsecond)
                  (hends.failure.symm.trans h)
          cases himpossible.symm.trans hpossible

/--
**What cannot be done is not begun, if records can point at it.**

On a port that never says so itself, a pass or a load through a loader that fails as impossible
has done nothing, unless the plan is allowed and records cannot point at all of it.  There is no
such plan where the windows of the chip and the CPU control register lie within sixteen bits.
The pass for such a plan spoils the EEPROM and always fails, and if nothing else goes wrong, for
an address beyond sixteen bits.
-/
theorem impossible_leaves_alone {port : Port σ} (hmodest : port.Modest) (target : Target) :
    (∀ pass plan engine state cause,
      (plan.obstacle? target.profile = none → plan.Recordable target.profile) →
      cause.isImpossible = true →
      (Pass.run port target pass plan engine state).failure = some cause →
      Pass.run port target pass plan engine state
        = ⟨engine.restart, state, [], some cause⟩) ∧
    (∀ loader firmware destination config engine state cause,
      ((destination.plan config firmware).obstacle? target.profile = none →
        (destination.plan config firmware).Recordable target.profile) →
      cause.isImpossible = true →
      (loadThrough port target loader firmware destination config engine state).failure
        = some cause →
      loadThrough port target loader firmware destination config engine state
        = ⟨engine, state, [], some cause⟩) ∧
    ((∀ window ∈ target.profile.onChip, window.stop.toNat ≤ 0x10000) →
      target.profile.resetRegister.toNat ≤ 0xFFFF →
      ∀ plan : Plan, plan.obstacle? target.profile = none → plan.Recordable target.profile) ∧
    ∀ pass plan engine state, plan.obstacle? target.profile = none →
      ¬plan.Recordable target.profile →
      let result := Pass.run port target pass plan engine state
      result.failure ≠ none ∧ spoilWrite ∈ writes result.events ∧
        (port.Calm → ∃ address length, 0xFFFF < address.toNat ∧
          result.failure = some (.outOfRange address length)) := by
  refine ⟨?_, ?_, ?_, ?_⟩
  · intro pass plan engine state cause hrecordable himpossible h
    exact Pass.run_impossible hmodest hrecordable himpossible h
  · intro loader firmware destination config engine state cause hrecordable himpossible h
    exact loadThrough_impossible hmodest hrecordable himpossible h
  · intro hwindows hregister plan hallowed
    exact Pass.recordable_of_allowed hwindows hregister hallowed
  · intro pass plan engine state hallowed hfar
    exact Pass.run_unrecordable port target pass engine state hallowed hfar

/-- The firmware leaves the chip, so that not even the loader is sent; the port would fail. -/
theorem impossible_leaves_alone_outside :
    let schedule : Schedule := ⟨fun _ => some (.usb .pipe), none⟩
    let port := schedule.port "loader"
    let loader : Image := ⟨[⟨0x0000, [1, 2]⟩]⟩
    let firmware : Image := ⟨[⟨0x1FFF, [3, 4]⟩]⟩
    port.Modest ∧
      loadThrough port Pass.blankPart loader firmware .eeprom none .fresh ⟨0, 0⟩
        = ⟨.fresh, ⟨0, 0⟩, [], some (.outOfRange 0x2000 1)⟩ := by
  intro schedule port loader firmware
  have hmodest : port.Modest := by
    intro write state cause h
    obtain rfl := Option.some.inj h
    rfl
  obtain ⟨-, hload, -⟩ := impossible_leaves_alone hmodest Pass.blankPart
  refine ⟨hmodest, hload loader firmware .eeprom none .fresh ⟨0, 0⟩ _ ?_ rfl ?_⟩
  · exact Pass.recordable_of_family .fx2
  · decide +kernel

/-- With the CPU control register beyond sixteen bits, a load fails as impossible when it has
put the loader on the chip and spoiled the EEPROM. -/
theorem impossible_amid_load :
    let target : Target :=
      { Pass.blankPart with
        profile := { Pass.blankPart.profile with resetRegister := 0x1E600 } }
    let port := Schedule.calm.port "loader"
    let loader : Image := ⟨[⟨0x0000, [1, 2]⟩]⟩
    let firmware : Image := ⟨[⟨0x0000, [3, 4, 5]⟩]⟩
    port.Modest ∧
      ¬∀ cause, cause.isImpossible = true →
        (loadThrough port target loader firmware .eeprom none .fresh ⟨0, 0⟩).failure
          = some cause →
        writes (loadThrough port target loader firmware .eeprom none .fresh ⟨0, 0⟩).events
          = [] := by
  intro target port loader firmware
  refine ⟨nofun, fun huntouched => ?_⟩
  have hfailure : (loadThrough port target loader firmware .eeprom none .fresh ⟨0, 0⟩).failure
      = some (.outOfRange 0x1E600 1) := by
    decide +kernel
  have hspoiled : spoilWrite ∈
      writes (loadThrough port target loader firmware .eeprom none .fresh ⟨0, 0⟩).events := by
    decide +kernel
  rw [huntouched _ rfl hfailure] at hspoiled
  cases hspoiled

end UsbBoot
