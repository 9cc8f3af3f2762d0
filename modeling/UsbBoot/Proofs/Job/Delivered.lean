/-
A load that succeeds has delivered every byte.

Each transfer returns a number, and a load goes on only if that is the number of bytes it was
to write.  So when a run succeeds, every planned write was made and taken in full, in its turn.
The write that lets the CPU run is the one exception: the firmware it starts may take the
device off the bus before it has answered.  What was planned does not depend on the answers,
and is what the same run writes when there are no faults at all.
-/
import UsbBoot.Proofs.Job.Loading
import UsbBoot.Proofs.Pass.Course

namespace UsbBoot

open Pass (Answered Attempt Event Planned answers attempts deeds)

/-! ### What transfers return -/

namespace Usb

/-- What the transfer with a number returns when it is to write some data. -/
def Bus.returns (bus : Bus) (number : Nat) (data : List UInt8) : Int :=
  (bus.returned number).getD data.length

/-- The transfer with a number does what was planned: all bytes are taken, or it was to let
the CPU run and the device was gone by then. -/
def Bus.Accepts (bus : Bus) (number : Nat) (planned : Planned) : Prop :=
  bus.returns number planned.write.data = planned.write.data.length ∨
    planned.release = true ∧
      (Fault.ofCode (bus.returns number planned.write.data) = .io ∨
        Fault.ofCode (bus.returns number planned.write.data) = .noDevice)

theorem failure_replyTo_eq_none_iff {write : ControlWrite} {returned : Int} :
    (replyTo write returned).failure = none ↔ returned = write.data.length := by
  unfold replyTo
  by_cases hfault : returned < 0
  · simp only [hfault, if_true, reduceCtorEq, false_iff]
    omega
  · rw [if_neg hfault]
    by_cases hall : returned = write.data.length <;> simp [hall]

/-- Of what a transfer returns, two faults alone tell that the device has left the bus. -/
theorem gone_of_failure_replyTo {write : ControlWrite} {returned : Int} {cause : Failure}
    (h : (replyTo write returned).failure = some cause) (hleft : cause.isDisconnect = true) :
    Fault.ofCode returned = .io ∨ Fault.ofCode returned = .noDevice := by
  unfold replyTo at h
  split at h
  · obtain rfl := Option.some.inj h
    cases hfault : Fault.ofCode returned <;> simp_all [Failure.isDisconnect]
  · split at h
    · obtain rfl := Option.some.inj h
      cases hleft
    · cases h

/-- On a bus, an attempt goes as the transfer with its number is answered. -/
theorem failure_of_answered {bus : Bus} {device : Attached} {wire final : Wire}
    {events : List Event} (h : Answered (bus.port device) wire events final) (n : Nat)
    (attempt : Attempt) (hattempt : (attempts events)[n]? = some attempt) :
    attempt.failure
      = (replyTo attempt.write (bus.returns (wire.transfers + n) attempt.write.data)).failure := by
  induction h generalizing n with
  | done => cases hattempt
  | progress pass written total _ ih => exact ih n hattempt
  | @asked wire _ _ ask hask _ ih =>
      obtain rfl := Option.some.inj hask
      exact ih n hattempt
  | @wrote wire _ _ write _ ih =>
      cases n with
      | zero =>
          obtain rfl := Option.some.inj hattempt
          rfl
      | succ n =>
          rw [Nat.add_succ, ← Nat.succ_add]
          exact ih n hattempt

/-- No number of bytes is a fault that has a name. -/
theorem Fault.ofCode_of_nonneg {code : Int} (h : 0 ≤ code) : ofCode code = .other := by
  unfold ofCode
  repeat rw [if_neg (by omega)]

/-- What is done on a bus as planned is taken by it. -/
theorem accepts_of_done {bus : Bus} {number : Nat} {planned : Planned} {attempt : Attempt}
    (h : planned.Done attempt)
    (hanswered : attempt.failure
      = (replyTo attempt.write (bus.returns number attempt.write.data)).failure) :
    bus.Accepts number planned := by
  cases h with
  | well => exact Or.inl (failure_replyTo_eq_none_iff.mp hanswered.symm)
  | left cause hrelease hleft =>
      exact Or.inr ⟨hrelease, gone_of_failure_replyTo hanswered.symm hleft⟩

/-! ### Without faults -/

/-- The same bus with all transfers going well, and nobody giving up. -/
def Bus.faultless (bus : Bus) : Bus :=
  { bus with returned := fun _ => none, interrupts := fun _ => false }

theorem Bus.returns_faultless (bus : Bus) (number : Nat) (data : List UInt8) :
    bus.faultless.returns number data = data.length := rfl

/-- What is done on a bus without faults goes well, and leaves it at that. -/
theorem faultless_of_answered {bus : Bus} {device : Attached} {wire final : Wire}
    {events : List Event} (h : Answered (bus.faultless.port device) wire events final)
    (hwire : wire.interrupted = false) :
    (∀ attempt ∈ attempts events, attempt.failure = none) ∧
      (∀ answer ∈ answers events, answer = false) ∧ final.interrupted = false := by
  induction h with
  | done => exact ⟨nofun, nofun, hwire⟩
  | progress pass written total _ ih => exact ih hwire
  | asked ask hask _ ih =>
      obtain rfl := Option.some.inj hask
      obtain ⟨hattempts, hanswers, hfinal⟩ := ih hwire
      exact ⟨hattempts, List.forall_mem_cons.mpr ⟨hwire, hanswers⟩, hfinal⟩
  | @wrote wire _ _ write _ ih =>
      have hnext : (wire.interrupted || bus.faultless.interrupts wire.transfers) = false := by
        rw [hwire]
        rfl
      obtain ⟨hattempts, hanswers, hfinal⟩ := ih hnext
      have hwell := failure_replyTo_eq_none_iff.mpr
        (bus.returns_faultless wire.transfers write.data)
      exact ⟨List.forall_mem_cons.mpr ⟨hwell, hattempts⟩, hanswers, hfinal⟩

end Usb

/-! ### Loads -/

namespace Job

open Usb (Attached Bus Wire)

/-- All that a ready job is to write to a device. -/
def Ready.planned (ready : Ready) (device : Attached) : List Planned :=
  let target := ready.target device
  match ready.loader with
  | none => ready.firmware.onChipPlan.planned target
  | some loader =>
    loader.onChipPlan.planned target ++
      (ready.destination.plan ready.configByte ready.firmware).planned target

theorem Ready.load_answered (ready : Ready) (bus : Bus) (device : Attached) :
    Answered (bus.port device) .fresh (deeds (ready.load bus device).events)
      (ready.load bus device).port := by
  unfold load
  cases ready.loader with
  | none => exact loadOnChip_answered ..
  | some loader => exact loadThrough_answered ..

/-- A load that succeeds does all that is planned, in order, and nothing else. -/
theorem Ready.load_planned {ready : Ready} {bus : Bus} {device : Attached}
    (h : (ready.load bus device).failure = none) :
    List.Forall₂ Planned.Done (ready.planned device) (attempts (ready.load bus device).events) := by
  unfold load at h ⊢
  unfold planned
  cases hloader : ready.loader with
  | none =>
      rw [hloader] at h
      exact Pass.run_planned (bus.port device) (ready.target device) "firmware" .fresh .fresh h
  | some loader =>
      rw [hloader] at h
      obtain ⟨hloaded, hplaced, hends⟩ := loadThrough_well h
      rw [hends.attempts, Pass.attempts_append, Pass.attempts_deeds, Pass.attempts_deeds]
      exact List.rel_append (Pass.run_planned _ _ _ _ _ hloaded)
        (Pass.run_planned _ _ _ _ _ hplaced)

/-- A load that succeeds had every planned write taken. -/
theorem Ready.load_accepted {ready : Ready} {bus : Bus} {device : Attached}
    (h : (ready.load bus device).failure = none) (n : Nat) (planned : Planned)
    (hplanned : (ready.planned device)[n]? = some planned) : bus.Accepts n planned := by
  have hdone := ready.load_planned h
  obtain ⟨hlt, rfl⟩ := List.getElem?_eq_some_iff.mp hplanned
  have hattempt := List.getElem?_eq_getElem (hdone.length_eq ▸ hlt)
  refine Usb.accepts_of_done (hdone.get hlt (hdone.length_eq ▸ hlt)) ?_
  have hanswered := Usb.failure_of_answered (ready.load_answered bus device) n _
    (by rw [Pass.attempts_deeds]; exact hattempt)
  rwa [show Wire.fresh.transfers + n = n from Nat.zero_add n] at hanswered

/-- A pass that succeeds somewhere succeeds on a bus without faults. -/
theorem run_faultless {σ : Type} {port : Port σ} {target : Pass.Target} {pass : String}
    {plan : Pass.Plan} {engine : Pass.Engine} {state : σ}
    (h : (Pass.run port target pass plan engine state).failure = none) (bus : Bus)
    (device : Attached) (begun : Pass.Engine) {wire : Wire} (hwire : wire.interrupted = false) :
    let again := Pass.run (bus.faultless.port device) target pass plan begun wire
    again.failure = none ∧ again.port.interrupted = false := by
  intro again
  obtain ⟨hallowed, hfeasible⟩ := Pass.feasible_of_success h
  obtain ⟨hattempts, hanswers, hfinal⟩ := Usb.faultless_of_answered
    (Pass.run_answered (bus.faultless.port device) target pass plan begun wire) hwire
  rw [Pass.attempts_deeds] at hattempts
  rw [Pass.answers_deeds] at hanswers
  obtain ⟨-, hwell, -⟩ := Pass.run_unhindered _ target pass begun wire hallowed hfeasible
    hattempts hanswers
  exact ⟨hwell, hfinal⟩

/-- A load that succeeds on a bus succeeds without faults as well. -/
theorem Ready.load_faultless {ready : Ready} {bus : Bus} {device : Attached}
    (h : (ready.load bus device).failure = none) :
    (ready.load bus.faultless device).failure = none := by
  have hfresh : Wire.fresh.interrupted = false := rfl
  unfold load at h ⊢
  cases hloader : ready.loader with
  | none =>
      rw [hloader] at h
      have hpass : (Pass.run (bus.port device) (ready.target device) "firmware"
          ready.firmware.onChipPlan .fresh .fresh).failure = none := h
      obtain ⟨hwell, -⟩ := run_faultless hpass bus device .fresh hfresh
      exact hwell
  | some loader =>
      rw [hloader] at h
      obtain ⟨hloaded, hplaced, -⟩ := loadThrough_well h
      obtain ⟨hfirst, -⟩ := Pass.feasible_of_success hloaded
      obtain ⟨hsecond, -⟩ := Pass.feasible_of_success hplaced
      obtain ⟨hagain, hwire⟩ := run_faultless hloaded bus device .fresh hfresh
      have hends := loadThrough_both (bus.faultless.port device) (ready.target device) .fresh
        .fresh hfirst hsecond hagain
      obtain ⟨hwell, -⟩ := run_faultless hplaced bus device _ hwire
      exact hends.failure.trans hwell

end Job

/-! ### Runs -/

/-- The same world, but for the faults of the transfers on its bus. -/
def World.faultless (world : World) : World :=
  { world with bus := world.bus.faultless }

namespace Loading

variable {world : World} {options : Options}

/-- All that a load is to write. -/
def planned (loading : Loading world options) : List Planned :=
  loading.ready.planned loading.device

/-- A planned write that is there to let the CPU run is the write that does. -/
theorem release_of_planned (loading : Loading world options) {planned : Planned}
    (h : planned ∈ loading.planned) (hrelease : planned.release = true) :
    planned.write = Pass.releaseWrite loading.ready.device.family.profile := by
  unfold Loading.planned Job.Ready.planned at h
  cases hloader : loading.ready.loader with
  | none =>
      rw [hloader] at h
      exact Pass.write_of_release h hrelease
  | some loader =>
      rw [hloader] at h
      rcases List.mem_append.mp h with hfirst | hsecond
      · exact Pass.write_of_release hfirst hrelease
      · exact Pass.write_of_release hsecond hrelease

/-- Neither preparing a job nor opening a device takes a transfer. -/
def withoutFaults (loading : Loading world options) : Loading world.faultless options where
  job := loading.job
  settings := loading.settings
  ready := loading.ready
  device := loading.device
  asked := loading.asked
  gathered := loading.gathered
  prepared := loading.prepared
  opened := loading.opened

end Loading

namespace Program

open Usb (Transfer valueField indexField)

/-- What a device is told by a transfer: the number of the request, the address that its value
and its index make up, and the data. -/
def onWire (transfer : Transfer) : UInt8 × Nat × List UInt8 :=
  (transfer.request, transfer.value.toNat + 65536 * transfer.index.toNat, transfer.data)

/-- The transfer that makes a write tells all of it. -/
theorem onWire_of (write : ControlWrite) :
    onWire (.of write) = (write.request.code, write.address.toNat, write.data) := by
  have hlow : (valueField write.address).toNat = write.address.toNat % 65536 := by
    rw [valueField, UInt32.toNat_toUInt16]
  have hhigh : (indexField write.address).toNat = write.address.toNat / 65536 := by
    have hlt := write.address.toNat_lt
    rw [indexField, UInt32.toNat_toUInt16, UInt32.toNat_shiftRight]
    show write.address.toNat >>> 16 % 65536 = _
    rw [Nat.shiftRight_eq_div_pow]
    omega
  rw [onWire, Transfer.of, hlow, hhigh, Nat.mod_add_div]

theorem exitCode_of_loading {world : World} {options : Options}
    (loading : Loading world options) :
    exitCode (run world options) = 0 ↔ loading.run.failure = none := by
  obtain ⟨-, hresult⟩ := run_loading loading
  rw [exitCode_eq_zero_iff, hresult, Job.conclude]
  cases loading.run.failure <;> simp

/-- A run that succeeds writes what its load was to write. -/
theorem transfers_of_success {world : World} {options : Options}
    (loading : Loading world options) (h : loading.run.failure = none) :
    transfers (run world options).effects = (loading.planned.map Planned.write).map .of := by
  obtain ⟨hwritten, -⟩ := run_loading loading
  have hdone := loading.ready.load_planned h
  exact hwritten.trans (congrArg (List.map Transfer.of) (Pass.writes_of_done hdone))

/--
**A load that succeeds has delivered every byte.**

If a run that is to load a device succeeds, its transfers are all the writes that were planned
for the device that was chosen, in order; each of them took all its bytes, but for the last one
of a pass, which may have found that the device was gone.  The same run writes the same where
no transfer fails.  So a run does not succeed if any of its transfers takes fewer bytes than it
was given, nor if one fails that is not there to let the CPU run.
-/
theorem run_delivers (world : World) (options : Options) (job : Job)
    (hasked : options.command = .load job) :
    let written := transfers (run world options).effects
    (exitCode (run world options) = 0 →
      ∃ loading : Loading world options,
        written = (loading.planned.map Planned.write).map .of ∧
        written.map onWire = loading.planned.map (fun planned =>
          (planned.write.request.code, planned.write.address.toNat, planned.write.data)) ∧
        (∀ n planned, loading.planned[n]? = some planned → world.bus.Accepts n planned) ∧
        exitCode (run world.faultless options) = 0 ∧
        transfers (run world.faultless options).effects = written) ∧
    ∀ n transfer, written[n]? = some transfer →
      (0 ≤ world.bus.returns n transfer.data →
        world.bus.returns n transfer.data ≠ transfer.data.length →
        exitCode (run world options) ≠ 0) ∧
      (world.bus.returns n transfer.data < 0 →
        (∀ loading : Loading world options,
          transfer ≠ .of (Pass.releaseWrite loading.ready.device.family.profile)) →
        exitCode (run world options) ≠ 0) := by
  intro written
  have hsuccess : exitCode (run world options) = 0 →
      ∃ loading : Loading world options, loading.run.failure = none ∧
        written = (loading.planned.map Planned.write).map .of := by
    intro hexit
    obtain ⟨loading⟩ := exists_loading hasked (.inl hexit)
    have hwell := (exitCode_of_loading loading).mp hexit
    exact ⟨loading, hwell, transfers_of_success loading hwell⟩
  constructor
  · intro hexit
    obtain ⟨loading, hwell, hwritten⟩ := hsuccess hexit
    have hagain : loading.withoutFaults.run.failure = none := loading.ready.load_faultless hwell
    refine ⟨loading, hwritten, ?_, ?_, ?_, ?_⟩
    · rw [hwritten, List.map_map, List.map_map]
      exact List.map_congr_left fun planned _ => onWire_of planned.write
    · exact loading.ready.load_accepted hwell
    · exact (exitCode_of_loading loading.withoutFaults).mpr hagain
    · rw [transfers_of_success loading.withoutFaults hagain, hwritten]
      rfl
  · intro n transfer htransfer
    have haccepted : exitCode (run world options) = 0 →
        ∃ loading : Loading world options, ∃ planned ∈ loading.planned,
          .of planned.write = transfer ∧ world.bus.Accepts n planned := by
      intro hexit
      obtain ⟨loading, hwell, hwritten⟩ := hsuccess hexit
      rw [hwritten, List.map_map, List.getElem?_map, Option.map_eq_some_iff] at htransfer
      obtain ⟨planned, hplanned, rfl⟩ := htransfer
      exact ⟨loading, planned, List.mem_of_getElem? hplanned, rfl,
        loading.ready.load_accepted hwell n planned hplanned⟩
    constructor
    · intro hcount hshort hexit
      obtain ⟨loading, planned, -, rfl, hall | ⟨-, hgone⟩⟩ := haccepted hexit
      · exact hshort hall
      · rw [Transfer.data_of] at hcount
        rw [Usb.Fault.ofCode_of_nonneg hcount] at hgone
        rcases hgone with hgone | hgone <;> cases hgone
    · intro hfault hother hexit
      obtain ⟨loading, planned, hmem, rfl, hall | ⟨hrelease, -⟩⟩ := haccepted hexit
      · rw [Transfer.data_of] at hfault
        omega
      · exact hother loading (congrArg _ (loading.release_of_planned hmem hrelease))

/-- The bench, with transfers that return something else than what they are to. -/
def answeringBench (returned : Nat → Option Int) : World :=
  { benchWorld with bus := { benchWorld.bus with returned } }

/-- The device leaves the bus when its EEPROM is done, and so the run succeeds; it does not if
the header of the first record is cut short. -/
theorem run_delivers_unplugged :
    let leaving := answeringBench fun n => if n = 9 then some (-4) else none
    let cutting := answeringBench fun n => if n = 4 then some 3 else none
    let header : Usb.Transfer := ⟨0x40, 0xA2, 8, 0, [0, 3, 0, 0], 1000⟩
    exitCode (run leaving (benchOptions (some 1))) = 0 ∧
      (transfers (run leaving (benchOptions (some 1))).effects).map onWire
        = [(0xA0, 0xE600, [1]), (0xA0, 0x0000, [0x02, 0x00]), (0xA0, 0xE600, [0]),
          (0xA2, 0, [0x00]), (0xA2, 8, [0, 3, 0, 0]), (0xA2, 12, [0x02, 0x12, 0x34]),
          (0xA2, 15, [0x80, 0x01, 0xE6, 0x00]), (0xA2, 19, [0]),
          (0xA2, 0, [0xC2, 0xB4, 0x04, 0x13, 0x86, 0x01, 0xA0, 0x01]), (0xA0, 0xE600, [0])] ∧
      (∃ loading : Loading leaving (benchOptions (some 1)),
        transfers (run leaving (benchOptions (some 1))).effects
          = (loading.planned.map Planned.write).map .of) ∧
      (transfers (run cutting (benchOptions (some 1))).effects)[4]? = some header ∧
      exitCode (run cutting (benchOptions (some 1))) ≠ 0 := by
  intro leaving cutting header
  have hexit : exitCode (run leaving (benchOptions (some 1))) = 0 := by decide +kernel
  have hheader : (transfers (run cutting (benchOptions (some 1))).effects)[4]? = some header := by
    decide +kernel
  obtain ⟨hall, -⟩ := run_delivers leaving (benchOptions (some 1)) _ rfl
  obtain ⟨-, hcut⟩ := run_delivers cutting (benchOptions (some 1)) _ rfl
  obtain ⟨loading, hwritten, -⟩ := hall hexit
  obtain ⟨hshort, -⟩ := hcut 4 header hheader
  exact ⟨hexit, by decide +kernel, ⟨loading, hwritten⟩, hheader,
    hshort (by decide) (by decide)⟩

end Program

end UsbBoot
