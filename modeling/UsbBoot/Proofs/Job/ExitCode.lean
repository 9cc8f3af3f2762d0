/-
The exit code of a load.

A load takes its hurdles in their order, so the first one at which it fails decides the exit
code, whatever else is wrong.  The device is written to only at the last hurdle.  So a run that
ends with the exit code for a wrong request, wrong settings or a missing device has not touched
it.
-/
import UsbBoot.Proofs.Job.Failing

namespace UsbBoot

open Usb (Attached Bus)

namespace Job

/-! ### The hurdles are taken in their order -/

/-- What preparing a job comes to, part by part. -/
theorem result_prepare (files : String → Lookup) (bus : Bus) (settings : Settings)
    (named : Option String) (job : Job) :
    (job.prepare files bus settings named).result =
      ((permit job.configByte (job.loaderPath settings) none).result >>= fun _ =>
        (readImage files job.firmware).result >>= fun firmware =>
        (readLoader files (job.loaderPath settings)).result >>= fun loader =>
        settings.table.mapError Settings.Fault.report >>= fun table =>
        job.selectFamily settings >>= fun family =>
        job.selectDevice settings named >>= fun id =>
        (attached bus ⟨family, id⟩).result >>= fun devices =>
        (Device.resolve table ⟨family, id⟩ devices).mapError Report.ofFailure >>= fun device =>
        (permit job.configByte (job.loaderPath settings) (some device)).result >>= fun _ =>
        .ok ⟨firmware, loader, job.configByte, device⟩) := by
  simp only [prepare, choose, selector, Stage.result_bind, Stage.result_pure, Stage.result_note,
    Stage.result_ofExcept, bind_assoc, pure_bind]

section

variable {world : World} {settings : Settings} {job : Job}

theorem decidedBy_prepare (world : World) (settings : Settings) (job : Job) :
    DecidedBy (FailsAt world settings job)
      [.loaderNamed, .firmwareRead, .loaderRead, .tableMade, .familyNamed, .deviceNamed,
        .busListed, .deviceFound, .familyVouched]
      (job.prepare world.files world.bus settings (world.environment deviceVariable)).result := by
  rw [result_prepare]
  refine .step (fun _ => failsWith_permit_iff) fun _ hnamed => ?_
  refine .step (fun _ => failsWith_firmware_iff) fun firmware _ => ?_
  refine .step (fun _ => failsWith_loader_iff) fun loader _ => ?_
  refine .step (fun _ => failsWith_table_iff) fun table htable => ?_
  refine .step (fun _ => failsWith_selectFamily_iff) fun family hfamily => ?_
  refine .step (fun _ => failsWith_selectDevice_iff) fun id hid => ?_
  refine .step (fun _ => failsWith_attached_iff hid) fun devices hdevices => ?_
  have htable := mapError_eq_ok_iff.mp htable
  have hselector : job.selector settings (world.environment deviceVariable)
      = .ok ⟨family, id⟩ := by
    rw [selector, hfamily, hid]
    rfl
  rw [offered_of_attached hdevices]
  refine .step (fun _ => failsWith_resolve_iff htable hselector) fun resolved hresolved => ?_
  have hfinds := (finds_iff htable hselector).mpr (mapError_eq_ok_iff.mp hresolved)
  refine .step (fun _ => failsWith_permit_device_iff hfinds hnamed) fun _ _ => ?_
  exact decidedBy_ok _ _

/-- The device of a job that is ready is the one that was found. -/
theorem finds_of_prepare {ready : Ready}
    (h : (job.prepare world.files world.bus settings
      (world.environment deviceVariable)).result = .ok ready) :
    Finds world settings job (.ok ready.device) := by
  rw [result_prepare] at h
  obtain ⟨_, -, h⟩ := bind_eq_ok_iff.mp h
  obtain ⟨firmware, -, h⟩ := bind_eq_ok_iff.mp h
  obtain ⟨loader, -, h⟩ := bind_eq_ok_iff.mp h
  obtain ⟨table, htable, h⟩ := bind_eq_ok_iff.mp h
  obtain ⟨family, hfamily, h⟩ := bind_eq_ok_iff.mp h
  obtain ⟨id, hid, h⟩ := bind_eq_ok_iff.mp h
  obtain ⟨devices, hdevices, h⟩ := bind_eq_ok_iff.mp h
  obtain ⟨resolved, hresolved, h⟩ := bind_eq_ok_iff.mp h
  obtain ⟨_, -, h⟩ := bind_eq_ok_iff.mp h
  obtain rfl := Except.ok.inj h
  refine ⟨table, ⟨family, id⟩, mapError_eq_ok_iff.mp htable, ?_, ?_⟩
  · rw [selector, hfamily, hid]
    rfl
  · rw [← offered_of_attached hdevices]
    exact mapError_eq_ok_iff.mp hresolved

theorem decidedBy_run (world : World) (settings : Settings) (job : Job) (quiet : Bool) :
    DecidedBy (FailsAt world settings job) Hurdle.order
      (job.run world.files world.bus settings (world.environment deviceVariable) quiet).result := by
  have hperform : ∀ ready, (job.prepare world.files world.bus settings
      (world.environment deviceVariable)).result = .ok ready →
      DecidedBy (FailsAt world settings job) [.deviceOpened, .loaded]
        (ready.perform world.bus quiet).result := by
    intro ready hready
    rw [ready.result_perform]
    refine .step (fun _ => failsWith_open_iff (finds_of_prepare hready) _) fun device hopen => ?_
    have hopened := mapError_eq_ok_iff.mp hopen
    exact decidedBy_single fun _ => failsWith_conclude_iff hready hopened
  rw [run, Stage.result_bind]
  exact (decidedBy_prepare world settings job).append hperform

/-- At one hurdle there is only one exit code to fail with. -/
theorem FailsAt.unique {hurdle : Hurdle} {code code' : Nat}
    (h : FailsAt world settings job hurdle code) (h' : FailsAt world settings job hurdle code') :
    code = code' := by
  cases h with
  | noLoader => cases h'; rfl
  | badFirmware => cases h'; rfl
  | badLoader => cases h'; rfl
  | badEntry => cases h'; rfl
  | badFamily => cases h'; rfl
  | badVariable hjob hvariable =>
      cases h' with
      | badVariable => rfl
      | badDevice _ hnone => cases hvariable.symm.trans hnone
  | badDevice hjob hnone =>
      cases h' with
      | badVariable _ hvariable => cases hvariable.symm.trans hnone
      | badDevice => rfl
  | badBus => cases h'; rfl
  | noDevice => cases h'; rfl
  | guessed => cases h'; rfl
  | badStart hfinds hstart =>
      cases h' with
      | badStart => rfl
      | notThere _ hnone => exact absurd hnone hstart
      | notTaken => rfl
  | notThere hfinds hstart hnone =>
      cases h' with
      | badStart _ hfault => exact absurd hstart hfault
      | notThere => rfl
      | notTaken hother _ hopenable =>
          obtain rfl := Except.ok.inj (hfinds.unique hother)
          cases hnone.symm.trans hopenable
  | notTaken hfinds hstart hopenable =>
      cases h' with
      | badStart => rfl
      | notThere hother _ hnone =>
          obtain rfl := Except.ok.inj (hfinds.unique hother)
          cases hnone.symm.trans hopenable
      | notTaken => rfl
  | notLoaded hready hopen hfailure =>
      cases h' with
      | notLoaded hready' hopen' hfailure' =>
          obtain rfl := Except.ok.inj (hready.symm.trans hready')
          obtain rfl := Except.ok.inj (hopen.symm.trans hopen')
          obtain rfl := Option.some.inj (hfailure.symm.trans hfailure')
          rfl

theorem Hurdle.mem_order (hurdle : Hurdle) : hurdle ∈ Hurdle.order := by
  cases hurdle <;> decide

end

end Job

/-! ### Runs -/

namespace Program

open Job (FailsAt FirstFails Hurdle)

/-- The code of a run whose outcome hurdles decide. -/
theorem exitCode_of_decidedBy {fails : Hurdle → Nat → Prop} {hurdles : List Hurdle}
    {run : Stage Report Unit} (h : Job.DecidedBy fails hurdles run.result)
    (hunique : ∀ hurdle code code', fails hurdle code → fails hurdle code' → code = code') :
    (∀ code, code ≠ 0 → (exitCode run = code ↔ FirstFails fails hurdles code)) ∧
      (exitCode run = 0 ↔ ∀ hurdle ∈ hurdles, ∀ code, ¬fails hurdle code) := by
  unfold exitCode
  cases hresult : run.result with
  | ok =>
      rw [hresult] at h
      refine ⟨fun code hne => ⟨fun hzero => absurd hzero.symm hne, fun hfails => ?_⟩,
        fun _ => h, fun _ => rfl⟩
      obtain ⟨hurdle, hmem, hfails⟩ := hfails.exists
      exact absurd hfails (h hurdle hmem code)
  | error report =>
      rw [hresult] at h
      have hfirst : FirstFails fails hurdles report.exitCode := h
      refine ⟨fun code _ => ⟨fun heq => heq ▸ hfirst, fun hfails => hfirst.unique hunique hfails⟩,
        fun hzero => absurd hzero report.exitCode_ne_zero, fun hnone => ?_⟩
      obtain ⟨hurdle, hmem, hfails⟩ := hfirst.exists
      exact absurd hfails (hnone hurdle hmem _)

/-- A run that writes to a device has taken all hurdles but the last one. -/
theorem passes_of_loading {world : World} {options : Options} (loading : Loading world options)
    {hurdle : Hurdle} (hearlier : hurdle ≠ .loaded) (code : Nat) :
    ¬FailsAt world loading.settings loading.job hurdle code := by
  intro hfails
  by_cases hopening : hurdle = .deviceOpened
  · subst hopening
    have hfinds := Job.finds_of_prepare loading.prepared
    obtain ⟨report, herror, -⟩ :=
      (Job.failsWith_open_iff hfinds "").mpr hfails
    obtain hopened := mapError_eq_ok_iff.mpr loading.opened
    cases herror.symm.trans hopened
  · have hprepared := Job.decidedBy_prepare world loading.settings loading.job
    rw [loading.prepared] at hprepared
    refine hprepared hurdle ?_ code hfails
    cases hurdle <;> simp_all

/--
**The first hurdle at which a load fails decides the exit code.**

Under the settings that are gathered, a run that is to load a device ends with an exit code for
a failure exactly if the first of all hurdles at which the load fails calls for that code, and
it succeeds exactly if there is none.  However many contexts a failure is told in, its cause
decides.  If the run writes anything to a device, only the load itself can have failed.  So with
an exit code of two, three or four nothing was written.
-/
theorem run_exitCode (world : World) (options : Options) (job : Job)
    (hasked : options.command = .load job) :
    ∃ settings,
      (Settings.gather world.files (userSettings? world.environment) options.settings
        : Stage Report Settings).result = .ok settings ∧
      (∀ code, code ≠ 0 → (exitCode (run world options) = code
        ↔ FirstFails (FailsAt world settings job) Hurdle.order code)) ∧
      (exitCode (run world options) = 0
        ↔ ∀ hurdle code, ¬FailsAt world settings job hurdle code) ∧
      (∀ (contexts : List String) (report : Report),
        (contexts.foldr Report.within report).exitCode = report.exitCode) ∧
      (∀ cause : Report.Link, (Report.of cause).exitCode = cause.exitCode?.getD 1) ∧
      (transfers (run world options).effects ≠ [] →
        ∀ hurdle, hurdle ≠ .loaded → ∀ code, ¬FailsAt world settings job hurdle code) ∧
      (exitCode (run world options) ∈ [2, 3, 4] → transfers (run world options).effects = []) := by
  obtain ⟨settings, hgathered, -, hended⟩ := run_load world hasked
  have hdecided := Job.decidedBy_run world settings job options.quiet
  rw [← hended] at hdecided
  obtain ⟨hfirst, hnone⟩ := exitCode_of_decidedBy hdecided fun _ _ _ => FailsAt.unique
  have hwritten : transfers (run world options).effects ≠ [] →
      ∀ hurdle, hurdle ≠ .loaded → ∀ code, ¬FailsAt world settings job hurdle code := by
    intro hsome hurdle hearlier code
    obtain ⟨loading⟩ := exists_loading hasked (.inr hsome)
    obtain rfl := Except.ok.inj (hgathered.symm.trans loading.gathered)
    obtain rfl := Command.load.inj (hasked.symm.trans loading.asked)
    exact passes_of_loading loading hearlier code
  refine ⟨settings, hgathered, hfirst, ?_, Report.exitCode_foldr_within,
    Report.exitCode_of, hwritten, ?_⟩
  · rw [hnone]
    exact ⟨fun h hurdle => h hurdle hurdle.mem_order, fun h hurdle _ => h hurdle⟩
  · intro hcode
    by_contra hsome
    have hne : exitCode (run world options) ≠ 0 := by
      intro hzero
      rw [hzero] at hcode
      simp at hcode
    obtain ⟨hurdle, -, hfails⟩ := ((hfirst _ hne).mp rfl).exists
    by_cases hlast : hurdle = .loaded
    · subst hlast
      generalize exitCode (run world options) = code at hcode hfails
      cases hfails with
      | notLoaded => split at hcode <;> simp at hcode
    · exact hwritten hsome hurdle hlast _ hfails

/-- A bench whose settings name an unknown family, and whose environment names the device by
what is no pair. -/
def muddledBench : World where
  files path :=
    if path = Settings.localPath then
      .found (Text.encode "[device]\ntype = \"z80\"\n".toList)
    else benchWorld.files path
  environment name := if name = Job.deviceVariable then some "loader" else none
  bus := benchWorld.bus

/-- A record whose checksum is off by one. -/
def garbled : List UInt8 :=
  Text.encode ":03000000021234B4\n:00000001FF".toList

/-- A bench whose firmware can be read, but makes no image. -/
def garbledBench : World :=
  { benchWorld with
    files := fun path =>
      if path = "firmware.hex" then .found garbled else benchWorld.files path }

/-- The settings are found to be wrong before the environment is, and the firmware before the
device is opened. -/
theorem run_exitCode_muddled :
    let job : Job := ⟨"firmware.hex", some "loader.hex", none, none, none⟩
    (exitCode (run muddledBench (benchOptions none)) = 3 ∧
      (∃ settings, FirstFails (FailsAt muddledBench settings job) Hurdle.order 3 ∧
        FailsAt muddledBench settings job .deviceNamed 2) ∧
      transfers (run muddledBench (benchOptions none)).effects = []) ∧
    exitCode (run garbledBench (benchOptions none)) = 1 ∧
      (∃ settings, FirstFails (FailsAt garbledBench settings job) Hurdle.order 1 ∧
        FailsAt garbledBench settings job .firmwareRead 1) ∧
      transfers (run garbledBench (benchOptions none)).effects = [] := by
  intro job
  have hmuddled : exitCode (run muddledBench (benchOptions none)) = 3 := by decide +kernel
  have hgarbled : exitCode (run garbledBench (benchOptions none)) = 1 := by decide +kernel
  constructor
  · obtain ⟨settings, -, hfirst, -, -, -, -, hnothing⟩ :=
      run_exitCode muddledBench (benchOptions none) job rfl
    refine ⟨hmuddled, ⟨settings, (hfirst 3 (by decide)).mp hmuddled, ?_⟩,
      hnothing (by simp [hmuddled])⟩
    exact .badVariable rfl rfl rfl
  · obtain ⟨settings, -, hfirst, -, -, -, hwritten, -⟩ :=
      run_exitCode garbledBench (benchOptions none) job rfl
    have hread : Image.read ⟨garbled, .complete⟩
        = .error (.malformed 1 (.checksum 0xB5 0xB4)) := by
      decide +kernel
    have hfails : FailsAt garbledBench settings job .firmwareRead 1 :=
      .badFirmware (show (Lookup.found garbled).HoldsNone from .malformed hread)
    refine ⟨hgarbled, ⟨settings, (hfirst 1 (by decide)).mp hgarbled, hfails⟩, ?_⟩
    by_contra hsome
    exact hwritten hsome .firmwareRead nofun 1 hfails

end Program
end UsbBoot
