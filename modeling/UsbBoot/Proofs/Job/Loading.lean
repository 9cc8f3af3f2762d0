/-
What a run that loads a device comes to.

A load job gets as far as the device if it can be prepared and if the device can be opened.
From there on all that is written is written by the load, and the load alone decides how the
run ends.  A run that does not get so far writes nothing and does not succeed.
-/
import UsbBoot.Proofs.Job.Eeprom

namespace UsbBoot

open Program (transfers transfers_eq_nil_iff)

variable {ε α β : Type}

namespace Report

/-- No link calls for success. -/
theorem Link.exitCode?_ne_zero (link : Link) : link.exitCode? ≠ some 0 := by
  cases link with
  | failure cause => cases cause <;> simp [exitCode?]
  | usage | settings | cancelled | plain => simp [exitCode?]

/-- A report makes no success. -/
theorem exitCode_ne_zero (report : Report) : report.exitCode ≠ 0 := by
  unfold exitCode
  cases hfound : report.chain.findSome? Link.exitCode? with
  | none => decide
  | some code =>
      obtain ⟨link, -, hcode⟩ := List.exists_of_findSome?_eq_some hfound
      rintro rfl
      exact link.exitCode?_ne_zero hcode

end Report

/-! ### What stages write -/

namespace Stage

theorem Still.transfers {stage : Stage ε α} (h : stage.Still) :
    Program.transfers stage.effects = [] :=
  transfers_eq_nil_iff.mpr h

/-- What follows a still stage that yields a value writes all there is. -/
theorem Still.transfers_bind {stage : Stage ε α} (h : stage.Still) {value : α}
    (hvalue : stage.result = .ok value) (next : α → Stage ε β) :
    Program.transfers (stage >>= next).effects = Program.transfers (next value).effects := by
  rw [effects_bind_of_ok next hvalue, Program.transfers, List.filterMap_append,
    ← Program.transfers, ← Program.transfers, h.transfers, List.nil_append]

/-- If anything is written in a sequence that begins with a still stage, that yields a value. -/
theorem Still.ok_of_transfers {stage : Stage ε α} (h : stage.Still) {next : α → Stage ε β}
    (hwritten : Program.transfers (stage >>= next).effects ≠ []) :
    ∃ value, stage.result = .ok value := by
  cases hresult : stage.result with
  | ok value => exact ⟨value, rfl⟩
  | error error =>
      rw [effects_bind_of_error next hresult, h.transfers] at hwritten
      exact absurd rfl hwritten

/-- Still stages behind another one write nothing more. -/
theorem transfers_bind_of_still (stage : Stage ε α) {next : α → Stage ε β}
    (h : ∀ value, (next value).Still) :
    Program.transfers (stage >>= next).effects = Program.transfers stage.effects := by
  cases hresult : stage.result with
  | ok value =>
      rw [effects_bind_of_ok next hresult, Program.transfers, List.filterMap_append,
        ← Program.transfers, ← Program.transfers, (h value).transfers, List.append_nil]
  | error error => rw [effects_bind_of_error next hresult]

end Stage

/-! ### The load -/

/-- A load that has got as far as the open device. -/
structure Loading (world : World) (options : Options) where
  job : Job
  settings : Settings
  ready : Job.Ready
  device : Usb.Attached
  asked : options.command = .load job
  gathered : (Settings.gather world.files (Program.userSettings? world.environment)
    options.settings : Stage Report Settings).result = .ok settings
  prepared : (job.prepare world.files world.bus settings
    (world.environment Job.deviceVariable)).result = .ok ready
  opened : (world.bus.open ready.device.id).result = .ok device

def Loading.run {world : World} {options : Options} (loading : Loading world options) :
    Pass.Run Usb.Wire :=
  loading.ready.load world.bus loading.device

namespace Job

/-- What a load writes is what its passes write. -/
theorem transfers_conclude (run : Pass.Run Usb.Wire) :
    transfers (conclude run).effects = (Pass.writes run.events).map .of :=
  transfers_effectsOf run.events

/-- Once its device is open, a ready job ends as its load does. -/
theorem Ready.result_perform (ready : Ready) (bus : Usb.Bus) (quiet : Bool) :
    (ready.perform bus quiet).result
      = ((bus.open ready.device.id).mapError fun failure => (Report.ofFailure failure).within
          ("Failed to open device " ++ ready.device.id.lower)).result >>= fun device =>
        (conclude (ready.load bus device)).result := by
  rw [perform, Stage.result_bind]
  congr 1
  funext device
  show (unlessQuiet quiet ready.opening >>= fun _ => conclude (ready.load bus device) >>=
    fun _ => unlessQuiet quiet ready.success).result = _
  rw [Stage.result_bind, Stage.result_bind]
  cases (conclude (ready.load bus device)).result with
  | ok => rfl
  | error report => rfl

/-- On an open device, a ready job writes what its load writes, and ends as its load does. -/
theorem Ready.perform_of_open {ready : Ready} {bus : Usb.Bus} {device : Usb.Attached}
    (hopen : (bus.open ready.device.id).result = .ok device) (quiet : Bool) :
    transfers (ready.perform bus quiet).effects
        = (Pass.writes (ready.load bus device).events).map .of ∧
      (ready.perform bus quiet).result = (conclude (ready.load bus device)).result := by
  have hopened : ((bus.open ready.device.id).mapError fun failure =>
      (Report.ofFailure failure).within ("Failed to open device " ++ ready.device.id.lower)).result
        = .ok device :=
    mapError_eq_ok_iff.mpr hopen
  constructor
  · have hbegun : (unlessQuiet quiet ready.opening).result = .ok () := rfl
    rw [perform, ((still_open bus ready.device.id).mapError _).transfers_bind hopened,
      Stage.endingWith, transfers, List.filterMap_append, ← transfers, ← transfers,
      transfers_eq_nil_iff.mpr (still_closing device), List.append_nil,
      (still_unlessQuiet quiet _).transfers_bind hbegun,
      Stage.transfers_bind_of_still _ fun _ => still_unlessQuiet quiet _, transfers_conclude]
  · rw [ready.result_perform, hopened]
    rfl

end Job

/-! ### The run -/

namespace Program

variable {world : World} {options : Options} {job : Job}

theorem exitCode_eq_zero_iff (run : Stage Report Unit) :
    exitCode run = 0 ↔ run.result = .ok () := by
  rw [exitCode]
  cases run.result with
  | ok => simp
  | error report => simp [report.exitCode_ne_zero]

/-- A run that is to load a device writes and ends as the job does, under the settings that
were gathered. -/
theorem run_load (world : World) (hasked : options.command = .load job) :
    ∃ settings,
      (Settings.gather world.files (userSettings? world.environment) options.settings
        : Stage Report Settings).result = .ok settings ∧
      let done := job.run world.files world.bus settings (world.environment Job.deviceVariable)
        options.quiet
      transfers (run world options).effects = transfers done.effects ∧
        (run world options).result = done.result := by
  obtain ⟨settings, hlogs⟩ := @Settings.gather_onlyLogs Report world.files
    (userSettings? world.environment) options.settings
  have hgathered : (Settings.gather world.files (userSettings? world.environment)
      options.settings : Stage Report Settings).result = .ok settings := by
    obtain ⟨lines, heq⟩ := hlogs
    rw [heq]
  have hbegun : (Stage.note [greeting options] : Stage Report Unit).result = .ok () := rfl
  have hperform : perform world settings options
      = job.run world.files world.bus settings (world.environment Job.deviceVariable)
        options.quiet := by
    rw [perform, hasked]
  refine ⟨settings, hgathered, ?_, ?_⟩
  · rw [run, (Stage.still_note _).transfers_bind hbegun, hlogs.still.transfers_bind hgathered,
      hperform]
  · rw [run, (Stage.onlyLogs_note _).result, hlogs.result, hperform]

/-- What a run writes that has got as far as the open device, and how it ends. -/
theorem run_loading (loading : Loading world options) :
    transfers (run world options).effects = (Pass.writes loading.run.events).map .of ∧
      (run world options).result = (Job.conclude loading.run).result := by
  obtain ⟨settings, hgathered, hwritten, hended⟩ := run_load world loading.asked
  obtain rfl := Except.ok.inj (hgathered.symm.trans loading.gathered)
  obtain ⟨hloaded, hconcluded⟩ := Job.Ready.perform_of_open loading.opened options.quiet
  constructor
  · have hstill := Job.still_prepare world.files world.bus loading.settings
      (world.environment Job.deviceVariable) loading.job
    rw [hwritten, Job.run, hstill.transfers_bind loading.prepared, hloaded]
    rfl
  · rw [hended, Job.run, Stage.result_bind, loading.prepared]
    exact hconcluded

/-- A run that is to load a device and succeeds, or writes anything, has got that far. -/
theorem exists_loading (hasked : options.command = .load job)
    (h : exitCode (run world options) = 0 ∨ transfers (run world options).effects ≠ []) :
    Nonempty (Loading world options) := by
  obtain ⟨settings, hgathered, hwritten, hended⟩ := run_load world hasked
  have hstill := Job.still_prepare world.files world.bus settings
    (world.environment Job.deviceVariable) job
  rcases h with hexit | hsome
  · rw [exitCode_eq_zero_iff, hended] at hexit
    obtain ⟨ready, hready, hperform⟩ := Stage.result_bind_eq_ok_iff.mp hexit
    obtain ⟨device, hdevice, -⟩ := Stage.result_bind_eq_ok_iff.mp hperform
    exact ⟨⟨job, settings, ready, device, hasked, hgathered, hready,
      mapError_eq_ok_iff.mp hdevice⟩⟩
  · rw [hwritten] at hsome
    obtain ⟨ready, hready⟩ := hstill.ok_of_transfers hsome
    rw [Job.run, hstill.transfers_bind hready] at hsome
    obtain ⟨device, hdevice⟩ :=
      ((Job.still_open world.bus ready.device.id).mapError _).ok_of_transfers hsome
    exact ⟨⟨job, settings, ready, device, hasked, hgathered, hready,
      mapError_eq_ok_iff.mp hdevice⟩⟩

end Program
end UsbBoot
