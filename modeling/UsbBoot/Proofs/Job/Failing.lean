/-
Failing at each hurdle.

For each hurdle there is one part of the run that is there to take it, and that part fails with
an exit code exactly if the load fails at the hurdle with this code.  Where a part builds on
what earlier ones have yielded, these are given; so each part is looked at by itself.
-/
import UsbBoot.Proofs.Job.Hurdle
import UsbBoot.Proofs.Pass.Cause
import UsbBoot.Proofs.Settings.Entries

namespace UsbBoot

open Device (Info Resolved Selector)
open Usb (Attached Bus)

namespace Image

theorem State.plain_of_take {state : State} {line : Nat} {record : Record} {failure : Failure}
    (h : state.take line record = .error failure) : failure.Plain := by
  unfold State.take State.takeData at h
  split at h
  · split at h
    · cases h
    · simp only at h
      split at h
      · obtain rfl := Except.error.inj h
        rfl
      · split at h
        · obtain rfl := Except.error.inj h
          rfl
        · cases h
  · cases h
  · cases h
  · cases h
  · cases h

/-- What is wrong with an image is never taken for a device that was not found. -/
theorem plain_of_readLines {ending : Ending} {state : State} {number : Nat}
    {lines : List (List UInt8)} {failure : Failure}
    (h : readLines ending state number lines = .error failure) : failure.Plain := by
  induction lines generalizing state number with
  | nil =>
      obtain rfl := Except.error.inj h
      cases ending <;> rfl
  | cons line rest ih =>
      rw [readLines] at h
      split at h
      · exact ih h
      · obtain rfl := Except.error.inj h
        rfl
      · split at h
        · cases h
        · split at h
          · rename_i htake
            obtain rfl := Except.error.inj h
            exact State.plain_of_take htake
          · exact ih h

theorem plain_of_ofLookup {lookup : Lookup} {failure : Failure}
    (h : ofLookup lookup = .error failure) : failure.Plain := by
  unfold ofLookup at h
  split at h
  · obtain rfl := Except.error.inj h
    rfl
  · exact plain_of_readLines h

end Image

namespace Job

/-! ### The files and the settings -/

theorem loaderPath_eq_none_iff {job : Job} {settings : Settings} :
    job.loaderPath settings = none ↔ job.loader = none ∧ settings.loader = none := by
  unfold loaderPath
  cases job.loader <;> simp

theorem checkEeprom_none_eq_error_iff {config : Option UInt8} {loader : Option String}
    {fault : Fault} :
    checkEeprom config loader none = .error fault
      ↔ config ≠ none ∧ loader = none ∧ fault = .noLoader := by
  cases config <;> cases loader <;> simp [checkEeprom, eq_comm]

theorem checkEeprom_some_eq_error_iff {config : Option UInt8} {path : String}
    {device : Resolved} {fault : Fault} :
    checkEeprom config (some path) (some device) = .error fault
      ↔ config ≠ none ∧ device.source = .fallback ∧ fault = .noFamily := by
  cases config with
  | none => simp [checkEeprom]
  | some config =>
      by_cases hsource : device.source = .fallback <;> simp [checkEeprom, hsource, eq_comm]

section

variable {world : World} {settings : Settings} {job : Job} {code : Nat}

theorem result_readImage (files : String → Lookup) (path : String) :
    (readImage files path).result
      = (Image.ofLookup (files path)).mapError fun failure =>
        (Report.ofFailure failure).within ("Failed to load firmware " ++ path) := by
  rw [readImage, Image.load, Stage.result_bind, Stage.result_bind]
  cases Image.ofLookup (files path) <;> rfl

theorem failsWith_permit_iff :
    FailsWith (permit job.configByte (job.loaderPath settings) none).result code
      ↔ FailsAt world settings job .loaderNamed code := by
  refine failsWith_mapError_iff.trans ⟨?_, ?_⟩
  · rintro ⟨fault, herror, rfl⟩
    obtain ⟨hconfig, hpath, rfl⟩ := checkEeprom_none_eq_error_iff.mp herror
    obtain ⟨hjob, hsettings⟩ := loaderPath_eq_none_iff.mp hpath
    exact .noLoader hconfig hjob hsettings
  · intro h
    cases h with
    | noLoader hconfig hjob hsettings =>
        have hpath := loaderPath_eq_none_iff.mpr ⟨hjob, hsettings⟩
        exact ⟨.noLoader, checkEeprom_none_eq_error_iff.mpr ⟨hconfig, hpath, rfl⟩, rfl⟩

/-- Whatever is wrong with a file, it calls for the same exit code. -/
theorem failsWith_readImage_iff {files : String → Lookup} {path : String} :
    FailsWith (readImage files path).result code ↔ (files path).HoldsNone ∧ code = 1 := by
  rw [result_readImage, failsWith_mapError_iff, ← Image.ofLookup_eq_error_iff]
  constructor
  · rintro ⟨failure, hread, rfl⟩
    rw [Report.exitCode_within]
    exact ⟨⟨failure, hread⟩, Image.plain_of_ofLookup hread⟩
  · rintro ⟨⟨failure, hread⟩, rfl⟩
    rw [← Image.plain_of_ofLookup hread]
    exact ⟨failure, hread, Report.exitCode_within ..⟩

theorem failsWith_firmware_iff :
    FailsWith (readImage world.files job.firmware).result code
      ↔ FailsAt world settings job .firmwareRead code := by
  rw [failsWith_readImage_iff]
  constructor
  · rintro ⟨hread, rfl⟩
    exact .badFirmware hread
  · intro h
    cases h with
    | badFirmware hread => exact ⟨hread, rfl⟩

theorem failsWith_loader_iff :
    FailsWith (readLoader world.files (job.loaderPath settings)).result code
      ↔ FailsAt world settings job .loaderRead code := by
  cases hpath : job.loaderPath settings with
  | none =>
      constructor
      · rintro ⟨report, herror, -⟩
        cases herror
      · intro h
        cases h with
        | badLoader hnamed => cases hpath.symm.trans (loaderPath_eq_some_iff.mpr hnamed)
  | some path =>
      have hnever : ∀ image : Image,
          ¬FailsWith (pure (some image) : Stage Report (Option Image)).result code := by
        rintro image ⟨report, herror, -⟩
        cases herror
      rw [readLoader, Stage.result_bind, failsWith_bind_iff]
      simp only [hnever, and_false, exists_false, or_false]
      rw [failsWith_readImage_iff]
      constructor
      · rintro ⟨hread, rfl⟩
        exact .badLoader (loaderPath_eq_some_iff.mp hpath) hread
      · intro h
        cases h with
        | badLoader hnamed hread =>
            obtain rfl := Option.some.inj
              (hpath.symm.trans (loaderPath_eq_some_iff.mpr hnamed))
            exact ⟨hread, rfl⟩

theorem failsWith_table_iff :
    FailsWith (settings.table.mapError Settings.Fault.report) code
      ↔ FailsAt world settings job .tableMade code := by
  rw [failsWith_mapError_iff]
  constructor
  · rintro ⟨fault, htable, rfl⟩
    obtain ⟨entry, hmem, htype⟩ := Settings.addEntries_fails_iff.mp ⟨fault, htable⟩
    exact .badEntry hmem htype
  · intro h
    cases h with
    | badEntry hmem htype =>
        obtain ⟨fault, htable⟩ := Settings.addEntries_fails_iff.mpr ⟨_, hmem, htype⟩
        exact ⟨fault, htable, rfl⟩

theorem failsWith_selectFamily_iff :
    FailsWith (job.selectFamily settings) code
      ↔ FailsAt world settings job .familyNamed code := by
  unfold selectFamily Settings.family
  constructor
  · rintro ⟨report, herror, rfl⟩
    cases hjob : job.family with
    | some family => simp [hjob] at herror
    | none =>
        cases hset : settings.type with
        | none => simp [hjob, hset, Except.mapError] at herror
        | some name =>
            cases hname : Chip.Family.ofName? name with
            | some family => simp [hjob, hset, hname, Except.mapError] at herror
            | none =>
                simp only [hjob, hset, hname, Except.mapError, Except.error.injEq] at herror
                rw [← herror]
                exact .badFamily hjob hset hname
  · intro h
    cases h with
    | @badFamily name hjob hset hname =>
        exact ⟨(Settings.Fault.unknownType name).report,
          by simp [hjob, hset, hname, Except.mapError], rfl⟩

theorem failsWith_selectDevice_iff :
    FailsWith (job.selectDevice settings (world.environment deviceVariable)) code
      ↔ FailsAt world settings job .deviceNamed code := by
  unfold selectDevice Settings.deviceId
  constructor
  · rintro ⟨report, herror, rfl⟩
    cases hjob : job.device with
    | some id => simp [hjob] at herror
    | none =>
        cases hvariable : world.environment deviceVariable with
        | some text =>
            cases hread : Device.Id.read text with
            | ok id => simp [hjob, hvariable, hread, Except.mapError, Except.map] at herror
            | error fault =>
                simp only [hjob, hvariable, hread, Except.map, Except.mapError,
                  Except.error.injEq] at herror
                rw [← herror]
                exact .badVariable hjob hvariable hread
        | none =>
            cases hset : settings.device with
            | none => simp [hjob, hvariable, hset, Except.mapError] at herror
            | some text =>
                cases hread : Device.Id.read text with
                | ok id => simp [hjob, hvariable, hset, hread, Except.mapError] at herror
                | error fault =>
                    simp only [hjob, hvariable, hset, hread, Except.mapError,
                      Except.error.injEq] at herror
                    rw [← herror]
                    exact .badDevice hjob hvariable hset hread
  · intro h
    cases h with
    | @badVariable text fault hjob hvariable hread =>
        exact ⟨(Fault.badDevice fault).report,
          by simp [hjob, hvariable, hread, Except.map, Except.mapError], rfl⟩
    | @badDevice text fault hjob hvariable hset hread =>
        exact ⟨(Settings.Fault.badDevice fault).report,
          by simp [hjob, hvariable, hset, hread, Except.mapError], rfl⟩

/-! ### The device -/

theorem check_eq_ok_iff {fault : Option Usb.Fault} :
    (Usb.check fault).result = .ok () ↔ fault = none := by
  cases fault <;> simp [Usb.check, Stage.yield, Stage.fail]

theorem check_eq_error_iff {fault : Option Usb.Fault} {failure : Failure} :
    (Usb.check fault).result = .error failure
      ↔ ∃ found, fault = some found ∧ failure = .usb found := by
  cases fault <;> simp [Usb.check, Stage.yield, Stage.fail, eq_comm]

theorem result_list (bus : Bus) :
    bus.list.result = (Usb.check bus.startFault).result >>= fun _ =>
      (Usb.check bus.listFault).result >>= fun _ => .ok (bus.devices.filterMap Attached.info?) := by
  simp only [Bus.list, Stage.result_bind, Stage.result_call, Stage.result_note,
    Stage.result_onFailure, pure_bind]
  rfl

/-- The bus can be listed unless the stack cannot be used or will not list. -/
theorem list_eq_error_iff {bus : Bus} {failure : Failure} :
    bus.list.result = .error failure
      ↔ (∃ fault, bus.startFault = some fault ∧ failure = .usb fault) ∨
        bus.startFault = none ∧ ∃ fault, bus.listFault = some fault ∧ failure = .usb fault := by
  rw [result_list, bind_eq_error_iff, check_eq_error_iff]
  refine or_congr_right ⟨?_, ?_⟩
  · rintro ⟨_, hstart, herror⟩
    rcases bind_eq_error_iff.mp herror with hlist | ⟨_, -, hnever⟩
    · exact ⟨check_eq_ok_iff.mp hstart, check_eq_error_iff.mp hlist⟩
    · cases hnever
  · rintro ⟨hstart, hlist⟩
    exact ⟨(), check_eq_ok_iff.mpr hstart,
      bind_eq_error_iff.mpr (.inl (check_eq_error_iff.mpr hlist))⟩

theorem eq_of_list_eq_ok {bus : Bus} {devices : List Info} (h : bus.list.result = .ok devices) :
    devices = bus.devices.filterMap Attached.info? := by
  rw [result_list] at h
  obtain ⟨_, -, h⟩ := bind_eq_ok_iff.mp h
  obtain ⟨_, -, h⟩ := bind_eq_ok_iff.mp h
  exact (Except.ok.inj h).symm

theorem eq_none_of_selectDevice {named : Option String} {id : Option Device.Id}
    (h : job.selectDevice settings named = .ok id) :
    id = none ↔ job.device = none ∧ named = none ∧ settings.device = none := by
  unfold selectDevice Settings.deviceId at h
  cases hjob : job.device with
  | some given =>
      rw [hjob] at h
      obtain rfl := Except.ok.inj h
      simp
  | none =>
      cases named with
      | some text =>
          cases hread : Device.Id.read text with
          | error fault => simp [hjob, hread, Except.map, Except.mapError] at h
          | ok read =>
              simp only [hjob, hread, Except.map, Except.mapError, Except.ok.injEq] at h
              simp [← h]
      | none =>
          cases hset : settings.device with
          | none => simpa [hjob, hset, Except.mapError, eq_comm] using h
          | some text =>
              cases hread : Device.Id.read text with
              | error fault => simp [hjob, hset, hread, Except.mapError] at h
              | ok read =>
                  simp only [hjob, hset, hread, Except.mapError, Except.ok.injEq] at h
                  simp [← h]

/-- The bus is listed only where nobody names the device. -/
theorem failsWith_attached_iff {family : Option Chip.Family} {id : Option Device.Id}
    (hid : job.selectDevice settings (world.environment deviceVariable) = .ok id) :
    FailsWith (attached world.bus ⟨family, id⟩).result code
      ↔ FailsAt world settings job .busListed code := by
  have hnobody := eq_none_of_selectDevice hid
  cases id with
  | some id =>
      constructor
      · rintro ⟨report, herror, -⟩
        cases herror
      · intro h
        cases h with
        | badBus hjob hvariable hset => cases hnobody.mpr ⟨hjob, hvariable, hset⟩
  | none =>
      obtain ⟨hjob, hvariable, hset⟩ := hnobody.mp rfl
      refine failsWith_mapError_iff.trans ⟨?_, ?_⟩
      · rintro ⟨failure, herror, rfl⟩
        rcases list_eq_error_iff.mp herror with ⟨fault, hstart, rfl⟩ | ⟨-, fault, hlist, rfl⟩
        · exact .badBus hjob hvariable hset (.inl (by simp [hstart]))
        · exact .badBus hjob hvariable hset (.inr (by simp [hlist]))
      · intro h
        cases h with
        | badBus _ _ _ hfault =>
            cases hstart : world.bus.startFault with
            | some fault =>
                exact ⟨.usb fault, list_eq_error_iff.mpr (.inl ⟨fault, hstart, rfl⟩), rfl⟩
            | none =>
                obtain ⟨fault, hlist⟩ := Option.ne_none_iff_exists'.mp
                  (hfault.resolve_left (absurd hstart))
                exact ⟨.usb fault, list_eq_error_iff.mpr (.inr ⟨hstart, fault, hlist, rfl⟩), rfl⟩

theorem offered_of_attached {bus : Bus} {selector : Selector} {devices : List Info}
    (h : (attached bus selector).result = .ok devices) : devices = offered bus selector := by
  unfold attached at h
  unfold offered
  by_cases hid : selector.id.isSome = true
  · rw [if_pos hid] at h ⊢
    exact (Except.ok.inj h).symm
  · rw [if_neg hid] at h ⊢
    exact eq_of_list_eq_ok (mapError_eq_ok_iff.mp h)

theorem finds_iff {table : Device.Table} {selector : Selector}
    (htable : settings.table = .ok table)
    (hselector : job.selector settings (world.environment deviceVariable) = .ok selector)
    {found : Except Failure Resolved} :
    Finds world settings job found
      ↔ Device.resolve table selector (offered world.bus selector) = found := by
  constructor
  · rintro ⟨other, another, hother, hanother, hfound⟩
    obtain rfl := Except.ok.inj (htable.symm.trans hother)
    obtain rfl := Except.ok.inj (hselector.symm.trans hanother)
    exact hfound
  · intro hfound
    exact ⟨table, selector, htable, hselector, hfound⟩

/-- That no single device fits has an exit code of its own. -/
theorem exitCode_of_resolve {table : Device.Table} {selector : Selector} {devices : List Info}
    {failure : Failure} (h : Device.resolve table selector devices = .error failure) :
    (Report.ofFailure failure).exitCode = 4 := by
  unfold Device.resolve at h
  split at h
  · cases h
  · cases h
  · split at h
    · obtain rfl := Except.error.inj h
      rfl
    · cases h
    · obtain rfl := Except.error.inj h
      rfl
  · split at h
    · obtain rfl := Except.error.inj h
      rfl
    · cases h

theorem failsWith_resolve_iff {table : Device.Table} {selector : Selector}
    (htable : settings.table = .ok table)
    (hselector : job.selector settings (world.environment deviceVariable) = .ok selector) :
    FailsWith ((Device.resolve table selector (offered world.bus selector)).mapError
        Report.ofFailure) code
      ↔ FailsAt world settings job .deviceFound code := by
  rw [failsWith_mapError_iff]
  constructor
  · rintro ⟨failure, hfound, rfl⟩
    rw [exitCode_of_resolve hfound]
    exact .noDevice ((finds_iff htable hselector).mpr hfound)
  · intro h
    cases h with
    | noDevice hfinds =>
        have hfound := (finds_iff htable hselector).mp hfinds
        exact ⟨_, hfound, exitCode_of_resolve hfound⟩

theorem Finds.unique {found other : Except Failure Resolved} (h : Finds world settings job found)
    (hother : Finds world settings job other) : found = other := by
  obtain ⟨table, selector, htable, hselector, hfound⟩ := h
  exact hfound.symm.trans ((finds_iff htable hselector).mp hother)

/-- Once a loader was found to be named, the EEPROM is denied only to a guess. -/
theorem failsWith_permit_device_iff {resolved : Resolved}
    (hfinds : Finds world settings job (.ok resolved))
    (hnamed : (permit job.configByte (job.loaderPath settings) none).result = .ok ()) :
    FailsWith (permit job.configByte (job.loaderPath settings) (some resolved)).result code
      ↔ FailsAt world settings job .familyVouched code := by
  cases hpath : job.loaderPath settings with
  | none =>
      -- Without a loader the job was denied unless the EEPROM is left alone.
      have hconfig : job.configByte = none := by
        cases hconfig : job.configByte with
        | none => rfl
        | some config =>
            rw [hpath, hconfig] at hnamed
            cases hnamed
      rw [hconfig]
      constructor
      · rintro ⟨report, herror, -⟩
        cases herror
      · intro h
        cases h with
        | guessed hasked => exact absurd hconfig hasked
  | some path =>
      refine failsWith_mapError_iff.trans ⟨?_, ?_⟩
      · rintro ⟨fault, herror, rfl⟩
        obtain ⟨hconfig, hsource, rfl⟩ := checkEeprom_some_eq_error_iff.mp herror
        exact .guessed hconfig hfinds hsource
      · intro h
        cases h with
        | guessed hconfig hother hsource =>
            obtain rfl := Except.ok.inj (hfinds.unique hother)
            exact ⟨.noFamily, checkEeprom_some_eq_error_iff.mpr ⟨hconfig, hsource, rfl⟩, rfl⟩

/-- An interface that is not to be had is not to be had the second time. -/
theorem claim_eq_error_iff {device : Attached} {failure : Failure} :
    device.claim.result = .error failure
      ↔ device.claimFault ≠ none ∧
        ∃ fault, device.reclaimFault = some fault ∧ failure = .usb fault := by
  unfold Attached.claim
  cases device.claimFault with
  | none =>
      rw [Stage.result_bind, Stage.result_call, pure_bind]
      show Except.ok () = _ ↔ _
      simp
  | some fault =>
      simp only [Stage.result_bind, Stage.result_call, Stage.result_note, pure_bind]
      simpa using check_eq_error_iff

/-- A device that is there is not to be had if its descriptor cannot be read, or its interface
not be claimed. -/
theorem taken_eq_error_iff {device : Attached} {failure : Failure} :
    ((Usb.check device.openDescriptorFault).result >>= fun _ =>
        device.claim.result >>= fun _ => .ok device) = .error failure
      ↔ ∃ fault, failure = .usb fault ∧ (device.openDescriptorFault = some fault ∨
        device.openDescriptorFault = none ∧ device.claimFault ≠ none ∧
          device.reclaimFault = some fault) := by
  rw [bind_eq_error_iff, check_eq_error_iff]
  constructor
  · rintro (⟨fault, hdescriptor, rfl⟩ | ⟨_, hdescriptor, herror⟩)
    · exact ⟨fault, rfl, .inl hdescriptor⟩
    rcases bind_eq_error_iff.mp herror with hclaim | ⟨_, -, hnever⟩
    · obtain ⟨hfirst, fault, hsecond, rfl⟩ := claim_eq_error_iff.mp hclaim
      exact ⟨fault, rfl, .inr ⟨check_eq_ok_iff.mp hdescriptor, hfirst, hsecond⟩⟩
    · cases hnever
  · rintro ⟨fault, rfl, hdescriptor | ⟨hdescriptor, hfirst, hsecond⟩⟩
    · exact .inl ⟨fault, hdescriptor, rfl⟩
    · have hclaim := claim_eq_error_iff.mpr ⟨hfirst, fault, hsecond, rfl⟩
      exact .inr ⟨(), check_eq_ok_iff.mpr hdescriptor, bind_eq_error_iff.mpr (.inl hclaim)⟩

theorem result_open (bus : Bus) (id : Device.Id) :
    (bus.open id).result = (Usb.check bus.openStartFault).result >>= fun _ =>
      match bus.openable? id with
      | none => .error .notFound
      | some device => (Usb.check device.openDescriptorFault).result >>= fun _ =>
        device.claim.result >>= fun _ => .ok device := by
  simp only [Bus.open, Stage.result_bind, Stage.result_call, pure_bind]
  congr 1
  funext _
  cases bus.openable? id with
  | none => rfl
  | some device =>
      simp only [Stage.result_bind, Stage.result_onFailure, Stage.result_note, bind_assoc,
        pure_bind]
      rfl

theorem failsWith_open_iff {resolved : Resolved} (hfinds : Finds world settings job (.ok resolved))
    (context : String) :
    FailsWith ((world.bus.open resolved.id).mapError fun failure =>
        (Report.ofFailure failure).within context).result code
      ↔ FailsAt world settings job .deviceOpened code := by
  refine failsWith_mapError_iff.trans ?_
  simp only [Report.exitCode_within]
  rw [result_open]
  constructor
  · rintro ⟨failure, herror, rfl⟩
    rcases bind_eq_error_iff.mp herror with hstart | ⟨_, hstart, herror⟩
    · obtain ⟨fault, hfault, rfl⟩ := check_eq_error_iff.mp hstart
      exact .badStart hfinds (by simp [hfault])
    have hstart := check_eq_ok_iff.mp hstart
    cases hopenable : world.bus.openable? resolved.id with
    | none =>
        rw [hopenable] at herror
        obtain rfl := Except.error.inj herror
        exact .notThere hfinds hstart hopenable
    | some device =>
        rw [hopenable] at herror
        obtain ⟨fault, rfl, hfault⟩ := taken_eq_error_iff.mp herror
        refine .notTaken hfinds hstart hopenable (hfault.imp ?_ ?_)
        · intro hdescriptor
          simp [hdescriptor]
        · rintro ⟨-, hfirst, hsecond⟩
          exact ⟨hfirst, by simp [hsecond]⟩
  · intro h
    cases h with
    | badStart hother hstart =>
        obtain ⟨fault, hstart⟩ := Option.ne_none_iff_exists'.mp hstart
        have hcheck := check_eq_error_iff.mpr ⟨fault, hstart, rfl⟩
        exact ⟨.usb fault, bind_eq_error_iff.mpr (.inl hcheck), rfl⟩
    | notThere hother hstart hnone =>
        obtain rfl := Except.ok.inj (hfinds.unique hother)
        refine ⟨.notFound, bind_eq_error_iff.mpr (.inr ⟨(), check_eq_ok_iff.mpr hstart, ?_⟩), rfl⟩
        rw [hnone]
    | @notTaken _ device hother hstart hopenable hfault =>
        obtain rfl := Except.ok.inj (hfinds.unique hother)
        have htaken : ∃ fault, device.openDescriptorFault = some fault ∨
            device.openDescriptorFault = none ∧ device.claimFault ≠ none ∧
              device.reclaimFault = some fault := by
          cases hdescriptor : device.openDescriptorFault with
          | some fault => exact ⟨fault, .inl rfl⟩
          | none =>
              obtain ⟨hfirst, hsecond⟩ := hfault.resolve_left (absurd hdescriptor)
              obtain ⟨fault, hsecond⟩ := Option.ne_none_iff_exists'.mp hsecond
              exact ⟨fault, .inr ⟨rfl, hfirst, hsecond⟩⟩
        obtain ⟨fault, htaken⟩ := htaken
        refine ⟨.usb fault, bind_eq_error_iff.mpr (.inr ⟨(), check_eq_ok_iff.mpr hstart, ?_⟩), rfl⟩
        rw [hopenable]
        exact taken_eq_error_iff.mpr ⟨fault, rfl, htaken⟩

/-! ### The load -/

theorem plain_port (bus : Bus) (device : Attached) : (bus.port device).Plain := by
  intro write wire cause h
  unfold Bus.port Usb.replyTo at h
  simp only at h
  split at h
  · obtain rfl := Option.some.inj h
    rfl
  · split at h
    · obtain rfl := Option.some.inj h
      rfl
    · cases h

theorem load_plain {ready : Ready} {bus : Bus} {device : Attached} {failure : Failure}
    (h : (ready.load bus device).failure = some failure) :
    failure = .cancelled ∨ failure.Plain := by
  unfold Ready.load at h
  cases hloader : ready.loader with
  | none =>
      rw [hloader] at h
      exact Pass.run_plain (plain_port bus device) h
  | some loader =>
      rw [hloader] at h
      exact loadThrough_plain (plain_port bus device) h

theorem exitCode_reportOf {failure : Failure} (h : failure = .cancelled ∨ failure.Plain) :
    (reportOf failure).exitCode = if failure = .cancelled then 130 else 1 := by
  by_cases hcancelled : failure = .cancelled
  · rw [hcancelled]
    rfl
  · rw [if_neg hcancelled]
    unfold reportOf
    split
    · exact absurd rfl hcancelled
    · rw [Report.exitCode_within]
      exact h.resolve_left hcancelled

theorem failsWith_conclude_iff {ready : Ready} {device : Attached}
    (hready : (job.prepare world.files world.bus settings
      (world.environment deviceVariable)).result = .ok ready)
    (hopen : (world.bus.open ready.device.id).result = .ok device) :
    FailsWith (conclude (ready.load world.bus device)).result code
      ↔ FailsAt world settings job .loaded code := by
  constructor
  · rintro ⟨report, herror, rfl⟩
    unfold conclude at herror
    cases hfailure : (ready.load world.bus device).failure with
    | none =>
        rw [hfailure] at herror
        cases herror
    | some failure =>
        rw [hfailure] at herror
        obtain rfl := Except.error.inj herror
        rw [exitCode_reportOf (load_plain hfailure)]
        exact .notLoaded hready hopen hfailure
  · intro h
    cases h with
    | notLoaded hother hanother hfailure =>
        obtain rfl := Except.ok.inj (hready.symm.trans hother)
        obtain rfl := Except.ok.inj (hopen.symm.trans hanother)
        refine ⟨reportOf _, ?_, exitCode_reportOf (load_plain hfailure)⟩
        rw [conclude, hfailure]

end

end Job
end UsbBoot
