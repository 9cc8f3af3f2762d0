/-
What a load has to get past.

A load takes a number of hurdles, one after the other.  At each of them it may fail, with an
exit code that tells the caller what can be mended; the first one at which it fails decides.
What makes a load fail at a hurdle is said here of the files, the settings, the environment and
the bus as they are, and not of the course the program takes.  Only the last hurdle, the load
itself, is about what a device answers.
-/
import UsbBoot.Proofs.Job.Loading

namespace UsbBoot

open Device (Info Resolved Selector)
open Usb (Attached Bus)

namespace Job

/-! ### Hurdles -/

/-- What a load has to get past. -/
inductive Hurdle
  /-- Writing the EEPROM takes a loader. -/
  | loaderNamed
  | firmwareRead
  | loaderRead
  /-- The table of known devices has to be put together. -/
  | tableMade
  | familyNamed
  | deviceNamed
  /-- The attached devices have to be listed, unless a pair of numbers says which one is meant. -/
  | busListed
  | deviceFound
  /-- Writing the EEPROM takes a family that is no guess. -/
  | familyVouched
  | deviceOpened
  | loaded
  deriving DecidableEq, Repr

/-- The hurdles in the order in which they are taken. -/
def Hurdle.order : List Hurdle :=
  [.loaderNamed, .firmwareRead, .loaderRead, .tableMade, .familyNamed, .deviceNamed, .busListed,
    .deviceFound, .familyVouched, .deviceOpened, .loaded]

/-- The devices among which one is looked for: none if a pair of numbers was named. -/
def offered (bus : Bus) (selector : Selector) : List Info :=
  if selector.id.isSome then [] else bus.devices.filterMap Attached.info?

section

variable (world : World) (settings : Settings) (job : Job)

/-- What looking for the device of a job comes to. -/
def Finds (found : Except Failure Resolved) : Prop :=
  ∃ table selector, settings.table = .ok table ∧
    job.selector settings (world.environment deviceVariable) = .ok selector ∧
    Device.resolve table selector (offered world.bus selector) = found

/-- A load fails at a hurdle, with an exit code. -/
inductive FailsAt : Hurdle → Nat → Prop
  | noLoader (hconfig : job.configByte ≠ none) (hjob : job.loader = none)
    (hsettings : settings.loader = none) : FailsAt .loaderNamed 2
  | badFirmware (hread : (world.files job.firmware).HoldsNone) : FailsAt .firmwareRead 1
  /-- The loader's file is that of the job, or else that of the settings. -/
  | badLoader {path : String}
    (hpath : job.loader = some path ∨ job.loader = none ∧ settings.loader = some path)
    (hread : (world.files path).HoldsNone) : FailsAt .loaderRead 1
  | badEntry {entry : Settings.Entry} (hmem : entry ∈ settings.known)
    (htype : Chip.Family.ofName? entry.type = none) : FailsAt .tableMade 3
  /-- The settings name an unknown family, and the job names none. -/
  | badFamily {name : String} (hjob : job.family = none) (hset : settings.type = some name)
    (hname : Chip.Family.ofName? name = none) : FailsAt .familyNamed 3
  /-- The environment names the device by what is no pair, and the job does not name it. -/
  | badVariable {text : String} {fault : Device.Id.Fault} (hjob : job.device = none)
    (hvariable : world.environment deviceVariable = some text)
    (hread : Device.Id.read text = .error fault) : FailsAt .deviceNamed 2
  /-- The settings name the device by what is no pair, and nothing else names it. -/
  | badDevice {text : String} {fault : Device.Id.Fault} (hjob : job.device = none)
    (hvariable : world.environment deviceVariable = none) (hset : settings.device = some text)
    (hread : Device.Id.read text = .error fault) : FailsAt .deviceNamed 3
  | badBus (hjob : job.device = none) (hvariable : world.environment deviceVariable = none)
    (hset : settings.device = none)
    (hfault : world.bus.startFault ≠ none ∨ world.bus.listFault ≠ none) : FailsAt .busListed 1
  /-- No device fits, or more than one does. -/
  | noDevice {failure : Failure} (hfinds : Finds world settings job (.error failure)) :
    FailsAt .deviceFound 4
  | guessed {resolved : Resolved} (hconfig : job.configByte ≠ none)
    (hfinds : Finds world settings job (.ok resolved)) (hsource : resolved.source = .fallback) :
    FailsAt .familyVouched 2
  | badStart {resolved : Resolved} (hfinds : Finds world settings job (.ok resolved))
    (hstart : world.bus.openStartFault ≠ none) : FailsAt .deviceOpened 1
  | notThere {resolved : Resolved} (hfinds : Finds world settings job (.ok resolved))
    (hstart : world.bus.openStartFault = none)
    (hnone : world.bus.openable? resolved.id = none) : FailsAt .deviceOpened 4
  /-- The descriptor of the device cannot be read, or its interface not be claimed. -/
  | notTaken {resolved : Resolved} {device : Attached}
    (hfinds : Finds world settings job (.ok resolved))
    (hstart : world.bus.openStartFault = none)
    (hopenable : world.bus.openable? resolved.id = some device)
    (hfault : device.openDescriptorFault ≠ none ∨
      device.claimFault ≠ none ∧ device.reclaimFault ≠ none) : FailsAt .deviceOpened 1
  | notLoaded {ready : Ready} {device : Attached} {failure : Failure}
    (hready : (job.prepare world.files world.bus settings
      (world.environment deviceVariable)).result = .ok ready)
    (hopen : (world.bus.open ready.device.id).result = .ok device)
    (hfailure : (ready.load world.bus device).failure = some failure) :
    FailsAt .loaded (if failure = .cancelled then 130 else 1)

end

/-- Of some hurdles, the first one at which a load fails gives this exit code. -/
inductive FirstFails (fails : Hurdle → Nat → Prop) : List Hurdle → Nat → Prop
  | here {hurdle : Hurdle} {rest : List Hurdle} {code : Nat} (h : fails hurdle code) :
    FirstFails fails (hurdle :: rest) code
  | later {hurdle : Hurdle} {rest : List Hurdle} {code : Nat} (h : ∀ other, ¬fails hurdle other)
    (hrest : FirstFails fails rest code) : FirstFails fails (hurdle :: rest) code

/-! ### Results decided by hurdles -/

variable {fails : Hurdle → Nat → Prop} {α β : Type}

/-- A result is an error that calls for this exit code. -/
def FailsWith (result : Except Report α) (code : Nat) : Prop :=
  ∃ report, result = .error report ∧ report.exitCode = code

/-- A result is an error by the first hurdle that fails, or none of the hurdles fails. -/
def DecidedBy (fails : Hurdle → Nat → Prop) (hurdles : List Hurdle) :
    Except Report α → Prop
  | .ok _ => ∀ hurdle ∈ hurdles, ∀ code, ¬fails hurdle code
  | .error report => FirstFails fails hurdles report.exitCode

theorem FirstFails.front {first : List Hurdle} {code : Nat} (h : FirstFails fails first code)
    (second : List Hurdle) : FirstFails fails (first ++ second) code := by
  induction h with
  | here h => exact .here h
  | later h _ ih => exact .later h ih

theorem FirstFails.behind {first second : List Hurdle} {code : Nat}
    (hfirst : ∀ hurdle ∈ first, ∀ other, ¬fails hurdle other)
    (h : FirstFails fails second code) : FirstFails fails (first ++ second) code := by
  induction first with
  | nil => exact h
  | cons hurdle rest ih =>
      obtain ⟨hhurdle, hrest⟩ := List.forall_mem_cons.mp hfirst
      exact .later hhurdle (ih hrest)

theorem FirstFails.unique {hurdles : List Hurdle} {code code' : Nat}
    (hunique : ∀ hurdle code code', fails hurdle code → fails hurdle code' → code = code')
    (h : FirstFails fails hurdles code) (h' : FirstFails fails hurdles code') : code = code' := by
  induction h with
  | here h =>
      cases h' with
      | here h' => exact hunique _ _ _ h h'
      | later hnone => exact absurd h (hnone _)
  | later hnone _ ih =>
      cases h' with
      | here h' => exact absurd h' (hnone _)
      | later _ hrest => exact ih hrest

theorem FirstFails.exists {hurdles : List Hurdle} {code : Nat} (h : FirstFails fails hurdles code) :
    ∃ hurdle ∈ hurdles, fails hurdle code := by
  induction h with
  | here h => exact ⟨_, List.mem_cons_self, h⟩
  | later _ _ ih =>
      obtain ⟨hurdle, hmem, h⟩ := ih
      exact ⟨hurdle, List.mem_cons_of_mem _ hmem, h⟩

theorem decidedBy_ok (fails : Hurdle → Nat → Prop) (value : α) :
    DecidedBy fails [] (.ok value : Except Report α) :=
  nofun

/-- A result that fails just as one hurdle does. -/
theorem decidedBy_single {hurdle : Hurdle} {result : Except Report α}
    (h : ∀ code, FailsWith result code ↔ fails hurdle code) :
    DecidedBy fails [hurdle] result := by
  cases result with
  | error report => exact .here ((h _).mp ⟨report, rfl, rfl⟩)
  | ok value =>
      refine List.forall_mem_singleton.mpr fun code hfails => ?_
      obtain ⟨report, herror, -⟩ := (h code).mpr hfails
      cases herror

/-- A result decided by hurdles, with more of them behind it. -/
theorem DecidedBy.append {first second : List Hurdle} {result : Except Report α}
    {next : α → Except Report β} (hresult : DecidedBy fails first result)
    (hnext : ∀ value, result = .ok value → DecidedBy fails second (next value)) :
    DecidedBy fails (first ++ second) (result >>= next) := by
  cases result with
  | error report => exact FirstFails.front hresult second
  | ok value =>
      have hrest := hnext value rfl
      show DecidedBy fails (first ++ second) (next value)
      cases hvalue : next value with
      | error report =>
          rw [hvalue] at hrest
          exact FirstFails.behind hresult hrest
      | ok last =>
          rw [hvalue] at hrest
          exact List.forall_mem_append.mpr ⟨hresult, hrest⟩

/-- A result that fails just as one hurdle does, with what follows it. -/
theorem DecidedBy.step {hurdle : Hurdle} {rest : List Hurdle} {result : Except Report α}
    {next : α → Except Report β} (hresult : ∀ code, FailsWith result code ↔ fails hurdle code)
    (hnext : ∀ value, result = .ok value → DecidedBy fails rest (next value)) :
    DecidedBy fails (hurdle :: rest) (result >>= next) :=
  (decidedBy_single hresult).append hnext

/-- A sequence fails as its first part does, or as what follows it. -/
theorem failsWith_bind_iff {result : Except Report α} {next : α → Except Report β}
    {code : Nat} :
    FailsWith (result >>= next) code
      ↔ FailsWith result code ∨ ∃ value, result = .ok value ∧ FailsWith (next value) code := by
  cases result <;> simp [FailsWith, bind, Except.bind]

theorem failsWith_mapError_iff {ε : Type} {result : Except ε α} {change : ε → Report}
    {code : Nat} :
    FailsWith (result.mapError change) code
      ↔ ∃ error, result = .error error ∧ (change error).exitCode = code := by
  cases result with
  | ok value =>
      constructor
      · rintro ⟨report, herror, -⟩
        cases herror
      · rintro ⟨error, herror, -⟩
        cases herror
  | error error =>
      constructor
      · rintro ⟨report, herror, hcode⟩
        obtain rfl := Except.error.inj herror
        exact ⟨error, rfl, hcode⟩
      · rintro ⟨other, herror, hcode⟩
        obtain rfl := Except.error.inj herror
        exact ⟨_, rfl, hcode⟩

end Job
end UsbBoot
