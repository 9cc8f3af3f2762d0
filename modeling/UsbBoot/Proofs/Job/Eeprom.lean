/-
What stands behind a write to the EEPROM.

Of all that a run does only a load job writes to a device, and of a job only its load.  So a
write is traced back: to an event of the load, through the opening of the device and the
preparation of the job, to what the user asked for.  A load writes the EEPROM only in the
second of two passes, which there are only with a loader, and only if a config byte was asked
for; then the job was permitted with a family that is not the fallback.
-/
import UsbBoot.Proofs.Job.Prepared
import UsbBoot.Proofs.Load.InTurn

namespace UsbBoot

open Pass (attempts onChipAttempts)

/-- The numbers of requests tell them apart. -/
theorem Request.code_injective {one other : Request} (h : one.code = other.code) :
    one = other := by
  cases one <;> cases other <;> first | rfl | cases h

/-! ### The load -/

namespace Pass

/-- A pass to RAM does not write the EEPROM. -/
theorem request_of_ram {σ : Type} (port : Port σ) (target : Target) (pass : String) {plan : Plan}
    (engine : Engine) (state : σ) (hram : plan.destination = .ram) :
    ∀ attempt ∈ attempts (run port target pass plan engine state).events,
      attempt.write.request ≠ .eeprom := by
  intro attempt hmem
  cases hobstacle : plan.obstacle? target.profile with
  | some cause =>
      rw [run_refused port target pass engine state hobstacle] at hmem
      cases hmem
  | none =>
      rcases write_of_mem_attempts port target pass engine state hobstacle attempt hmem with
        hrelease | hsent
      · simp [hrelease, releaseWrite]
      · rw [script_of_ram target.profile target.identity hram, sends_ramScript, List.mem_append,
          List.mem_append, List.mem_singleton] at hsent
        rcases hsent with (hexternal | hhold) | honChip
        · obtain ⟨chunk, -, hwrite⟩ := mem_chunkWrites hexternal
          simp [hwrite, Chunk.write]
        · simp [hhold, holdWrite]
        · obtain ⟨chunk, -, hwrite⟩ := mem_chunkWrites honChip
          simp [hwrite, Chunk.write]

end Pass

namespace Job

open Usb (Attached Bus Transfer)

/-- A transfer that is seen of an event is all that is seen of it, and makes its write. -/
theorem wrote_of_effectsOf {event : Pass.Event} {before after : List Effect}
    {transfer : Transfer}
    (h : effectsOf event = before ++ .call (.transfer transfer) :: after) :
    before = [] ∧ ∃ write failure, event = .wrote write failure ∧ transfer = .of write := by
  have hmem : .call (.transfer transfer) ∈ effectsOf event :=
    h ▸ List.mem_append_right before List.mem_cons_self
  cases event with
  | wrote write failure =>
      have hlength := congrArg List.length h
      rw [effectsOf, List.length_append, List.length_cons, List.length_cons, List.length_nil]
        at hlength
      have hfirst : before = [] := List.length_eq_zero_iff.mp (by omega)
      exact ⟨hfirst, write, failure, rfl, by simpa [effectsOf] using hmem⟩
  | note => simp [effectsOf] at hmem
  | asked | progress => cases hmem

/-- A transfer that is seen of some events makes the write of one of them. -/
theorem split_effectsOf {events : List Pass.Event} {before after : List Effect}
    {transfer : Transfer}
    (h : events.flatMap effectsOf = before ++ .call (.transfer transfer) :: after) :
    ∃ earlier write failure later, events = earlier ++ .wrote write failure :: later ∧
      transfer = .of write ∧ before = earlier.flatMap effectsOf := by
  induction events generalizing before with
  | nil => cases before <;> cases h
  | cons event rest ih =>
      rw [List.flatMap_cons] at h
      rcases Pass.split_append h with ⟨middle, hfirst⟩ | ⟨more, hbefore, hrest⟩
      · obtain ⟨rfl, write, failure, rfl, hmakes⟩ := wrote_of_effectsOf hfirst
        exact ⟨[], write, failure, rest, rfl, hmakes, rfl⟩
      · obtain ⟨earlier, write, failure, later, rfl, hmakes, rfl⟩ := ih hrest
        exact ⟨event :: earlier, write, failure, later, rfl, hmakes,
          by rw [hbefore, List.flatMap_cons]⟩

theorem transfers_effectsOf (events : List Pass.Event) :
    (events.flatMap effectsOf).filterMap Effect.transfer? = (Pass.writes events).map .of := by
  induction events with
  | nil => rfl
  | cons event rest ih =>
      rw [List.flatMap_cons, List.filterMap_append, ih]
      cases event <;> rfl

/-- Of a load only what its passes say and write is seen. -/
theorem said_or_written (events : List Pass.Event) :
    ∀ effect ∈ events.flatMap effectsOf,
      (∃ line, effect = .log line) ∨ ∃ transfer, effect = .call (.transfer transfer) := by
  intro effect hmem
  obtain ⟨event, -, heffect⟩ := List.mem_flatMap.mp hmem
  cases event with
  | note line => exact Or.inl ⟨line, List.mem_singleton.mp heffect⟩
  | wrote write => exact Or.inr ⟨.of write, List.mem_singleton.mp heffect⟩
  | asked | progress => cases heffect

/-- A load writes the EEPROM only if a config byte was asked for and there is a loader, and
only behind the loader's pass, which went well. -/
theorem Ready.load_eeprom {ready : Ready} {bus : Bus} {device : Attached}
    {earlier later : List Pass.Event} {write : ControlWrite} {failure : Option Failure}
    (hsplit : (ready.load bus device).events = earlier ++ .wrote write failure :: later)
    (hrequest : write.request = .eeprom) :
    ∃ config loader, ready.configByte = some config ∧ ready.loader = some loader ∧
      loader.onChipPlan.obstacle? ready.device.family.profile = none ∧
      (Pass.Plan.eeprom ready.firmware.segments (some config)).obstacle?
        ready.device.family.profile = none ∧
      let loaded := Pass.run (bus.port device) (ready.target device) "loader" loader.onChipPlan
        .fresh .fresh
      loaded.failure = none ∧ ∃ more, attempts earlier = attempts loaded.events ++ more := by
  have hattempts : attempts (ready.load bus device).events
      = attempts earlier ++ ⟨write, failure⟩ :: attempts later := by
    rw [hsplit, Pass.attempts_append, Pass.attempts_wrote]
  cases hloader : ready.loader with
  | none =>
      have hmem : ⟨write, failure⟩ ∈ attempts (ready.load bus device).events :=
        hattempts ▸ List.mem_append_right _ List.mem_cons_self
      simp only [load, hloader] at hmem
      exact absurd hrequest (Pass.request_of_ram (bus.port device) (ready.target device) "firmware"
        .fresh .fresh rfl _ hmem)
  | some loader =>
      simp only [load, hloader] at hattempts
      obtain ⟨hfirst, hsecond, hloaded, more, hbefore, hplaced⟩ :=
        loadThrough_behind _ _ _ _ _ _ _ _ hattempts (by simp [hrequest])
      cases hconfig : ready.configByte with
      | none =>
          rw [show ready.destination = .ram by simp [destination, hconfig]] at hplaced
          have hmem : ⟨write, failure⟩ ∈ more ++ ⟨write, failure⟩ :: attempts later :=
            List.mem_append_right more List.mem_cons_self
          rw [← hplaced] at hmem
          exact absurd hrequest (Pass.request_of_ram (bus.port device) (ready.target device)
            "firmware" _ _ rfl _ hmem)
      | some config =>
          rw [show ready.destination = .eeprom by simp [destination, hconfig], hconfig] at hsecond
          exact ⟨config, loader, rfl, rfl, hfirst, hsecond, hloaded, more, hbefore⟩

/-! ### The job -/

theorem still_unlessQuiet (quiet : Bool) (line : String) : (unlessQuiet quiet line).Still :=
  Stage.still_tell _

/-- What a ready job writes, its load writes to the device that was opened for it. -/
theorem Ready.split_perform {ready : Ready} {bus : Bus} {quiet : Bool}
    {before after : List Effect} {transfer : Transfer}
    (h : (ready.perform bus quiet).effects = before ++ .call (.transfer transfer) :: after) :
    ∃ device front earlier write failure later,
      bus.openable? ready.device.id = some device ∧ transfer = .of write ∧
      before = front ++ earlier.flatMap effectsOf ∧ (∀ effect ∈ front, effect.transfer? = none) ∧
      .call (.open ready.device.id) ∈ front ∧
      (ready.load bus device).events = earlier ++ .wrote write failure :: later := by
  have htransfer : (Effect.call (.transfer transfer)).transfer? = some transfer := rfl
  have hopen := (still_open bus ready.device.id).mapError fun failure =>
    (Report.ofFailure failure).within ("Failed to open device " ++ ready.device.id.lower)
  obtain ⟨device, used, hdevice, rfl, hused⟩ := hopen.split_bind htransfer h
  obtain ⟨hopenable, hopened⟩ := opened_of_open (mapError_eq_ok_iff.mp hdevice)
  -- Closing the device writes nothing to it, and neither does what the user is told.
  rcases Pass.split_append hused with ⟨middle, hloaded⟩ | ⟨closing, -, hclosing⟩
  · obtain ⟨_, shown, -, rfl, hshown⟩ :=
      (still_unlessQuiet quiet ready.opening).split_bind htransfer hloaded
    obtain ⟨rest, hrun⟩ := Stage.split_of_still htransfer hshown fun _ => still_unlessQuiet _ _
    obtain ⟨earlier, write, failure, later, hevents, hmakes, rfl⟩ := split_effectsOf hrun
    refine ⟨device, _, earlier, write, failure, later, hopenable, hmakes,
      (List.append_assoc ..).symm, ?_, List.mem_append_left _ hopened, hevents⟩
    exact List.forall_mem_append.mpr ⟨hopen, still_unlessQuiet _ _⟩
  · have hnone := still_closing device _ (hclosing ▸ List.mem_append_right _ List.mem_cons_self)
    rw [htransfer] at hnone
    cases hnone

end Job

/-! ### The run -/

namespace Program

theorem still_answer (data : Json.Value) : (answer data).Still :=
  Stage.still_print _

theorem still_showImage (files : String → Lookup) (path : String) (format : ImageFormat) :
    (showImage files path format).Still := by
  refine (Job.still_load files path).bind fun image => ?_
  cases format with
  | summary => exact Stage.still_tell _
  | json => exact still_answer _
  | ihex => exact Stage.still_print _

theorem still_listDevices (bus : Usb.Bus) (settings : Settings) (json knownOnly : Bool) :
    (listDevices bus settings json knownOnly).Still := by
  refine (Stage.still_note _).bind fun _ => (Stage.still_ofExcept _).bind fun _ =>
    ((Job.still_list bus).mapError _).bind fun _ => ?_
  cases json with
  | true => exact still_answer _
  | false =>
      exact (Stage.still_tell _).bind fun _ => (Stage.still_note _).bind fun _ =>
        Stage.still_tell _

theorem still_complete (environment : String → Option String) (named : Option Shell) :
    (complete environment named).Still := by
  rw [complete]
  cases shellFor environment named with
  | none => exact Stage.still_of_none rfl
  | some shell => exact Stage.still_print _

/-- What a run writes, a job writes that was asked for and is ready. -/
theorem split_run {world : World} {options : Options} {before after : List Effect}
    {transfer : Usb.Transfer}
    (h : (run world options).effects = before ++ .call (.transfer transfer) :: after) :
    ∃ job settings ready front later, options.command = .load job ∧
      (Settings.gather world.files (userSettings? world.environment) options.settings
        : Stage Report Settings).result = .ok settings ∧
      job.Prepared world.files settings (world.environment Job.deviceVariable) ready ∧
      before = front ++ later ∧ (∀ effect ∈ front, effect.transfer? = none) ∧
      (ready.perform world.bus options.quiet).effects
        = later ++ .call (.transfer transfer) :: after := by
  have htransfer : (Effect.call (.transfer transfer)).transfer? = some transfer := rfl
  have hgather : (Settings.gather world.files (userSettings? world.environment) options.settings
      : Stage Report Settings).Still := by
    obtain ⟨settings, hlogs⟩ := @Settings.gather_onlyLogs Report world.files
      (userSettings? world.environment) options.settings
    exact hlogs.still
  obtain ⟨_, begun, -, rfl, hbegun⟩ := (Stage.still_note _).split_bind htransfer h
  obtain ⟨settings, asked, hsettings, rfl, hasked⟩ := hgather.split_bind htransfer hbegun
  have hmem : .call (.transfer transfer) ∈ (perform world settings options).effects :=
    hasked ▸ List.mem_append_right asked List.mem_cons_self
  rw [perform] at hasked hmem
  cases hcommand : options.command with
  | info firmware format =>
      rw [hcommand] at hmem
      exact absurd hmem ((still_showImage world.files firmware format).not_mem htransfer)
  | listDevices json known =>
      rw [hcommand] at hmem
      exact absurd hmem ((still_listDevices world.bus settings json known).not_mem htransfer)
  | completions shell =>
      rw [hcommand] at hmem
      exact absurd hmem ((still_complete world.environment shell).not_mem htransfer)
  | load job =>
      rw [hcommand] at hasked
      have hprepare := Job.still_prepare world.files world.bus settings
        (world.environment Job.deviceVariable) job
      obtain ⟨ready, later, hready, rfl, hlater⟩ := hprepare.split_bind htransfer hasked
      have hfront := List.forall_mem_append.mpr ⟨@Stage.still_note Report [greeting options],
        List.forall_mem_append.mpr ⟨hgather, hprepare⟩⟩
      exact ⟨job, settings, ready, _, later, rfl, hsettings, Job.prepared_of_prepare hready,
        by simp only [List.append_assoc], hfront, hlater⟩

end Program

/-! ### What it takes -/

/-- All that it takes to write the EEPROM of a device. -/
structure EepromRequest (world : World) (options : Options) where
  job : Job
  settings : Settings
  config : UInt8
  /-- Where the loader's file is. -/
  path : String
  loader : Image
  firmware : Image
  resolved : Device.Resolved
  device : Usb.Attached
  asked : options.command = .load job
  gathered : (Settings.gather world.files (Program.userSettings? world.environment)
    options.settings : Stage Report Settings).result = .ok settings
  /-- A config byte was given. -/
  configByte : job.configByte = some config
  /-- The loader came from the job or from the settings. -/
  loaderPath : job.loader = some path ∨ job.loader = none ∧ settings.loader = some path
  loaderRead : (world.files path).Holds loader
  firmwareRead : (world.files job.firmware).Holds firmware
  loaderAllowed : loader.onChipPlan.obstacle? resolved.family.profile = none
  firmwareAllowed : (Pass.Plan.eeprom firmware.segments (some config)).obstacle?
    resolved.family.profile = none
  /-- The device and its family were chosen as the job, the environment and the settings ask. -/
  chosen : ∃ table selector devices, settings.table = .ok table ∧
    job.selector settings (world.environment Job.deviceVariable) = .ok selector ∧
    Device.resolve table selector devices = .ok resolved
  /-- The family is no guess. -/
  source : resolved.source ≠ .fallback
  vouched : job.Vouched settings resolved
  opened : world.bus.openable? resolved.id = some device

/-- The pass that puts the loader on the device. -/
def EepromRequest.loaderRun {world : World} {options : Options}
    (request : EepromRequest world options) : Pass.Run Usb.Wire :=
  Pass.run (world.bus.port request.device)
    ⟨request.resolved.family.profile, request.device.info.identity⟩ "loader"
    request.loader.onChipPlan .fresh .fresh

/-- A job that is ready to write the EEPROM of a device that can be opened, and to do so through
a loader, is a complete request. -/
theorem Job.Prepared.eepromRequest {world : World} {options : Options} {job : Job}
    {settings : Settings} {ready : Job.Ready} {device : Usb.Attached} {config : UInt8}
    {loader : Image}
    (h : job.Prepared world.files settings (world.environment Job.deviceVariable) ready)
    (hcommand : options.command = .load job)
    (hgathered : (Settings.gather world.files (Program.userSettings? world.environment)
      options.settings : Stage Report Settings).result = .ok settings)
    (hopened : world.bus.openable? ready.device.id = some device)
    (hconfig : ready.configByte = some config) (hloader : ready.loader = some loader)
    (hfirst : loader.onChipPlan.obstacle? ready.device.family.profile = none)
    (hsecond : (Pass.Plan.eeprom ready.firmware.segments (some config)).obstacle?
      ready.device.family.profile = none) :
    ∃ request : EepromRequest world options, request.loader = loader ∧
      request.resolved = ready.device ∧ request.device = device := by
  have hasked : job.configByte = some config := h.configByte.symm.trans hconfig
  obtain ⟨path, hpath, hread⟩ := h.loader loader hloader
  have hsource : ready.device.source ≠ .fallback := by
    have hpermitted := h.permitted
    rw [hasked, hpath, Job.checkEeprom] at hpermitted
    split at hpermitted
    · cases hpermitted
    · assumption
  obtain ⟨table, selector, devices, htable, hselector, hresolve⟩ := h.device
  exact ⟨{
    job, settings, config, path, loader, device
    firmware := ready.firmware
    resolved := ready.device
    asked := hcommand
    gathered := hgathered
    configByte := hasked
    loaderPath := Job.loaderPath_eq_some_iff.mp hpath
    loaderRead := hread
    firmwareRead := h.firmware
    loaderAllowed := hfirst
    firmwareAllowed := hsecond
    chosen := h.device
    source := hsource
    vouched := Job.vouched_of_resolve htable hselector hresolve hsource
    opened := hopened }, rfl, rfl, rfl⟩

namespace Program

/-- The transfers that are part of some effects. -/
def transfers (effects : List Effect) : List Usb.Transfer :=
  effects.filterMap Effect.transfer?

theorem transfers_eq_nil_iff {effects : List Effect} :
    transfers effects = [] ↔ ∀ effect ∈ effects, effect.transfer? = none :=
  List.filterMap_eq_nil_iff

/-- What stands behind a transfer that writes the EEPROM. -/
theorem eepromRequest_of_run {world : World} {options : Options} {before after : List Effect}
    {transfer : Usb.Transfer}
    (h : (run world options).effects = before ++ .call (.transfer transfer) :: after)
    (hrequest : transfer.request = Request.eeprom.code) :
    ∃ request : EepromRequest world options, request.loaderRun.failure = none ∧
      ∃ front during more, before = front ++ during ∧
        transfers front = [] ∧ .call (.open request.resolved.id) ∈ front ∧
        (∀ effect ∈ during, (∃ line, effect = .log line) ∨
          ∃ other, effect = .call (.transfer other)) ∧
        transfers during = (Pass.writes request.loaderRun.events).map .of ++ more := by
  obtain ⟨job, settings, ready, front, later, hcommand, hgathered, hprepared, rfl, hfront,
    hready⟩ := split_run h
  obtain ⟨device, opening, earlier, write, failure, rest, hopened, rfl, rfl, hopening, hopen,
    hload⟩ := Job.Ready.split_perform hready
  obtain ⟨config, loader, hconfig, hloader, hfirst, hsecond, hwell, more, hbefore⟩ :=
    Job.Ready.load_eeprom hload (Request.code_injective hrequest)
  obtain ⟨request, rfl, hresolved, rfl⟩ := hprepared.eepromRequest hcommand hgathered hopened
    hconfig hloader hfirst hsecond
  have hloaderRun : request.loaderRun = Pass.run (world.bus.port request.device)
      (ready.target request.device) "loader" request.loader.onChipPlan .fresh .fresh := by
    rw [EepromRequest.loaderRun, hresolved]
    rfl
  refine ⟨request, hloaderRun ▸ hwell, front ++ opening, _,
    (more.map Pass.Attempt.write).map .of, (List.append_assoc ..).symm, ?_, ?_,
    Job.said_or_written earlier, ?_⟩
  · exact transfers_eq_nil_iff.mpr (List.forall_mem_append.mpr ⟨hfront, hopening⟩)
  · rw [hresolved]
    exact List.mem_append_right front hopen
  · rw [transfers, Job.transfers_effectsOf, Pass.writes, hbefore, List.map_append,
      List.map_append, hloaderRun, Pass.writes]

/--
**The EEPROM is written only on a complete request, and only behind all of the loader.**

Whatever the options, the files, the environment, the devices and the outcome of any transfer:
if a run writes the EEPROM, there is a complete request for it, and all of the loader was put
on the same device before, without a failure.  Between the opening of that device and the write
nothing is done but to write to the device.  In particular no run writes the EEPROM without a
config byte.
-/
theorem run_guards_eeprom (world : World) (options : Options) :
    (∀ before transfer after,
      (run world options).effects = before ++ .call (.transfer transfer) :: after →
      transfer.request = Request.eeprom.code →
      ∃ request : EepromRequest world options,
        request.loaderRun.failure = none ∧
        (∃ release, (∀ cause, release = some cause → cause.isDisconnect = true) ∧
          attempts request.loaderRun.events
            = onChipAttempts request.resolved.family.profile request.loader.onChipPlan release) ∧
        ∃ front during more, before = front ++ during ∧
          transfers front = [] ∧ .call (.open request.resolved.id) ∈ front ∧
          (∀ effect ∈ during, (∃ line, effect = .log line) ∨
            ∃ other, effect = .call (.transfer other)) ∧
          transfers during = (Pass.writes request.loaderRun.events).map .of ++ more) ∧
    ∀ job, options.command = .load job → job.configByte = none →
      ∀ transfer, .call (.transfer transfer) ∈ (run world options).effects →
        transfer.request ≠ Request.eeprom.code := by
  constructor
  · intro before transfer after hsplit hrequest
    obtain ⟨request, hwell, hbefore⟩ := eepromRequest_of_run hsplit hrequest
    exact ⟨request, hwell, Pass.attempts_of_onChip _ _ _ _ _ _ rfl rfl request.loaderAllowed hwell,
      hbefore⟩
  · intro job hcommand hnone transfer hmem hrequest
    obtain ⟨before, after, hsplit⟩ := List.append_of_mem hmem
    obtain ⟨request, -⟩ := eepromRequest_of_run hsplit hrequest
    obtain rfl : request.job = job := Command.load.inj (request.asked.symm.trans hcommand)
    cases hnone.symm.trans request.configByte

/-- A world with a loader, some firmware and one device that is in the table. -/
def benchWorld : World where
  files path :=
    if path = "loader.hex" then .found (Text.encode ":020000000200FC\n:00000001FF".toList)
    else if path = "firmware.hex" then .found (Text.encode ":03000000021234B5\n:00000001FF".toList)
    else .absent Files.nothingThere
  environment _ := none
  bus := { Usb.Bus.empty with
    devices := [⟨1, 4, ⟨0x04B4, 0x8613⟩, 0xA001, none, none, none, none, none, none, none⟩] }

/-- Loading that firmware through that loader. -/
def benchOptions (config : Option UInt8) : Options :=
  ⟨0, true, none, .load ⟨"firmware.hex", some "loader.hex", config, none, none⟩⟩

theorem run_guards_eeprom_bench :
    let noBoot : Usb.Transfer := ⟨0x40, 0xA2, 0, 0, [0x00], 1000⟩
    .call (.transfer noBoot) ∈ (run benchWorld (benchOptions (some 1))).effects ∧
      (∃ request : EepromRequest benchWorld (benchOptions (some 1)),
        request.config = 1 ∧ request.path = "loader.hex" ∧
          request.loaderRun.failure = none) ∧
      ∀ transfer, .call (.transfer transfer) ∈ (run benchWorld (benchOptions none)).effects →
        transfer.request ≠ 0xA2 := by
  intro noBoot
  have hmem : .call (.transfer noBoot) ∈ (run benchWorld (benchOptions (some 1))).effects := by
    decide +kernel
  obtain ⟨hguarded, -⟩ := run_guards_eeprom benchWorld (benchOptions (some 1))
  obtain ⟨-, hunasked⟩ := run_guards_eeprom benchWorld (benchOptions none)
  obtain ⟨before, after, hsplit⟩ := List.append_of_mem hmem
  obtain ⟨request, hwell, -⟩ := hguarded before noBoot after hsplit rfl
  have hjob := Command.load.inj request.asked
  refine ⟨hmem, ⟨request, ?_, ?_, hwell⟩, hunasked _ rfl rfl⟩
  · have hconfig := request.configByte
    rw [← hjob] at hconfig
    exact (Option.some.inj hconfig).symm
  · have hpath := request.loaderPath
    rw [← hjob] at hpath
    rcases hpath with hpath | ⟨hnone, -⟩
    · exact (Option.some.inj hpath).symm
    · cases hnone

end Program
end UsbBoot
