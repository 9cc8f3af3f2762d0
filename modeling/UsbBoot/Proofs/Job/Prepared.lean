/-
What is settled before a device is opened.

A job that is ready was permitted twice, its files hold the images it is to load, and a device
was chosen for it.  If its family is not the fallback, somebody vouches for it: the caller, the
settings, or the table of known devices.  Nothing is written to a device meanwhile, and nothing
either while one is opened or closed.
-/
import UsbBoot.Proofs.Device.Table
import UsbBoot.Proofs.Stage

namespace UsbBoot

open Device (Resolved Selector Table)

namespace Device

/-- The family of a device that was found is the one asked for, or the one in the table; it is
the fallback only where it is marked as such. -/
theorem resolve_vouched {table : Table} {selector : Selector} {devices : List Info}
    {resolved : Resolved} (h : resolve table selector devices = .ok resolved)
    (hsource : resolved.source ≠ .fallback) :
    selector.family = some resolved.family ∨
      selector.family = none ∧ ∃ known, table.lookup resolved.id = some known ∧
        known.family = resolved.family := by
  rw [resolve] at h
  split at h
  · rename_i family id hfamily hid
    cases h
    exact Or.inl hfamily
  · rename_i id hfamily hid
    refine Or.inr ⟨hfamily, ?_⟩
    obtain rfl := Except.ok.inj h
    rw [resolveId] at hsource ⊢
    cases hknown : table.lookup id with
    | some known => exact ⟨known, hknown, rfl⟩
    | none =>
        rw [hknown] at hsource
        exact absurd rfl hsource
  · rename_i family hfamily hid
    split at h
    · cases h
    · cases h
      exact Or.inl hfamily
    · cases h
  · rename_i hfamily hid
    split at h
    · cases h
    · rename_i known hknown
      cases h
      obtain ⟨info, -, hlookup⟩ := List.exists_of_findSome?_eq_some hknown
      have hid := Table.id_of_lookup hlookup
      exact Or.inr ⟨hfamily, known, by rw [← hlookup]; simp [hid], rfl⟩

end Device

/-! ### Images in files -/

namespace Lookup

/-- A file that is there and whose bytes make an image. -/
def Holds (lookup : Lookup) (image : Image) : Prop :=
  ∃ bytes, lookup = .found bytes ∧ Image.read ⟨bytes, .complete⟩ = .ok image

/-- A file in which there is no image. -/
inductive HoldsNone : Lookup → Prop
  | absent (text : String) : HoldsNone (.absent text)
  | unreadable (text : String) : HoldsNone (.unreadable text)
  /-- Its bytes make none. -/
  | malformed {bytes : List UInt8} {failure : Failure}
    (hread : Image.read ⟨bytes, .complete⟩ = .error failure) : HoldsNone (.found bytes)

end Lookup

theorem Image.ofLookup_eq_ok_iff {lookup : Lookup} {image : Image} :
    ofLookup lookup = .ok image ↔ lookup.Holds image := by
  cases lookup <;> simp [ofLookup, Lookup.bytes, Lookup.Holds]

theorem Image.ofLookup_eq_error_iff {lookup : Lookup} :
    (∃ failure, ofLookup lookup = .error failure) ↔ lookup.HoldsNone := by
  constructor
  · rintro ⟨failure, hread⟩
    cases lookup with
    | absent text => exact .absent text
    | unreadable text => exact .unreadable text
    | found bytes => exact .malformed hread
  · intro h
    cases h with
    | absent text | unreadable text => exact ⟨.io text, rfl⟩
    | malformed hread => exact ⟨_, hread⟩

namespace Job

theorem holds_of_load {files : String → Lookup} {path : String} {image : Image}
    (h : (Image.load files path).result = .ok image) : (files path).Holds image := by
  obtain ⟨_, -, hread⟩ := Stage.result_bind_eq_ok_iff.mp h
  exact Image.ofLookup_eq_ok_iff.mp (mapError_eq_ok_iff.mp hread)

theorem holds_of_readImage {files : String → Lookup} {path : String} {image : Image}
    (h : (readImage files path).result = .ok image) : (files path).Holds image := by
  obtain ⟨found, hload, hnoted⟩ := Stage.result_bind_eq_ok_iff.mp h
  obtain ⟨_, -, hfound⟩ := Stage.result_bind_eq_ok_iff.mp hnoted
  obtain rfl := Except.ok.inj hfound
  exact holds_of_load hload

theorem still_load (files : String → Lookup) (path : String) :
    (Image.load files path).Still :=
  (Stage.still_note _).bind fun _ => Stage.still_ofExcept _

theorem still_readImage (files : String → Lookup) (path : String) :
    (readImage files path).Still :=
  (still_load files path).bind fun _ => (Stage.still_note _).bind fun _ => Stage.still_pure _

/-- What reading the loader comes to: there is none without a path. -/
theorem holds_of_readLoader {files : String → Lookup} {path : Option String}
    {loader : Option Image} (h : (readLoader files path).result = .ok loader) :
    loader.isSome = path.isSome ∧ ∀ image, loader = some image →
      ∃ found, path = some found ∧ (files found).Holds image := by
  cases path with
  | none =>
      obtain rfl := Except.ok.inj h
      exact ⟨rfl, nofun⟩
  | some path =>
      obtain ⟨image, hread, hloader⟩ := Stage.result_bind_eq_ok_iff.mp h
      obtain rfl := Except.ok.inj hloader
      refine ⟨rfl, fun other hother => ?_⟩
      obtain rfl := Option.some.inj hother
      exact ⟨path, rfl, holds_of_readImage hread⟩

theorem loaderPath_eq_some_iff {job : Job} {settings : Settings} {path : String} :
    job.loaderPath settings = some path
      ↔ job.loader = some path ∨ job.loader = none ∧ settings.loader = some path := by
  unfold loaderPath
  cases job.loader <;> simp

/-! ### A job that is ready -/

/-- What holds of a job that is ready. -/
structure Prepared (job : Job) (files : String → Lookup) (settings : Settings)
    (named : Option String) (ready : Ready) : Prop where
  configByte : ready.configByte = job.configByte
  firmware : (files job.firmware).Holds ready.firmware
  /-- There is a loader if there is a path for one. -/
  loader_iff : ready.loader.isSome = (job.loaderPath settings).isSome
  loader : ∀ image, ready.loader = some image →
    ∃ path, job.loaderPath settings = some path ∧ (files path).Holds image
  /-- The device was found in the table that the settings make up. -/
  device : ∃ table selector devices, settings.table = .ok table ∧
    job.selector settings named = .ok selector ∧
    Device.resolve table selector devices = .ok ready.device
  permitted : checkEeprom job.configByte (job.loaderPath settings) (some ready.device) = .ok ()

theorem prepared_of_prepare {job : Job} {files : String → Lookup} {bus : Usb.Bus}
    {settings : Settings} {named : Option String} {ready : Ready}
    (h : (job.prepare files bus settings named).result = .ok ready) :
    job.Prepared files settings named ready := by
  rw [prepare] at h
  obtain ⟨_, -, h⟩ := Stage.result_bind_eq_ok_iff.mp h
  obtain ⟨firmware, hfirmware, h⟩ := Stage.result_bind_eq_ok_iff.mp h
  obtain ⟨loader, hloader, h⟩ := Stage.result_bind_eq_ok_iff.mp h
  obtain ⟨_, -, h⟩ := Stage.result_bind_eq_ok_iff.mp h
  obtain ⟨table, htable, h⟩ := Stage.result_bind_eq_ok_iff.mp h
  obtain ⟨selector, hselector, h⟩ := Stage.result_bind_eq_ok_iff.mp h
  obtain ⟨device, hdevice, h⟩ := Stage.result_bind_eq_ok_iff.mp h
  obtain ⟨_, hpermitted, h⟩ := Stage.result_bind_eq_ok_iff.mp h
  obtain ⟨_, -, h⟩ := Stage.result_bind_eq_ok_iff.mp h
  obtain rfl := Except.ok.inj h
  obtain ⟨devices, -, hdevice⟩ := Stage.result_bind_eq_ok_iff.mp hdevice
  obtain ⟨_, -, hresolve⟩ := Stage.result_bind_eq_ok_iff.mp hdevice
  obtain ⟨hiff, hpath⟩ := holds_of_readLoader hloader
  exact {
    configByte := rfl
    firmware := holds_of_readImage hfirmware
    loader_iff := hiff
    loader := hpath
    device := ⟨table, selector, devices, mapError_eq_ok_iff.mp htable, hselector,
      mapError_eq_ok_iff.mp hresolve⟩
    permitted := mapError_eq_ok_iff.mp hpermitted }

/-! ### Who vouches for the family -/

/-- Somebody vouches for the family of a device: the caller, or else the settings, or else the
table of known devices. -/
inductive Vouched (job : Job) (settings : Settings) (resolved : Resolved) : Prop
  | caller (hcaller : job.family = some resolved.family)
  | settings (hcaller : job.family = none)
    (hsettings : settings.family = .ok (some resolved.family))
  | table (hcaller : job.family = none) (hsettings : settings.family = .ok none) {table : Table}
    {known : Device.Known} (htable : settings.table = .ok table)
    (hknown : table.lookup resolved.id = some known) (hfamily : known.family = resolved.family)

theorem selectFamily_of_selector {job : Job} {settings : Settings} {named : Option String}
    {selector : Selector} (h : job.selector settings named = .ok selector) :
    job.selectFamily settings = .ok selector.family := by
  rw [Job.selector] at h
  cases hfamily : job.selectFamily settings with
  | error report =>
      rw [hfamily] at h
      cases h
  | ok family =>
      rw [hfamily] at h
      cases hdevice : job.selectDevice settings named with
      | error report =>
          rw [hdevice] at h
          cases h
      | ok id =>
          rw [hdevice] at h
          obtain rfl := Except.ok.inj h
          rfl

/-- Wherever a family comes from that is not the fallback, somebody vouches for it. -/
theorem vouched_of_resolve {job : Job} {settings : Settings} {named : Option String}
    {table : Table} {selector : Selector} {devices : List Device.Info} {resolved : Resolved}
    (htable : settings.table = .ok table) (hselector : job.selector settings named = .ok selector)
    (hresolve : Device.resolve table selector devices = .ok resolved)
    (hsource : resolved.source ≠ .fallback) : job.Vouched settings resolved := by
  have hselected := selectFamily_of_selector hselector
  have hfound := Device.resolve_vouched hresolve hsource
  rw [selectFamily] at hselected
  cases hcaller : job.family with
  | some family =>
      rw [hcaller] at hselected
      rw [← Except.ok.inj hselected] at hfound
      rcases hfound with hfamily | ⟨hnone, -⟩
      · exact .caller (hcaller.trans hfamily)
      · cases hnone
  | none =>
      rw [hcaller] at hselected
      have hsettings := mapError_eq_ok_iff.mp hselected
      rcases hfound with hfamily | ⟨hnone, known, hknown, hfamily⟩
      · exact .settings hcaller (hfamily ▸ hsettings)
      · exact .table hcaller (hnone ▸ hsettings) htable hknown hfamily

/-! ### Nothing is written meanwhile -/

theorem still_check (fault : Option Usb.Fault) : (Usb.check fault).Still := by
  cases fault <;> exact Stage.still_of_none rfl

theorem still_list (bus : Usb.Bus) : bus.list.Still := by
  have hcheck : ((Usb.check bus.listFault).onFailure [.call .stop]).Still :=
    (still_check _).onFailure (List.forall_mem_singleton.mpr rfl)
  exact (Stage.still_call rfl).bind fun _ => (still_check _).bind fun _ =>
    (Stage.still_call rfl).bind fun _ => hcheck.bind fun _ => (Stage.still_note _).bind fun _ =>
      (Stage.still_call rfl).bind fun _ => Stage.still_pure _

theorem still_choose (bus : Usb.Bus) (table : Table) (selector : Selector) :
    (choose bus table selector).Still := by
  have hattached : (attached bus selector).Still := by
    rw [attached]
    split
    · exact Stage.still_of_none rfl
    · exact (still_list bus).mapError _
  exact hattached.bind fun _ => (Stage.still_note _).bind fun _ => Stage.still_ofExcept _

theorem still_readLoader (files : String → Lookup) (path : Option String) :
    (readLoader files path).Still := by
  cases path with
  | none => exact Stage.still_of_none rfl
  | some path => exact (still_readImage files path).bind fun _ => Stage.still_pure _

theorem still_prepare (files : String → Lookup) (bus : Usb.Bus) (settings : Settings)
    (named : Option String) (job : Job) : (job.prepare files bus settings named).Still :=
  (Stage.still_ofExcept _).bind fun _ => (still_readImage files _).bind fun _ =>
    (still_readLoader files _).bind fun _ => (Stage.still_note _).bind fun _ =>
      (Stage.still_ofExcept _).bind fun _ => (Stage.still_ofExcept _).bind fun _ =>
        (still_choose bus _ _).bind fun _ => (Stage.still_ofExcept _).bind fun _ =>
          (Stage.still_note _).bind fun _ => Stage.still_pure _

theorem still_claim (device : Usb.Attached) : device.claim.Still := by
  refine (Stage.still_call rfl).bind fun _ => ?_
  cases device.claimFault with
  | none => exact Stage.still_pure ()
  | some fault =>
      exact (Stage.still_note _).bind fun _ => (Stage.still_call rfl).bind fun _ =>
        (Stage.still_note _).bind fun _ => (Stage.still_call rfl).bind fun _ => still_check _

theorem still_open (bus : Usb.Bus) (id : Device.Id) : (bus.open id).Still := by
  refine (Stage.still_call rfl).bind fun _ => (still_check _).bind fun _ =>
    (Stage.still_call rfl).bind fun _ => ?_
  cases bus.openable? id with
  | none => exact (Stage.still_call rfl).bind fun _ => Stage.still_of_none rfl
  | some device =>
      have hending : ∀ effect ∈ [Effect.call .close, .call .stop], effect.transfer? = none := by
        simp [Effect.transfer?]
      have htaken := ((still_check device.openDescriptorFault).bind fun _ =>
        still_claim device).onFailure hending
      exact htaken.bind fun _ => (Stage.still_note _).bind fun _ => Stage.still_pure _

/-- A device that is open was asked for, and is the one that its numbers open. -/
theorem opened_of_open {bus : Usb.Bus} {id : Device.Id} {device : Usb.Attached}
    (h : (bus.open id).result = .ok device) :
    bus.openable? id = some device ∧ .call (.open id) ∈ (bus.open id).effects := by
  obtain ⟨_, hstart, h⟩ := Stage.result_bind_eq_ok_iff.mp h
  obtain ⟨_, hcheck, h⟩ := Stage.result_bind_eq_ok_iff.mp h
  obtain ⟨_, hopen, h⟩ := Stage.result_bind_eq_ok_iff.mp h
  have hcalled : .call (.open id) ∈ (bus.open id).effects :=
    Stage.mem_effects_bind_right hstart (Stage.mem_effects_bind_right hcheck
      (Stage.mem_effects_bind_left _ (List.mem_singleton.mpr rfl)))
  refine ⟨?_, hcalled⟩
  cases hopenable : bus.openable? id with
  | none =>
      rw [hopenable] at h
      obtain ⟨_, -, h⟩ := Stage.result_bind_eq_ok_iff.mp h
      cases h
  | some found =>
      rw [hopenable] at h
      obtain ⟨_, -, h⟩ := Stage.result_bind_eq_ok_iff.mp h
      obtain ⟨_, -, h⟩ := Stage.result_bind_eq_ok_iff.mp h
      rw [Except.ok.inj h]

theorem still_closing (device : Usb.Attached) :
    ∀ effect ∈ device.closing, effect.transfer? = none := by
  rw [Usb.Attached.closing]
  cases device.releaseFault <;> simp [Effect.transfer?]

end Job
end UsbBoot
