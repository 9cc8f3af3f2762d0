/-
The device in the EEPROM is the device on the bus.

A device that boots off its EEPROM shows the numbers it finds there, so a load that writes the
EEPROM writes the device's own numbers into the header.  They come from its descriptor, and the
vendor and product numbers are handed on as they are.  The release number is told by way of a
decimal number, in lists as well as in the header, and comes out changed if the digit taken for
ones is no decimal digit.
-/
import UsbBoot.Proofs.Job.Delivered
import UsbBoot.Proofs.Job.Failing
import UsbBoot.Proofs.Usb.Release

namespace UsbBoot

open Pass (Planned imageWrites releaseWrite sealWrite spoilWrite)
open Usb (Attached DecimalOnes Transfer)

/-! ### What is told of a device -/

namespace Eeprom

/-- The numbers of a device, as a boot header has them. -/
def nameBytes (id : Device.Id) (release : UInt16) : List UInt8 :=
  lowFirst id.vendor ++ lowFirst id.product ++ lowFirst release

theorem nameBytes_bootHeader (profile : Chip.Profile) (identity : Device.Identity)
    (config : UInt8) :
    ((bootHeader profile identity config).drop 1).take 6
      = nameBytes identity.id identity.release := by
  simp [bootHeader, nameBytes, lowFirst]

theorem lowFirst_injective {one other : UInt16} (h : lowFirst one = lowFirst other) :
    one = other := by
  obtain ⟨hlow, hrest⟩ := List.cons.inj h
  obtain ⟨hhigh, -⟩ := List.cons.inj hrest
  have hone := number_bytes one
  have hother := number_bytes other
  rw [hhigh, hlow] at hone
  exact UInt16.toNat_inj.mp (hone.symm.trans hother)

end Eeprom

/-- What the descriptor of a device says it is, as a boot header would have it. -/
def Usb.Attached.nameBytes (device : Attached) : List UInt8 :=
  Eeprom.nameBytes device.id device.release

/-- The numbers that are told of a device are its own if the release number comes out so. -/
theorem Usb.nameBytes_info_iff {device : Attached} :
    Eeprom.nameBytes device.info.id device.info.release = device.nameBytes
      ↔ DecimalOnes device.release := by
  rw [← Usb.toldRelease_eq_self_iff, Attached.info]
  constructor
  · intro h
    exact Eeprom.lowFirst_injective (List.append_cancel_left h)
  · intro h
    rw [h]
    rfl

theorem Usb.filterMap_info? (devices : List Attached) :
    devices.filterMap Attached.info?
      = (devices.filter (·.descriptorFault.isNone)).map Attached.info := by
  induction devices with
  | nil => rfl
  | cons device rest ih =>
      cases hfault : device.descriptorFault with
      | none => simp [Attached.info?, hfault, ih]
      | some fault => simp [Attached.info?, hfault, ih]

theorem Usb.of_openable? {bus : Usb.Bus} {id : Device.Id} {device : Attached}
    (h : bus.openable? id = some device) : device ∈ bus.devices ∧ device.id = id := by
  obtain ⟨hfound, -⟩ := Option.filter_eq_some_iff.mp h
  exact ⟨List.mem_of_find?_eq_some hfound, by simpa using List.find?_some hfound⟩

/-! ### What a load that writes the EEPROM ends with -/

/-- A job that is to write the EEPROM is ready only with a loader. -/
theorem Job.Prepared.exists_loader {job : Job} {files : String → Lookup} {settings : Settings}
    {named : Option String} {ready : Job.Ready} (h : job.Prepared files settings named ready)
    {config : UInt8} (hconfig : job.configByte = some config) :
    ∃ loader, ready.loader = some loader := by
  rw [← Option.isSome_iff_exists, h.loader_iff]
  have hpermitted := h.permitted
  rw [hconfig] at hpermitted
  cases hpath : job.loaderPath settings with
  | some path => rfl
  | none =>
      rw [hpath] at hpermitted
      cases hpermitted

namespace Loading

variable {world : World} {options : Options}

/-- The write that seals the EEPROM with the device's numbers. -/
def header (loading : Loading world options) (config : UInt8) : ControlWrite :=
  sealWrite loading.ready.device.family.profile loading.device.info.identity (some config)

/-- The target of a load: how its device is driven, and as what it is known. -/
def target (loading : Loading world options) : Pass.Target :=
  loading.ready.target loading.device

/-- Of a load that writes the EEPROM, the header and letting the CPU run are the end. -/
theorem planned_of_configByte (loading : Loading world options) {config : UInt8}
    (hconfig : loading.job.configByte = some config) :
    ∃ front, loading.planned.map Planned.write
      = front ++ [loading.header config, releaseWrite loading.ready.device.family.profile] := by
  have hprepared := Job.prepared_of_prepare loading.prepared
  obtain ⟨loader, hloader⟩ := hprepared.exists_loader hconfig
  have hready : loading.ready.configByte = some config := hprepared.configByte.trans hconfig
  let plan := Pass.Plan.eeprom loading.ready.firmware.segments (some config)
  have hplanned : loading.planned = loader.onChipPlan.planned loading.target ++
      plan.planned loading.target := by
    rw [planned, Job.Ready.planned, hloader, Job.Ready.destination, hready]
    rfl
  have hcourse : plan.course loading.target = spoilWrite ::
      imageWrites loading.target.profile (plan.chunks loading.target.profile) ++
        [loading.header config] := rfl
  rw [hplanned, List.map_append, Pass.writes_planned, Pass.writes_planned, hcourse]
  refine ⟨loader.onChipPlan.course loading.target ++ [releaseWrite loading.target.profile] ++
    spoilWrite :: imageWrites loading.target.profile (plan.chunks loading.target.profile), ?_⟩
  simp only [List.append_assoc, List.cons_append, List.nil_append]
  rfl

end Loading

namespace Program

/--
**The EEPROM names the device as its descriptor does, if the release number can be told.**

A list holds what is told of every device whose descriptor can be read, and a device that was
opened is one with the numbers asked for.  What is told of a device has its vendor and product
numbers, and its release number, with ten of the ones carried into the tens if the digit taken
for ones is above nine.  A run that is to write the EEPROM and succeeds ends with the header and
with letting the CPU run, and behind its marker the header has just what is told, with the low
bytes first; so it has what is in the descriptor exactly if nothing was carried.
-/
theorem run_identifies (world : World) :
    (∀ infos, world.bus.list.result = .ok infos →
      infos = (world.bus.devices.filter (·.descriptorFault.isNone)).map Attached.info) ∧
    (∀ id device, (world.bus.open id).result = .ok device →
      device ∈ world.bus.devices ∧ device.id = id) ∧
    (∀ device : Attached, device.info.id = device.id ∧
      device.info.release
        = if DecimalOnes device.release then device.release else device.release + 0x600) ∧
    ∀ options job config, options.command = .load job → job.configByte = some config →
      exitCode (run world options) = 0 →
      ∃ (loading : Loading world options) (front : List Transfer) (header : Transfer),
        transfers (run world options).effects
          = front ++ [header, .of (releaseWrite loading.ready.device.family.profile)] ∧
        header.request = Request.eeprom.code ∧ header.value = 0 ∧ header.index = 0 ∧
        (header.data.drop 1).take 6
          = Eeprom.nameBytes loading.device.info.id loading.device.info.release ∧
        ((header.data.drop 1).take 6 = loading.device.nameBytes
          ↔ DecimalOnes loading.device.release) := by
  refine ⟨fun infos h => ?_, fun id device h => ?_, fun device => ?_, ?_⟩
  · rw [Job.eq_of_list_eq_ok h, Usb.filterMap_info?]
  · exact Usb.of_openable? (Job.opened_of_open h).1
  · exact ⟨rfl, Usb.toldRelease_eq device.release⟩
  · intro options job config hasked hconfig hexit
    obtain ⟨loading⟩ := exists_loading hasked (.inl hexit)
    have hwell := (exitCode_of_loading loading).mp hexit
    obtain rfl := Command.load.inj (loading.asked.symm.trans hasked)
    obtain ⟨front, hfront⟩ := loading.planned_of_configByte hconfig
    have hnamed : ((loading.header config).data.drop 1).take 6
        = Eeprom.nameBytes loading.device.info.id loading.device.info.release :=
      Eeprom.nameBytes_bootHeader ..
    have hindex : Usb.indexField 0 = 0 := by decide
    refine ⟨loading, front.map .of, .of (loading.header config), ?_, rfl, rfl, hindex, hnamed, ?_⟩
    · rw [transfers_of_success loading hwell, hfront, List.map_append]
      rfl
    rw [Transfer.data_of, hnamed]
    exact Usb.nameBytes_info_iff

/-- The bench with a device of another release. -/
def releaseBench (release : UInt16) : World :=
  { benchWorld with
    bus := { Usb.Bus.empty with
      devices := [⟨1, 4, ⟨0x04B4, 0x8613⟩, release, none, none, none, none, none, none, none⟩] } }

/-- Digits that are not decimal stay as they are, but for the ones. -/
theorem run_identifies_bench :
    let world := releaseBench 0xA9FE
    exitCode (run world (benchOptions (some 1))) = 0 ∧ DecimalOnes 0xA9FE ∧
      (∀ infos, world.bus.list.result = .ok infos → infos.map (·.release) = [0xA9FE]) ∧
      ∃ front header release,
        transfers (run world (benchOptions (some 1))).effects = front ++ [header, release] ∧
          header.request = 0xA2 ∧
          (header.data.drop 1).take 6 = [0xB4, 0x04, 0x13, 0x86, 0xFE, 0xA9] := by
  intro world
  have hexit : exitCode (run world (benchOptions (some 1))) = 0 := by decide +kernel
  have hones : DecimalOnes 0xA9FE := by decide
  obtain ⟨hlist, hopen, -, hload⟩ := run_identifies world
  obtain ⟨loading, front, header, hwritten, hrequest, -, -, -, hnamed⟩ :=
    hload (benchOptions (some 1)) _ 1 rfl rfl hexit
  obtain ⟨hmem, -⟩ := hopen _ _ loading.opened
  have hdevice := List.mem_singleton.mp hmem
  refine ⟨hexit, hones, fun infos hinfos => ?_, front, header, _, hwritten, hrequest, ?_⟩
  · rw [hlist infos hinfos]
    decide
  · rw [hdevice] at hnamed
    exact hnamed.mpr hones

/-- Release 0A00 is told as 1000, in a list as well as to the EEPROM. -/
theorem run_identifies_carried :
    let world := releaseBench 0x0A00
    let written := transfers (run world (benchOptions (some 1))).effects
    exitCode (run world (benchOptions (some 1))) = 0 ∧
      (¬∀ infos, world.bus.list.result = .ok infos →
        infos.map (·.release) = world.bus.devices.map (·.release)) ∧
      ¬∀ header ∈ written, header.request = 0xA2 → header.value = 0 → header.index = 0 →
        1 < header.data.length → ∀ device ∈ world.bus.devices,
          (header.data.drop 1).take 6 = device.nameBytes := by
  intro world written
  refine ⟨by decide +kernel, fun hlist => ?_, fun hnamed => ?_⟩
  · have htold : world.bus.list.result
        = .ok [⟨1, 4, ⟨0x04B4, 0x8613⟩, 0x1000⟩] := by decide +kernel
    exact absurd (hlist _ htold) (by decide)
  · have hheader : (⟨0x40, 0xA2, 0, 0, [0xC2, 0xB4, 0x04, 0x13, 0x86, 0x00, 0x10, 0x01], 1000⟩
        : Transfer) ∈ written := by
      decide +kernel
    exact absurd (hnamed _ hheader rfl rfl rfl (by decide) _ List.mem_cons_self) (by decide)

end Program
end UsbBoot
