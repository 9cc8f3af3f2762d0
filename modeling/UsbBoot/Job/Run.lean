/-
Running a load job.

All that can be found out without the device is found out first: whether the request
makes sense, whether the files hold images, which device is meant.  Only then the device
is opened.  However the load goes, the device is closed again.
-/
import UsbBoot.Image.File
import UsbBoot.Job.Basic
import UsbBoot.Load
import UsbBoot.Usb.Bus

namespace UsbBoot.Job

open Device (Info Resolved Selector)
open Usb (Attached Bus Wire)

/-- A job that is ready to be sent to the device. -/
structure Ready where
  firmware : Image
  loader : Option Image
  /-- The config byte, if the EEPROM is to be written. -/
  configByte : Option UInt8
  /-- The device and its family. -/
  device : Resolved
  deriving DecidableEq, Repr

/-! ### Before the device is opened -/

/-- Read one of the job's images. -/
def readImage (files : String → Lookup) (path : String) : Stage Report Image := do
  let image ← Image.load files path
  .note [.info .loadCommand ("Loaded " ++ path ++ ": " ++ toString image.length ++ " bytes in " ++
    toString image.segments.length ++ " segment(s)")]
  return image

def readLoader (files : String → Lookup) : Option String → Stage Report (Option Image)
  | none => .yield none
  | some path => do return some (← readImage files path)

/-- The attached devices, as far as they are needed to choose one: with a pair of numbers there
is nothing to look for. -/
def attached (bus : Bus) (selector : Selector) : Stage Report (List Info) :=
  if selector.id.isSome then .yield [] else bus.list.mapError Report.ofFailure

def choose (bus : Bus) (table : Device.Table) (selector : Selector) : Stage Report Resolved := do
  let devices ← attached bus selector
  .note (Device.resolveNotes table selector devices)
  .ofExcept ((Device.resolve table selector devices).mapError Report.ofFailure)

/-- Check that the EEPROM may be written, if it is to be. -/
def permit (configByte : Option UInt8) (loader : Option String) (resolved : Option Resolved) :
    Stage Report Unit :=
  .ofExcept ((checkEeprom configByte loader resolved).mapError Fault.report)

/-- What is said about the family. -/
def familyNote (device : Resolved) : Log.Line :=
  .info .loadCommand ("microcontroller type: " ++ device.family.display ++
    if device.source = .fallback then " (default)" else "")

/-- All that comes before the device is opened. -/
def prepare (files : String → Lookup) (bus : Bus) (settings : Settings) (named : Option String)
    (job : Job) : Stage Report Ready := do
  let loaderPath := job.loaderPath settings
  -- Asked here so that nothing is read in vain, and again once the family is known.
  permit job.configByte loaderPath none
  let firmware ← readImage files job.firmware
  let loader ← readLoader files loaderPath
  .note settings.tableNotes
  let table ← .ofExcept (settings.table.mapError Settings.Fault.report)
  let selector ← .ofExcept (job.selector settings named)
  let device ← choose bus table selector
  permit job.configByte loaderPath (some device)
  .note [familyNote device]
  return ⟨firmware, loader, job.configByte, device⟩

/-! ### On the device -/

/-- What can be seen of an event of a pass. -/
def effectsOf : Pass.Event → List Effect
  | .note line => [.log line]
  | .wrote write _ => [.call (.transfer (.of write))]
  | .asked _ | .progress _ _ _ => []

/-- Where a loader places the firmware. -/
def Ready.destination (ready : Ready) : Pass.Destination :=
  if ready.configByte.isSome then .eeprom else .ram

/-- What is loaded: the device's family says how the part is driven. -/
def Ready.target (ready : Ready) (device : Attached) : Pass.Target :=
  ⟨ready.device.family.profile, device.info.identity⟩

/-- Load an open device. -/
def Ready.load (ready : Ready) (bus : Bus) (device : Attached) : Pass.Run Wire :=
  let port := bus.port device
  match ready.loader with
  | none => loadOnChip port (ready.target device) ready.firmware .fresh .fresh
  | some loader =>
    loadThrough port (ready.target device) loader ready.firmware ready.destination
      ready.configByte .fresh .fresh

/-- How a load that did not succeed is reported. -/
def reportOf : Failure → Report
  | .cancelled => .of (.cancelled "Interrupted")
  | failure => (Report.ofFailure failure).within "Firmware download failed"

/-- What the user is told when the load begins. -/
def Ready.opening (ready : Ready) : String :=
  "🔌 Using " ++ ready.device.id.lower ++ " (" ++ ready.device.family.display ++ ")"

/-- What the user is told when the load has succeeded. -/
def Ready.success (ready : Ready) : String :=
  if ready.configByte.isSome then "✓ EEPROM written" else "✓ Firmware loaded"

/-- What a finished load comes to. -/
def conclude (run : Pass.Run Wire) : Stage Report Unit :=
  ⟨run.events.flatMap effectsOf,
    match run.failure with
    | none => .ok ()
    | some failure => .error (reportOf failure)⟩

/-- Lines for the user, unless there are to be none. -/
def unlessQuiet (quiet : Bool) (line : String) : Stage Report Unit :=
  .tell (if quiet then [] else [line])

/-- Open the device, load it and close it. -/
def Ready.perform (ready : Ready) (bus : Bus) (quiet : Bool) : Stage Report Unit := do
  let device ← (bus.open ready.device.id).mapError fun failure =>
    (Report.ofFailure failure).within ("Failed to open device " ++ ready.device.id.lower)
  (do
    unlessQuiet quiet ready.opening
    conclude (ready.load bus device)
    unlessQuiet quiet ready.success : Stage Report Unit).endingWith device.closing

def run (files : String → Lookup) (bus : Bus) (settings : Settings) (named : Option String)
    (quiet : Bool) (job : Job) : Stage Report Unit := do
  let ready ← job.prepare files bus settings named
  ready.perform bus quiet

end UsbBoot.Job
