/-
Load jobs.

A job names the firmware and, as far as the user cared to, the loader, the device and
its family, and the config byte if the boot EEPROM is to be written.  What it leaves
open is looked for in the environment and in the settings, in this order; a source that
is not needed is not even read, so what is wrong in it does no harm.

Writing the EEPROM takes a loader and a family that somebody vouches for: a wrong guess
could leave a device that no longer boots.
-/
import UsbBoot.Device.Selection
import UsbBoot.Settings.Basic

namespace UsbBoot

open Device (Id Resolved Selector)

/-- What is to be loaded, and how. -/
structure Job where
  firmware : String
  loader : Option String
  /-- The config byte; with one the firmware goes to the boot EEPROM. -/
  configByte : Option UInt8
  family : Option Chip.Family
  device : Option Id
  deriving DecidableEq, Repr

namespace Job

/-- What is wrong with a job. -/
inductive Fault
  /-- There is no loader that could write the EEPROM. -/
  | noLoader
  /-- Nobody knows the family of the device whose EEPROM is to be written. -/
  | noFamily
  /-- The environment names a device by what is no pair of numbers. -/
  | badDevice (fault : Id.Fault)
  deriving DecidableEq, Repr

/-- The variable of the environment that names a device. -/
def deviceVariable : String := "DEVICE"

def Fault.message : Fault → String
  | .noLoader => "need a second-stage loader (-s) to write the EEPROM"
  | .noFamily => "must specify the microcontroller type (-t) to write the EEPROM"
  | .badDevice fault => "$" ++ deviceVariable ++ ": " ++ fault.message

/-- How a faulty job is reported. -/
def Fault.report (fault : Fault) : Report :=
  .of (.usage fault.message)

/-- The loader's file, from the job or from the settings. -/
def loaderPath (job : Job) (settings : Settings) : Option String :=
  job.loader <|> settings.loader

/-- The family asked for. -/
def selectFamily (job : Job) (settings : Settings) : Except Report (Option Chip.Family) :=
  match job.family with
  | some family => .ok (some family)
  | none => settings.family.mapError Settings.Fault.report

/-- The device asked for; `named` is what the environment says. -/
def selectDevice (job : Job) (settings : Settings) (named : Option String) :
    Except Report (Option Id) :=
  match job.device, named with
  | some id, _ => .ok (some id)
  | none, some text =>
    ((Id.read text).map some).mapError fun fault => (Fault.badDevice fault).report
  | none, none => settings.deviceId.mapError Settings.Fault.report

/-- What is asked for. -/
def selector (job : Job) (settings : Settings) (named : Option String) :
    Except Report Selector := do
  let family ← job.selectFamily settings
  let id ← job.selectDevice settings named
  return ⟨family, id⟩

/-- Check that the EEPROM may be written, if it is to be: that there is a loader and, once the
device is chosen, that somebody vouches for its family. -/
def checkEeprom (configByte : Option UInt8) (loader : Option String)
    (resolved : Option Resolved) : Except Fault Unit :=
  match configByte, loader, resolved with
  | none, _, _ => .ok ()
  | some _, none, _ => .error .noLoader
  | some _, some _, none => .ok ()
  | some _, some _, some device =>
    if device.source = .fallback then .error .noFamily else .ok ()

end Job
end UsbBoot
