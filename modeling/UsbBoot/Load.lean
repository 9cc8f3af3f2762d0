/-
Loading firmware into a device.

Firmware that fits on the chip is loaded in a single pass.  For all else a small loader
is put on the chip first, which then writes what comes after it to external memory or to
the boot EEPROM.  Of such a load both passes are looked at before the first one starts,
so that a request that cannot be met leaves the device alone.
-/
import UsbBoot.Pass.Run

namespace UsbBoot

open Pass (Destination Engine Event Plan Run Target)

variable {σ : Type}

/-- The pass that puts an image on the chip. -/
def Image.onChipPlan (image : Image) : Plan :=
  .onChip image.segments

namespace Pass

/-- The pass in which a loader places an image, with a config byte if one was asked for. -/
def Destination.plan (destination : Destination) (config : Option UInt8) (image : Image) : Plan :=
  match destination with
  | .ram => .throughLoader image.segments
  | .eeprom => .eeprom image.segments config

/-- What is said when the loader begins to place the firmware. -/
def Destination.note : Destination → Log.Line
  | .ram => .info .engine "2nd stage: loading firmware into RAM"
  | .eeprom => .info .engine "2nd stage: writing firmware to EEPROM"

end Pass

/-- Load an image onto the chip in a single pass. -/
def loadOnChip (port : Port σ) (target : Target) (image : Image) (engine : Engine) (state : σ) :
    Run σ :=
  (Pass.run port target "firmware" image.onChipPlan engine state).after
    [.note (.info .engine ("Single stage: loading " ++ toString image.length ++
      " bytes into on-chip RAM via " ++ port.name))]

/-- Load a loader onto the chip, and have it place the firmware. -/
def loadThrough (port : Port σ) (target : Target) (loader firmware : Image)
    (destination : Destination) (config : Option UInt8) (engine : Engine) (state : σ) : Run σ :=
  let obstacle := loader.onChipPlan.obstacle? target.profile <|>
    (destination.plan config firmware).obstacle? target.profile
  match obstacle with
  | some failure => ⟨engine, state, [], some failure⟩
  | none =>
    let first := (Pass.run port target "loader" loader.onChipPlan engine state).after
      [.note (.info .engine "1st stage: loading 2nd stage loader")]
    match first.failure with
    | some _ => first
    | none =>
      (Pass.run port target "firmware" (destination.plan config firmware) first.engine
        first.port).after (first.events ++ [.note destination.note])

end UsbBoot
