/-
Devices in lists: a line of text for a reader, an object for a program.
-/
import UsbBoot.Device.Selection
import UsbBoot.Json.Value

namespace UsbBoot.Device

/-- A device as a line of text.  Known ones are shown with family and name. -/
def line (table : Table) (device : Info) : String :=
  let place := "Bus " ++ Text.decimal 3 device.bus.toNat ++ " Device " ++
    Text.decimal 3 device.address.toNat ++ ": ID " ++ device.id.lower
  match table.lookup device.id with
  | none => place
  | some known => place ++ " [" ++ known.family.display ++ "] " ++ known.name

/-- A device as an object. -/
def object (table : Table) (device : Info) : Json.Value :=
  let known := table.lookup device.id
  let text (of : Known → String) := (known.map fun entry => .string (of entry)).getD .null
  .object [
    ("address", .number device.address.toNat),
    ("bcd_device", .string (Text.lowerHex 4 device.release.toNat)),
    ("bus", .number device.bus.toNat),
    ("known", .bool known.isSome),
    ("name", text (·.name)),
    ("pid", .string (Text.lowerHex 4 device.id.product.toNat)),
    ("type", text (·.family.token)),
    ("vid", .string (Text.lowerHex 4 device.id.vendor.toNat))]

/-- A device and its place, as messages name an open one. -/
def Info.title (device : Info) : String :=
  device.id.lower ++ " (bus " ++ Text.decimal 3 device.bus.toNat ++ " addr " ++
    Text.decimal 3 device.address.toNat ++ ")"

/-! ### Whole lists -/

/-- The request that asks for nothing: the first known device is taken. -/
def anyKnown : Selector :=
  ⟨none, none⟩

/-- A list of devices; `knownOnly` says whether others were left out of it. -/
def listing (table : Table) (knownOnly : Bool) (devices : List Info) : List String :=
  "USB Devices" ::
    if devices.isEmpty then
      [if knownOnly then "  No known EZ-USB devices found" else "  No USB devices found"]
    else devices.map fun device => "  • " ++ line table device

/-- What follows a list: the device that is taken where none is asked for. -/
def choiceLines (table : Table) (devices : List Info) : List String :=
  match resolve table anyKnown devices with
  | .error _ => []
  | .ok device =>
    ["", "→ Auto-detected: " ++ device.id.lower ++ " (" ++ device.family.display ++ ")"]

/-- A list of devices as an object. -/
def listingObject (table : Table) (devices : List Info) : Json.Value :=
  .object [("devices", .array (devices.map (object table)))]

end UsbBoot.Device
