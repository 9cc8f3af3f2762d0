/-
The loader's own values in JSON.

Segments, attached devices, entries of the device table, families and where a family
comes from can be kept as JSON.  Numbers must fit the field they are read into.
-/
import UsbBoot.Count
import UsbBoot.Device.Selection
import UsbBoot.Image.Basic
import UsbBoot.Json.Scan
import UsbBoot.Json.Value

namespace UsbBoot.Json

open Text (Scanner)

/-! ### Writing -/

def ofSegment (segment : Segment) : Value :=
  .object [
    ("base_address", .number segment.base.toNat),
    ("bytes", .array (segment.bytes.map fun byte => .number byte.toNat))]

def ofInfo (info : Device.Info) : Value :=
  .object [
    ("address", .number info.address.toNat),
    ("bcd_device", .number info.release.toNat),
    ("bus", .number info.bus.toNat),
    ("pid", .number info.id.product.toNat),
    ("vid", .number info.id.vendor.toNat)]

def ofFamily (family : Chip.Family) : Value :=
  .string family.token

def ofKnown (known : Device.Known) : Value :=
  .object [
    ("family", ofFamily known.family),
    ("name", .string known.name),
    ("pid", .number known.id.product.toNat),
    ("vid", .number known.id.vendor.toNat)]

/-- Where a family comes from, as a string. -/
def ofFamilySource (source : Device.FamilySource) : Value :=
  .string source.token

/-! ### Reading -/

def family : Scanner Chip.Family :=
  variant Chip.Family.ofToken?

def familySource : Scanner Device.FamilySource :=
  variant fun name =>
    [Device.FamilySource.explicit, .table, .fallback].find? (·.token == name)

def byte : Scanner UInt8 := do
  return (← natural byteLimit).toUInt8

/-- A number of sixteen bits. -/
def short : Scanner UInt16 := do
  return (← natural shortLimit).toUInt16

/-- Read the text of a field. -/
def field {α : Type} (scanner : Scanner α) (text : List Char) : Scanner α := fun rest =>
  (parse? scanner text).map (·, rest)

def segment : Scanner Segment := do
  match ← fields ["base_address", "bytes"] with
  | [base, bytes] =>
    let base ← field (natural longLimit) base
    let bytes ← field (items '[' ']' byte) bytes
    return ⟨base.toUInt32, bytes⟩
  | _ => failure

def info : Scanner Device.Info := do
  match ← fields ["bus", "address", "vid", "pid", "bcd_device"] with
  | [bus, address, vendor, product, release] =>
    let bus ← field byte bus
    let address ← field byte address
    let vendor ← field short vendor
    let product ← field short product
    let release ← field short release
    return ⟨bus, address, ⟨vendor, product⟩, release⟩
  | _ => failure

def known : Scanner Device.Known := do
  match ← fields ["vid", "pid", "family", "name"] with
  | [vendor, product, familyText, name] =>
    let vendor ← field short vendor
    let product ← field short product
    let found ← field family familyText
    let name ← field string name
    return ⟨⟨vendor, product⟩, found, name⟩
  | _ => failure

end UsbBoot.Json
