/-
Devices and the table of known ones.

An attached device tells its place on the bus and its identity.  The table says to which
family a device belongs that comes up in the boot loader of its silicon.  It has one
entry for a pair of numbers: an entry added for a pair that is in the table takes the
place of the old one.
-/
import UsbBoot.Chip.Family
import UsbBoot.Device.Id
import UsbBoot.Log

namespace UsbBoot.Device

/-- An attached device. -/
structure Info where
  bus : UInt8
  /-- Its address on that bus. -/
  address : UInt8
  /-- Who made it and what it is. -/
  id : Id
  release : UInt16
  deriving DecidableEq, Repr

/-- How an attached device names itself. -/
def Info.identity (info : Info) : Identity :=
  ⟨info.id, info.release⟩

/-- An entry of the table. -/
structure Known where
  id : Id
  family : Chip.Family
  /-- What the device is called in lists. -/
  name : String
  deriving DecidableEq, Repr

/-- The table of known devices. -/
structure Table where
  /-- The entries, in the order in which their pairs were first added. -/
  entries : List Known
  deriving DecidableEq, Repr

namespace Table

def empty : Table :=
  ⟨[]⟩

/-- The parts that come up in the boot loader of their silicon. -/
def builtin : Table :=
  ⟨[⟨⟨0x0547, 0x2122⟩, .an21, "Cypress EZ-USB (2122S)"⟩,
    ⟨⟨0x0547, 0x2125⟩, .an21, "Cypress EZ-USB (2121S/2125S)"⟩,
    ⟨⟨0x0547, 0x2126⟩, .an21, "Cypress EZ-USB (2126S)"⟩,
    ⟨⟨0x0547, 0x2131⟩, .an21, "Cypress EZ-USB (2131Q/2131S/2135S)"⟩,
    ⟨⟨0x0547, 0x2136⟩, .an21, "Cypress EZ-USB (2136S)"⟩,
    ⟨⟨0x0547, 0x2225⟩, .an21, "Cypress EZ-USB (2225)"⟩,
    ⟨⟨0x0547, 0x2226⟩, .an21, "Cypress EZ-USB (2226)"⟩,
    ⟨⟨0x0547, 0x2235⟩, .an21, "Cypress EZ-USB (2235)"⟩,
    ⟨⟨0x0547, 0x2236⟩, .an21, "Cypress EZ-USB (2236)"⟩,
    ⟨⟨0x04B4, 0x6473⟩, .fx, "Cypress EZ-USB FX1"⟩,
    ⟨⟨0x04B4, 0x8613⟩, .fx2lp, "Cypress EZ-USB FX2LP (68013A/68014A/68015A/68016A)"⟩]⟩

def lookup (table : Table) (id : Id) : Option Known :=
  table.entries.find? (·.id == id)

/-- Put an entry in the place of the one for its pair, or at the end. -/
def insert (device : Known) : List Known → List Known
  | [] => [device]
  | entry :: rest => if entry.id = device.id then device :: rest else entry :: insert device rest

def add (table : Table) (device : Known) : Table :=
  ⟨insert device table.entries⟩

/-- What is said when an entry is added: that it takes the place of another, if so. -/
def addNotes (table : Table) (device : Known) : List Log.Line :=
  match table.lookup device.id with
  | none => []
  | some old => [.debug .devices ("Overriding known device " ++ device.id.upper ++ " (" ++
      old.family.display ++ " -> " ++ device.family.display ++ ")")]

/-- Of some devices those in the table. -/
def known (table : Table) (devices : List Info) : List Info :=
  devices.filter fun device => (table.lookup device.id).isSome

end Table
end UsbBoot.Device
