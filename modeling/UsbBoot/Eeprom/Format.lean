/-
What a boot EEPROM holds.

A part reads its EEPROM when it powers up.  There is a header of seven or eight bytes:
a marker, the vendor, product and release numbers with their low bytes first, and on
some families a config byte.  After it come records, each with a length and an address,
high bytes first, and as many bytes of data; the boot loader in the silicon copies the
data to the address.  The top bit of the length marks the last record, which writes one
byte to the CPU control register and so lets the CPU run.

A first byte that is no marker makes the part ignore the EEPROM.
-/
import UsbBoot.Chip.Profile
import UsbBoot.Device.Id
import UsbBoot.Failure

namespace UsbBoot.Eeprom

open Device (Identity)

/-- The most data one record holds. -/
def maxRecord : Nat := 1023

/-- The length of a record's header. -/
def recordHeaderLength : UInt32 := 4

/-- A first byte that keeps a part from booting off its EEPROM. -/
def noBoot : UInt8 := 0x00

/-- The bit that marks the last record. -/
def lastFlag : UInt16 := 0x8000

/-- A number with its high byte first. -/
def highFirst (value : UInt16) : List UInt8 :=
  [(value >>> 8).toUInt8, value.toUInt8]

/-- A number with its low byte first. -/
def lowFirst (value : UInt16) : List UInt8 :=
  [value.toUInt8, (value >>> 8).toUInt8]

/-- The header of a record, which has room for ten bits of length and sixteen of address. -/
def recordHeader (length : Nat) (address : UInt32) (last : Bool) : Except Failure (List UInt8) :=
  if maxRecord < length ∨ 0xFFFF < address then .error (.outOfRange address length)
  else
    let field := if last then length.toUInt16 ||| lastFlag else length.toUInt16
    .ok (highFirst field ++ highFirst address.toUInt16)

/-- The header that makes a part boot off its EEPROM; the config byte keeps the bits the part
heeds. -/
def bootHeader (profile : Chip.Profile) (identity : Identity) (config : UInt8) : List UInt8 :=
  profile.bootMarker ::
    (lowFirst identity.id.vendor ++ lowFirst identity.id.product ++ lowFirst identity.release ++
      if profile.hasConfigByte then [config &&& profile.configMask] else [])

theorem length_bootHeader (profile : Chip.Profile) (identity : Identity) (config : UInt8) :
    (bootHeader profile identity config).length = profile.bootHeaderLength := by
  unfold bootHeader Chip.Profile.bootHeaderLength
  split <;> simp [lowFirst]

end UsbBoot.Eeprom
