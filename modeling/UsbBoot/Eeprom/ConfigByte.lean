/-
The config byte as it is typed.

A leading 0x means base sixteen, any other leading zero with more behind it base eight,
and all else is base ten.  The number is read with the bound of thirty-two bits and then
has to fit a byte.
-/
import UsbBoot.Count
import UsbBoot.Text.Blank
import UsbBoot.Text.Number

namespace UsbBoot.Eeprom

/-- The base a config byte is typed in, and its digits. -/
def configDigits : List Char → Nat × List Char
  | '0' :: 'x' :: digits => (16, digits)
  | '0' :: 'X' :: digits => (16, digits)
  | '0' :: digit :: digits => (8, digit :: digits)
  | digits => (10, digits)

/-- Read a config byte. -/
def readConfigByte? (text : String) : Option UInt8 :=
  let (base, digits) := configDigits (Text.trim text.toList)
  match Text.readNumber base longLimit digits with
  | .error _ => none
  | .ok value => if value < byteLimit then some value.toUInt8 else none

/-- How it is told that a text is no config byte. -/
def configByteComplaint (text : String) : String :=
  "illegal config byte: " ++ text ++ " (expected 0-255)"

end UsbBoot.Eeprom
