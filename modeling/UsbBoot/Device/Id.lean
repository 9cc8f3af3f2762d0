/-
Vendor and product numbers.

A device says who made it and what it is by two numbers of sixteen bits.  They are typed
and shown in base sixteen with a colon between.  What is typed may have blanks around
either number, a 0x in front of it and fewer than four digits; what is shown in small
letters can be typed back.
-/
import UsbBoot.Count
import UsbBoot.Text.Blank
import UsbBoot.Text.Number

namespace UsbBoot.Device

/-- A vendor and a product number. -/
structure Id where
  vendor : UInt16
  product : UInt16
  deriving DecidableEq, Repr

/-- How a device names itself on the bus. -/
structure Identity where
  /-- Who made it and what it is. -/
  id : Id
  /-- Which release it is. -/
  release : UInt16
  deriving DecidableEq, Repr

/-- Why a text is no pair of numbers. -/
inductive Id.Fault
  /-- There is no colon in it. -/
  | noColon (text : String)
  /-- One of the two parts is no number. -/
  | badPart (part : String) (fault : Text.NumberFault)
  deriving DecidableEq, Repr

def Id.Fault.message : Id.Fault → String
  | .noColon text => "Invalid device: '" ++ text ++
      "'. Expected \"vid:pid\" in hexadecimal (e.g. 04b4:8613)"
  | .badPart part fault => "Invalid hex ID '" ++ part ++ "': " ++ fault.message

namespace Id

/-- A text without the 0x in front, if it has one. -/
def dropBaseMark : List Char → List Char
  | '0' :: 'x' :: digits => digits
  | '0' :: 'X' :: digits => digits
  | digits => digits

/-- Read one number of a pair. -/
def readPart (text : List Char) : Except Fault UInt16 :=
  let part := Text.trim text
  match Text.readNumber 16 shortLimit (dropBaseMark part) with
  | .error fault => .error (.badPart (String.ofList part) fault)
  | .ok value => .ok value.toUInt16

/-- Read a pair: what stands before the first colon, and what stands after it. -/
def read (text : String) : Except Fault Id :=
  let trimmed := Text.trim text.toList
  match trimmed.dropWhile (· != ':') with
  | _ :: product => do
    let vendor ← readPart (trimmed.takeWhile (· != ':'))
    let product ← readPart product
    return ⟨vendor, product⟩
  | [] => .error (.noColon text)

/-- A pair in small letters, four digits each. -/
def lower (id : Id) : String :=
  Text.lowerHex 4 id.vendor.toNat ++ ":" ++ Text.lowerHex 4 id.product.toNat

/-- A pair in capital letters, four digits each. -/
def upper (id : Id) : String :=
  Text.upperHex 4 id.vendor.toNat ++ ":" ++ Text.upperHex 4 id.product.toNat

end Id
end UsbBoot.Device
