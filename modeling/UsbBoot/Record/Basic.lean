/-
Records of Intel HEX.

A record is one line's worth of an image: a kind, a sixteen-bit address, a payload and
the checksum stored at its end.  The checksum makes all bytes of a sound record sum to
zero modulo 256; the stored one is kept as it was read, so a record whose other fields
were changed afterwards can be told from a sound one.
-/
import UsbBoot.Text.Number

namespace UsbBoot

/-- What a record is for. -/
inductive Record.Kind
  /-- Bytes of the image. -/
  | data
  /-- The end of the image. -/
  | endOfFile
  /-- A base address in units of sixteen. -/
  | extendedSegment
  /-- The upper half of the addresses that follow. -/
  | extendedLinear
  /-- A kind with no meaning here, by its tag. -/
  | other (tag : UInt8)
  deriving DecidableEq, Repr

namespace Record.Kind

/-- The kind a tag stands for. -/
def ofTag (tag : UInt8) : Kind :=
  if tag = 0x00 then .data
  else if tag = 0x01 then .endOfFile
  else if tag = 0x02 then .extendedSegment
  else if tag = 0x04 then .extendedLinear
  else .other tag

/-- The tag written for a kind. -/
def tag : Kind → UInt8
  | .data => 0x00
  | .endOfFile => 0x01
  | .extendedSegment => 0x02
  | .extendedLinear => 0x04
  | .other tag => tag

/-- Whether a kind is the one its own tag is read back as. -/
def IsCanonical (kind : Kind) : Prop :=
  ofTag kind.tag = kind

instance (kind : Kind) : Decidable kind.IsCanonical :=
  inferInstanceAs (Decidable (ofTag kind.tag = kind))

/-- Whether records of the kind set the base address. -/
def setsBase : Kind → Bool
  | .extendedSegment | .extendedLinear => true
  | _ => false

@[simp] theorem tag_ofTag (tag : UInt8) : (ofTag tag).tag = tag := by
  unfold ofTag
  split
  · simp_all [Kind.tag]
  · split
    · simp_all [Kind.tag]
    · split
      · simp_all [Kind.tag]
      · split <;> simp_all [Kind.tag]

end Record.Kind

structure Record where
  kind : Record.Kind
  /-- The offset from the base address in force. -/
  address : UInt16
  payload : List UInt8
  /-- The checksum as stored. -/
  checksum : UInt8
  deriving DecidableEq, Repr

/-- Why a line is not a record, or a record not part of an image. -/
inductive Record.Fault
  /-- The line does not begin with a colon. -/
  | missingStart
  /-- The digits do not pair up to bytes. -/
  | oddDigits
  /-- A character is no hexadecimal digit. -/
  | invalidDigit
  /-- The line ends before its count is used up. -/
  | truncated
  /-- The line goes on after its checksum. -/
  | trailing
  /-- A record that sets the base does not carry two bytes. -/
  | badBase
  /-- Data reaches past the last address. -/
  | pastEnd
  /-- The checksum is another than the bytes call for. -/
  | checksum (expected actual : UInt8)
  deriving DecidableEq, Repr

def Record.Fault.message : Record.Fault → String
  | .missingStart => "missing start marker"
  | .oddDigits => "odd number of hex digits"
  | .invalidDigit => "invalid hex digit"
  | .truncated => "truncated record"
  | .trailing => "trailing data after checksum"
  | .badBase => "bad extended address record"
  | .pastEnd => "data extends beyond address 0xFFFFFFFF"
  | .checksum expected actual =>
    "checksum mismatch: expected 0x" ++ Text.lowerHex 2 expected.toNat ++
      ", got 0x" ++ Text.lowerHex 2 actual.toNat

namespace Record

/-- The checksum for some bytes: what brings their sum to zero. -/
def checksumOf (bytes : List UInt8) : UInt8 :=
  0 - bytes.foldr (· + ·) 0

/-- The high byte of an address, then the low one. -/
def addressBytes (address : UInt16) : List UInt8 :=
  [(address >>> 8).toUInt8, address.toUInt8]

/-- The address two bytes spell, the high one first. -/
def addressOf (high low : UInt8) : UInt16 :=
  high.toUInt16 <<< 8 ||| low.toUInt16

/-- The bytes in front of the payload; the count of a longer payload wraps at 256. -/
def header (record : Record) : List UInt8 :=
  record.payload.length.toUInt8 :: addressBytes record.address ++ [record.kind.tag]

/-- The checksum that the other fields call for. -/
def expectedChecksum (record : Record) : UInt8 :=
  checksumOf (record.header ++ record.payload)

/-- Whether the stored checksum is the one the other fields call for. -/
def isSound (record : Record) : Bool :=
  record.checksum == record.expectedChecksum

/-- A record with the checksum its fields call for. -/
def sound (kind : Kind) (address : UInt16) (payload : List UInt8) : Record :=
  let blank : Record := ⟨kind, address, payload, 0⟩
  { blank with checksum := blank.expectedChecksum }

/-- A record of image bytes. -/
def data (address : UInt16) (payload : List UInt8) : Record :=
  sound .data address payload

/-- The record that ends an image. -/
def endOfFile : Record :=
  sound .endOfFile 0 []

/-- The record that selects the upper half of the addresses after it. -/
def extendedLinear (upper : UInt16) : Record :=
  sound .extendedLinear 0 (addressBytes upper)

/-- The base address a record sets, if it is of a kind that does and carries two bytes. -/
def base? (record : Record) : Option UInt32 :=
  match record.payload with
  | [high, low] =>
    let value := (addressOf high low).toUInt32
    match record.kind with
    | .extendedSegment => some (value <<< 4)
    | .extendedLinear => some (value <<< 16)
    | _ => none
  | _ => none

end Record
end UsbBoot
