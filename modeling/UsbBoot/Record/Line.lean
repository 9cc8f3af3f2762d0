/-
A record as a line of text.

A line is a colon and two hexadecimal digits for each byte: the count, the address, the
tag, the payload, the checksum.  Records are written with capital letters; either case
is read, and blanks at the end of the line are passed over.

Reading checks in a fixed order, and the first check that fails names the fault: the
colon, an even length, the digits, the count against the bytes there are, the checksum,
and at last the payload of a record that sets the base.  The length is counted in bytes
of UTF-8, which shows only on lines that are refused anyhow.
-/
import UsbBoot.Record.Basic
import UsbBoot.Text.Blank
import UsbBoot.Text.Utf8

namespace UsbBoot.Record

/-- The two digits of a byte, capital letters. -/
def byteDigits (byte : UInt8) : List Char :=
  [Text.upperDigit (byte.toNat / 16), Text.upperDigit (byte.toNat % 16)]

def line (record : Record) : List Char :=
  ':' :: (record.header ++ record.payload ++ [record.checksum]).flatMap byteDigits

/-- The bytes that pairs of digits spell, or `none` when something is no digit or no pair. -/
def bytesOf? : List Char → Option (List UInt8)
  | [] => some []
  | [_] => none
  | high :: low :: rest =>
    match Text.digitOf? 16 high, Text.digitOf? 16 low with
    | some h, some l => (bytesOf? rest).map ((h * 16 + l).toUInt8 :: ·)
    | _, _ => none

/-- What is in a record besides its payload: count, address, tag and checksum. -/
def overhead : Nat := 5

/-- The record that the bytes of a line make up. -/
def ofBytes (bytes : List UInt8) : Except Fault Record :=
  match bytes with
  | count :: high :: low :: tag :: rest =>
    -- Where the checksum stands is not known before the count is found to be right.
    if bytes.length < count.toNat + overhead then .error .truncated
    else if count.toNat + overhead < bytes.length then .error .trailing
    else
      let payload := rest.take count.toNat
      let actual := rest.getD count.toNat 0
      let expected := checksumOf ([count, high, low, tag] ++ payload)
      if actual ≠ expected then .error (.checksum expected actual)
      else if (Kind.ofTag tag).setsBase && payload.length != 2 then .error .badBase
      else .ok ⟨Kind.ofTag tag, addressOf high low, payload, actual⟩
  | _ => .error .truncated

def parse (text : List Char) : Except Fault Record :=
  match Text.trimEnd text with
  | ':' :: digits =>
    -- Bytes of the text are counted here, though a digit is one character.
    if Text.encodedLength digits % 2 ≠ 0 then .error .oddDigits
    else match bytesOf? digits with
      | none => .error .invalidDigit
      | some bytes => ofBytes bytes
  | _ => .error .missingStart

end UsbBoot.Record
