/-
Writing an image as Intel HEX.

Each segment is cut into data records, which never cross a boundary of 64 KiB, since the
address in a record has sixteen bits only.  The upper half of the addresses is written
whenever it changes; before the first record it counts as zero.
-/
import UsbBoot.Image.Basic
import UsbBoot.Record.Line

namespace UsbBoot.Image

/-- The number of addresses that share their upper half. -/
def pageSize : Nat := 0x10000

/-- The length of a data record where none is asked for. -/
def defaultRecordLength : Nat := 16

/-- How many bytes a record carries at most: one or more, and no more than its count byte can
state. -/
structure RecordLength where
  value : Nat
  pos : 0 < value
  lt_byteLimit : value < byteLimit

/-- The length a record can have that is closest to the one wanted. -/
def RecordLength.closest (wanted : Nat) : RecordLength where
  value := min (max wanted 1) 255
  pos := by omega
  lt_byteLimit := by unfold byteLimit; omega

/-- The upper half of an address. -/
def upperHalf (address : UInt32) : UInt16 :=
  (address >>> 16).toUInt16

/-- How many bytes the next record takes, of `left` bytes that start at `address`. -/
def recordTake (limit : Nat) (address : UInt32) (left : Nat) : Nat :=
  min (min left limit) (pageSize - address.toNat % pageSize)

theorem recordTake_pos {limit : Nat} (address : UInt32) {left : Nat} (hlimit : 0 < limit)
    (hleft : 0 < left) : 0 < recordTake limit address left := by
  have : address.toNat % pageSize < pageSize := Nat.mod_lt _ (by decide)
  unfold recordTake
  omega

/-- The records for bytes that start at `address` while `upper` is in force, and the upper
half in force after them. -/
def runRecords (limit : RecordLength) (upper : UInt16) (address : UInt32) (bytes : List UInt8) :
    List Record × UInt16 :=
  match bytes with
  | [] => ([], upper)
  | first :: rest =>
    let here := upperHalf address
    -- A record ends with its page, so one upper half is right for all of its bytes.
    let count := recordTake limit.value address (rest.length + 1)
    let (records, last) :=
      runRecords limit here (address + count.toUInt32) ((first :: rest).drop count)
    let record := Record.data address.toUInt16 ((first :: rest).take count)
    if here = upper then (record :: records, last)
    else (Record.extendedLinear here :: record :: records, last)
termination_by bytes.length
decreasing_by
  have : 0 < count := recordTake_pos address limit.pos (Nat.succ_pos rest.length)
  simp only [List.length_drop, List.length_cons]
  omega

/-- The records for some segments while `upper` is in force. -/
def segmentRecords (limit : RecordLength) : UInt16 → List Segment → List Record
  | _, [] => []
  | upper, segment :: rest =>
    let (records, last) := runRecords limit upper segment.base segment.bytes
    records ++ segmentRecords limit last rest

/-- The records of an image, with at most `wanted` bytes each. -/
def records (wanted : Nat) (image : Image) : List Record :=
  segmentRecords (.closest wanted) 0 image.segments ++ [Record.endOfFile]

/-- The text of an image: its records, each on a line of its own. -/
def write (wanted : Nat) (image : Image) : List Char :=
  (image.records wanted).flatMap fun record => record.line ++ ['\n']

end UsbBoot.Image
