/-
Firmware images.

An image is a list of segments, runs of bytes at consecutive addresses, in the order of
the file they came from.  Addresses have thirty-two bits; the end of a segment is a
plain number, because a segment may end just past the last address.

The view of an image is the byte it puts at an address.  Everything that cuts an image
up or puts it together again is stated against that view.
-/
import UsbBoot.Count

namespace UsbBoot

/-- The number of addresses. -/
def addressLimit : Nat := longLimit

/-- A run of bytes at consecutive addresses. -/
structure Segment where
  /-- The address of the first byte. -/
  base : UInt32
  bytes : List UInt8
  deriving DecidableEq, Repr

namespace Segment

def length (segment : Segment) : Nat :=
  segment.bytes.length

/-- One past the last address covered. -/
def stop (segment : Segment) : Nat :=
  segment.base.toNat + segment.length

/-- Whether the segment holds no bytes. -/
def isEmpty (segment : Segment) : Bool :=
  segment.bytes.isEmpty

/-- Whether the segment meets the range of `length` addresses from `address` on. -/
def meets (segment : Segment) (address : UInt32) (length : Nat) : Bool :=
  address.toNat < segment.stop && segment.base.toNat < address.toNat + length

/-- The segment with more bytes at its end. -/
def extend (segment : Segment) (bytes : List UInt8) : Segment :=
  { segment with bytes := segment.bytes ++ bytes }

/-- The byte a segment puts at an address. -/
def byteAt? (segment : Segment) (address : Nat) : Option UInt8 :=
  if segment.base.toNat ≤ address then segment.bytes[address - segment.base.toNat]? else none

/-- Whether all addresses of the segment exist. -/
def Fits (segment : Segment) : Prop :=
  segment.stop ≤ addressLimit

instance (segment : Segment) : Decidable segment.Fits :=
  inferInstanceAs (Decidable (segment.stop ≤ addressLimit))

end Segment

structure Image where
  /-- The segments, in file order. -/
  segments : List Segment
  deriving DecidableEq, Repr

namespace Image

def length (image : Image) : Nat :=
  total (image.segments.map Segment.length)

/-- Whether no segment holds a byte. -/
def isEmpty (image : Image) : Bool :=
  image.segments.all Segment.isEmpty

/-- The byte an image puts at an address; of segments that meet there, the last one counts. -/
def byteAt? (image : Image) (address : Nat) : Option UInt8 :=
  image.segments.reverse.findSome? (Segment.byteAt? · address)

end Image
end UsbBoot
