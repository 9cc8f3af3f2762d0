/-
Nothing goes wrong while an image is cut up.

Two loops cut segments up from the front, one into what transfers carry and one into what records
carry.  A round of either works out how many bytes come next, takes them off and moves the address
on by as many.  It must take some, or the loop would never end, and no more than there are.  The
address must not start over at zero while bytes are left, or these would go to places far from
their own.

The loops are run here with all of that guarded.  Segments that were read fit within the
addresses, and what is left of one that fits does as well; so the address starts over only where
the last byte of all addresses was taken, and nothing is placed at it any more.
-/
import UsbBoot.Proofs.Chunk
import UsbBoot.Proofs.Guarded.Reading
import UsbBoot.Proofs.Image.Written

namespace UsbBoot

/-! ### One round -/

/-- What a round of a loop over some bytes comes to. -/
structure Guarded.Round (bytes : List UInt8) where
  /-- The bytes that are taken. -/
  front : List UInt8
  /-- The address of what is left. -/
  next : UInt32
  back : List UInt8
  /-- There is less left than there was. -/
  shorter : back.length < bytes.length

namespace Guarded

/-- Whether an address moves on to where a count leads, or starts over with nothing left. -/
def MovesOn (address : UInt32) (count : Nat) (next : UInt32) (back : List UInt8) : Prop :=
  next.toNat = address.toNat + count ∨
    next = 0 ∧ address.toNat + count = addressLimit ∧ back = []

instance (address : UInt32) (count : Nat) (next : UInt32) (back : List UInt8) :
    Decidable (MovesOn address count next back) :=
  inferInstanceAs (Decidable (_ ∨ _))

theorem length_drop_lt {bytes : List UInt8} {count : Nat} (hpos : 0 < count)
    (hle : count ≤ bytes.length) : (bytes.drop count).length < bytes.length := by
  rw [List.length_drop]
  omega

/-- Take a count of bytes off the front of those that start at an address. -/
def round (address : UInt32) (bytes : List UInt8) (count : Nat) : Guarded (Round bytes) :=
  let next := address + count.toUInt32
  let back := bytes.drop count
  if hpos : 0 < count then
    if hinside : count ≤ bytes.length then
      if MovesOn address count next back then
        .ok ⟨bytes.take count, next, back, length_drop_lt hpos hinside⟩
      else .error .startedOver
    else .error .outside
  else .error .standstill

section

variable {address : UInt32} {bytes : List UInt8} {count : Nat}
  (hfits : (Segment.mk address bytes).Fits)
include hfits

/-- In a segment that fits, the address starts over behind the last byte only. -/
theorem movesOn_of_fits (hle : count ≤ bytes.length) :
    MovesOn address count (address + count.toUInt32) (bytes.drop count) := by
  have hend : address.toNat + bytes.length ≤ addressLimit := hfits
  have hnext : (address + count.toUInt32).toNat = (address.toNat + count) % addressLimit := by
    rw [UInt32.toNat_add, Nat.toUInt32_eq, UInt32.toNat_ofNat', Nat.add_mod_mod]
    rfl
  rcases Nat.lt_or_eq_of_le (Nat.le_trans (Nat.add_le_add_left hle _) hend) with hbelow | hlast
  · exact .inl (hnext.trans (Nat.mod_eq_of_lt hbelow))
  · refine .inr ⟨?_, hlast, List.drop_eq_nil_of_le (by omega)⟩
    rw [← UInt32.toNat_inj, hnext, hlast, Nat.mod_self]
    rfl

theorem round_eq (hpos : 0 < count) (hle : count ≤ bytes.length) :
    round address bytes count = .ok ⟨bytes.take count, address + count.toUInt32,
      bytes.drop count, length_drop_lt hpos hle⟩ := by
  rw [round, dif_pos hpos, dif_pos hle, if_pos (movesOn_of_fits hfits hle)]

end

end Guarded

open Guarded

/-! ### Chunks -/

/-- As `Chunk.take`; the edge after an address is asked to lie after it. -/
def Chunk.takeGuarded (profile : Chip.Profile) (limit : Option Nat) (address : UInt32)
    (left : Nat) : Guarded Nat :=
  match profile.nextEdge? address with
  | none => .ok (limited limit left)
  | some edge => do
    let room ← minus edge.toNat address.toNat
    .ok (min (limited limit left) room)

def runChunksGuarded (profile : Chip.Profile) (limit : Option Nat) (address : UInt32)
    (bytes : List UInt8) : Guarded (List Chunk) :=
  match bytes with
  | [] => .ok []
  | first :: rest => do
    let count ← Chunk.takeGuarded profile limit address (rest.length + 1)
    let round ← round address (first :: rest) count
    let later ← runChunksGuarded profile limit round.next round.back
    .ok (⟨address, round.front, profile.holds address count⟩ :: later)
termination_by bytes.length
decreasing_by exact round.shorter

def chunksGuarded (profile : Chip.Profile) (limit : Option Nat) :
    List Segment → Guarded (List Chunk)
  | [] => .ok []
  | segment :: rest => do
    let chunks ← runChunksGuarded profile limit segment.base segment.bytes
    let later ← chunksGuarded profile limit rest
    .ok (chunks ++ later)

theorem Chunk.takeGuarded_eq (profile : Chip.Profile) (limit : Option Nat) (address : UInt32)
    (left : Nat) :
    takeGuarded profile limit address left = .ok (take profile limit address left) := by
  rw [takeGuarded, take]
  cases hedge : profile.nextEdge? address with
  | none => rfl
  | some edge =>
      have hafter := UInt32.lt_iff_toNat_lt.mp (Chip.Profile.lt_of_nextEdge? hedge)
      dsimp only
      rw [minus_eq (Nat.le_of_lt hafter), ok_bind]

theorem runChunksGuarded_eq (profile : Chip.Profile) (limit : Option Nat) {address : UInt32}
    {bytes : List UInt8} (hfits : (Segment.mk address bytes).Fits) :
    runChunksGuarded profile limit address bytes = .ok (runChunks profile limit address bytes) := by
  -- By the rounds of the loop; that what is left fits is the invariant.
  fun_induction runChunks profile limit address bytes with
  | case1 => rw [runChunksGuarded]
  | case2 address first rest count ih =>
      have hpos : 0 < count := Chunk.take_pos profile limit address (Nat.succ_pos rest.length)
      have hle : count ≤ rest.length + 1 := Chunk.take_le profile limit address (rest.length + 1)
      rw [runChunksGuarded, Chunk.takeGuarded_eq, ok_bind, round_eq hfits hpos hle, ok_bind,
        ih hfits.drop, ok_bind]

/-- Where a segment does not fit, the guards do tell. -/
example : runChunksGuarded Chip.Family.fx2.profile (some 1) 0xFFFFFFFF [0x01, 0x02]
    = .error .startedOver := by decide +kernel

theorem chunksGuarded_eq (profile : Chip.Profile) (limit : Option Nat) {segments : List Segment}
    (hfits : ∀ segment ∈ segments, segment.Fits) :
    chunksGuarded profile limit segments = .ok (chunks profile limit segments) := by
  induction segments with
  | nil => rfl
  | cons segment rest ih =>
      obtain ⟨hfirst, hrest⟩ := List.forall_mem_cons.mp hfits
      rw [chunksGuarded, runChunksGuarded_eq profile limit hfirst, ok_bind, ih hrest, ok_bind,
        chunks, chunks, List.flatMap_cons]

/-! ### Records -/

namespace Image

/-- As `recordTake`; the place on a page is asked to be on it. -/
def recordTakeGuarded (limit : Nat) (address : UInt32) (left : Nat) : Guarded Nat := do
  let room ← minus pageSize (address.toNat % pageSize)
  .ok (min (min left limit) room)

def runRecordsGuarded (limit : Nat) (upper : UInt16) (address : UInt32) (bytes : List UInt8) :
    Guarded (List Record × UInt16) :=
  match bytes with
  | [] => .ok ([], upper)
  | first :: rest => do
    let here := upperHalf address
    let count ← recordTakeGuarded limit address (rest.length + 1)
    let round ← round address (first :: rest) count
    let (records, last) ← runRecordsGuarded limit here round.next round.back
    let record := Record.data address.toUInt16 round.front
    if here = upper then .ok (record :: records, last)
    else .ok (Record.extendedLinear here :: record :: records, last)
termination_by bytes.length
decreasing_by exact round.shorter

def segmentRecordsGuarded (limit : Nat) : UInt16 → List Segment → Guarded (List Record)
  | _, [] => .ok []
  | upper, segment :: rest => do
    let (records, last) ← runRecordsGuarded limit upper segment.base segment.bytes
    let later ← segmentRecordsGuarded limit last rest
    .ok (records ++ later)

def recordsGuarded (wanted : Nat) (image : Image) : Guarded (List Record) := do
  let records ← segmentRecordsGuarded (RecordLength.closest wanted).value 0 image.segments
  .ok (records ++ [Record.endOfFile])

def writeGuarded (wanted : Nat) (image : Image) : Guarded (List Char) := do
  let records ← recordsGuarded wanted image
  .ok (records.flatMap fun record => record.line ++ ['\n'])

theorem recordTakeGuarded_eq (limit : Nat) (address : UInt32) (left : Nat) :
    recordTakeGuarded limit address left = .ok (recordTake limit address left) := by
  have hpage : address.toNat % pageSize < pageSize := Nat.mod_lt _ (by decide)
  rw [recordTakeGuarded, minus_eq (Nat.le_of_lt hpage), ok_bind, recordTake]

theorem runRecordsGuarded_eq (limit : RecordLength) (upper : UInt16) {address : UInt32}
    {bytes : List UInt8} (hfits : (Segment.mk address bytes).Fits) :
    runRecordsGuarded limit.value upper address bytes
      = .ok (runRecords limit upper address bytes) := by
  fun_induction runRecords limit upper address bytes with
  | case1 => rw [runRecordsGuarded]
  | case2 address first rest here count records last hrun record ih =>
      obtain ⟨hpos, hle, -⟩ := recordTake_bounds limit address (Nat.succ_pos rest.length)
      rw [runRecordsGuarded, recordTakeGuarded_eq, ok_bind, round_eq hfits hpos hle, ok_bind,
        ih hfits.drop, ok_bind, hrun]
      exact if_pos rfl
  | case3 upper address first rest here count records last hrun record hturn ih =>
      obtain ⟨hpos, hle, -⟩ := recordTake_bounds limit address (Nat.succ_pos rest.length)
      rw [runRecordsGuarded, recordTakeGuarded_eq, ok_bind, round_eq hfits hpos hle, ok_bind,
        ih hfits.drop, ok_bind, hrun]
      exact if_neg hturn

/-- With records that carry nothing the loop would stand still, and the guards do tell. -/
example : runRecordsGuarded 0 0 0 [0x01] = .error .standstill := by decide +kernel

theorem segmentRecordsGuarded_eq (limit : RecordLength) (upper : UInt16)
    {segments : List Segment} (hfits : ∀ segment ∈ segments, segment.Fits) :
    segmentRecordsGuarded limit.value upper segments
      = .ok (segmentRecords limit upper segments) := by
  induction segments generalizing upper with
  | nil => rfl
  | cons segment rest ih =>
      obtain ⟨hfirst, hrest⟩ := List.forall_mem_cons.mp hfits
      rw [segmentRecordsGuarded, runRecordsGuarded_eq limit upper hfirst, ok_bind]
      simp only [ih _ hrest, ok_bind, segmentRecords]

theorem recordsGuarded_eq (wanted : Nat) {image : Image}
    (hfits : ∀ segment ∈ image.segments, segment.Fits) :
    recordsGuarded wanted image = .ok (image.records wanted) := by
  rw [recordsGuarded, segmentRecordsGuarded_eq _ _ hfits, ok_bind, records]

theorem writeGuarded_eq (wanted : Nat) {image : Image}
    (hfits : ∀ segment ∈ image.segments, segment.Fits) :
    writeGuarded wanted image = .ok (write wanted image) := by
  rw [writeGuarded, recordsGuarded_eq wanted hfits, ok_bind, write]

/-! ### From the source on -/

theorem fits_of_read {source : Source} {image : Image} (h : read source = .ok image) :
    ∀ segment ∈ image.segments, segment.Fits := by
  obtain ⟨records, -, hfits, -, rfl⟩ := (read_eq_ok_iff source image).mp h
  exact fits_joined hfits

/--
**Nothing goes wrong, from the first byte of a source to the last line written of its image.**

With every step guarded, a text is taken for the record that it is or refused as it would be,
whatever its digits say of its length, and a source is read or refused as it would be, whatever
its bytes are and whichever bases its records select.  An image that was read is cut into the
same chunks for any part and any limit, and written as the same text with records of any length.
-/
theorem read_withoutMishap :
    (∀ text, Record.parseGuarded text = .ok (Record.parse text)) ∧
    ∀ source, readGuarded source = .ok (read source) ∧
      ∀ image, read source = .ok image →
        (∀ profile limit, chunksGuarded profile limit image.segments
          = .ok (chunks profile limit image.segments)) ∧
        ∀ wanted, writeGuarded wanted image = .ok (write wanted image) := by
  refine ⟨Record.parseGuarded_eq, fun source => ⟨readGuarded_eq source, fun image hread => ?_⟩⟩
  have hfits := fits_of_read hread
  exact ⟨fun profile limit => chunksGuarded_eq profile limit hfits,
    fun wanted => writeGuarded_eq wanted hfits⟩

/-- A file whose last byte goes to the last address. -/
def brimming : List Char :=
  [":02000004FFFFFC", ":02FFFE000102FE", ":00000001FF"].flatMap fun line : String =>
    line.toList ++ ['\n']

theorem read_withoutMishap_brimming :
    let image : Image := ⟨[⟨0xFFFFFFFE, [0x01, 0x02]⟩]⟩
    read (.ofText brimming) = .ok image ∧ readGuarded (.ofText brimming) = .ok (.ok image) ∧
      chunksGuarded Chip.Family.fx2.profile (some 1) image.segments
        = .ok [⟨0xFFFFFFFE, [0x01], false⟩, ⟨0xFFFFFFFF, [0x02], false⟩] ∧
      writeGuarded 16 image = .ok brimming := by
  intro image
  have hread : read (.ofText brimming) = .ok image := by decide +kernel
  have hchunks : chunks Chip.Family.fx2.profile (some 1) image.segments
      = [⟨0xFFFFFFFE, [0x01], false⟩, ⟨0xFFFFFFFF, [0x02], false⟩] := by decide +kernel
  have hwritten : write 16 image = brimming := by decide +kernel
  obtain ⟨hguarded, hcut⟩ := read_withoutMishap.2 (.ofText brimming)
  obtain ⟨hsplit, hwrite⟩ := hcut image hread
  exact ⟨hread, hread ▸ hguarded, hchunks ▸ hsplit _ _, hwritten ▸ hwrite 16⟩

end Image
end UsbBoot
