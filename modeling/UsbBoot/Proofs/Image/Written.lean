/-
What written records say.

A segment is cut into the payloads of its records.  The pieces are contiguous, make up the
bytes of the segment, and none of them is empty; so an empty segment leaves no piece at all.
Cuts are made where a record is full and where a page ends, which is where the upper half of the
addresses changes.  Each piece goes into one data record, and the records follow from the pieces
alone.

They say exactly that, provided the base in force is the one the writer has in mind: the
invariant of the whole recursion is that the two never part, from one record to the next and
from one segment to the next.

Behind the last address the writer's address starts over at zero.  That happens at the end of
a run only, where nothing is left to be placed.
-/
import Mathlib.Data.List.Forall2
import UsbBoot.Image.Writer
import UsbBoot.Proofs.Image.Contents
import UsbBoot.Proofs.Image.Joined

namespace UsbBoot

/-! ### Pieces of a segment -/

/-- Pieces that a segment was cut into. -/
structure Segment.CutInto (segment : Segment) (pieces : List Segment) : Prop where
  contiguous : Contiguous segment.base.toNat pieces
  bytes : bytesOf pieces = segment.bytes
  solid : ∀ piece ∈ pieces, piece.bytes ≠ []

/-- Pieces that some segments were cut into, one segment after the other. -/
inductive CutsInto : List Segment → List Segment → Prop
  | nil : CutsInto [] []
  | cons {segment : Segment} {pieces rest others : List Segment}
    (hcut : segment.CutInto pieces) (hrest : CutsInto rest others) :
    CutsInto (segment :: rest) (pieces ++ others)

theorem Segment.CutInto.placedOf {segment : Segment} {pieces : List Segment}
    (h : segment.CutInto pieces) : placedOf pieces = segment.placed := by
  rw [h.contiguous.placedOf, h.bytes]
  rfl

theorem Contiguous.stop_le {address : Nat} {pieces : List Segment}
    (h : Contiguous address pieces) :
    ∀ piece ∈ pieces, piece.stop ≤ address + (bytesOf pieces).length := by
  induction pieces generalizing address with
  | nil => exact nofun
  | cons first rest ih =>
      intro piece hmem
      obtain ⟨hbase, hrest⟩ := h
      have hlength : (bytesOf (first :: rest)).length = first.length + (bytesOf rest).length := by
        simp [Segment.length]
      rcases List.mem_cons.mp hmem with rfl | hmem
      · rw [Segment.stop, hbase, hlength]
        omega
      · have hle := ih hrest piece hmem
        omega

theorem Segment.CutInto.fits {segment : Segment} {pieces : List Segment}
    (h : segment.CutInto pieces) (hfits : segment.Fits) : ∀ piece ∈ pieces, piece.Fits := by
  intro piece hmem
  have hstop := h.contiguous.stop_le piece hmem
  rw [h.bytes] at hstop
  exact Nat.le_trans hstop hfits

/-- Pieces that go on where a segment ends are all put to it. -/
theorem joinAfter_contiguous {last : Segment} {pieces : List Segment}
    (h : Contiguous last.stop pieces) (rest : List Segment) :
    joinAfter (some last) (pieces ++ rest)
      = joinAfter (some (last.extend (bytesOf pieces))) rest := by
  induction pieces generalizing last with
  | nil => simp [Segment.extend]
  | cons next others ih =>
      obtain ⟨htouch, hothers⟩ := h
      have hstop : (last.extend next.bytes).stop = last.stop + next.length := by
        rw [Segment.stop_extend htouch, Segment.stop, htouch]
      rw [List.cons_append, joinAfter, if_pos htouch, ih (hstop ▸ hothers)]
      simp [Segment.extend]

theorem Segment.CutInto.joinAfter {segment : Segment} {pieces : List Segment}
    (h : segment.CutInto pieces) (hsolid : segment.bytes ≠ []) (last : Option Segment)
    (rest : List Segment) : joinAfter last (pieces ++ rest) = joinAfter last (segment :: rest) := by
  obtain ⟨hcontiguous, hbytes, -⟩ := h
  cases pieces with
  | nil => exact absurd hbytes.symm hsolid
  | cons first others =>
      obtain ⟨hbase, hothers⟩ := hcontiguous
      have hstop : first.stop = segment.base.toNat + first.length := by rw [Segment.stop, hbase]
      have hwhole : first.extend (bytesOf others) = segment := by
        obtain ⟨base, bytes⟩ := segment
        rw [Segment.extend, UInt32.toNat_inj.mp hbase, ← bytesOf_cons, hbytes]
      have hopened := joinAfter_contiguous (hstop ▸ hothers) rest
      rw [hwhole] at hopened
      rw [List.cons_append]
      -- The first piece starts where the segment does, so both are put to the same one.
      cases last with
      | none => exact hopened
      | some last =>
          rw [UsbBoot.joinAfter, UsbBoot.joinAfter]
          by_cases htouch : first.base.toNat = last.stop
          · have hend : (last.extend first.bytes).stop = segment.base.toNat + first.length := by
              rw [Segment.stop_extend htouch, hstop]
            rw [if_pos htouch, if_pos (hbase.symm.trans htouch),
              joinAfter_contiguous (hend ▸ hothers), ← hbytes]
            simp [Segment.extend]
          · rw [if_neg htouch, if_neg (hbase ▸ htouch), hopened]

theorem Segment.CutInto.eq_nil {segment : Segment} {pieces : List Segment}
    (h : segment.CutInto pieces) (hempty : segment.bytes = []) : pieces = [] := by
  cases pieces with
  | nil => rfl
  | cons first others =>
      have hbytes := h.bytes.trans hempty
      rw [bytesOf_cons, List.append_eq_nil_iff] at hbytes
      exact absurd hbytes.1 (h.solid first List.mem_cons_self)

section Front

variable {address : UInt32} {bytes : List UInt8} {count : Nat}
  (hfits : (Segment.mk address bytes).Fits)
include hfits

theorem Segment.CutInto.front {pieces : List Segment} (hpos : 0 < count)
    (hle : count ≤ bytes.length)
    (h : (Segment.mk (address + count.toUInt32) (bytes.drop count)).CutInto pieces) :
    (Segment.mk address bytes).CutInto (⟨address, bytes.take count⟩ :: pieces) := by
  have htaken : (bytes.take count).length = count := by rw [List.length_take]; omega
  refine ⟨⟨rfl, ?_⟩, ?_, ?_⟩
  · by_cases hlt : count < bytes.length
    · have hnext := hfits.toNat_next hlt
      have hrest := h.contiguous
      rw [hnext] at hrest
      rwa [Segment.length, htaken]
    · -- Nothing is left to be placed, so it does not matter where addresses start over.
      rw [h.eq_nil (List.drop_eq_nil_of_le (Nat.le_of_not_lt hlt))]
      trivial
  · rw [bytesOf_cons, h.bytes]
    exact List.take_append_drop count bytes
  · refine List.forall_mem_cons.mpr ⟨?_, h.solid⟩
    rw [← List.length_pos_iff, htaken]
    exact hpos

end Front

/-- The segments that hold something. -/
def solidOf (segments : List Segment) : List Segment :=
  segments.filter (!·.isEmpty)

theorem solidOf_cons (segment : Segment) (rest : List Segment) :
    solidOf (segment :: rest)
      = if segment.bytes = [] then solidOf rest else segment :: solidOf rest := by
  rw [solidOf, solidOf, List.filter_cons]
  by_cases hempty : segment.bytes = []
  · simp [Segment.isEmpty, hempty]
  · simp [Segment.isEmpty, hempty]

theorem CutsInto.placedOf {segments pieces : List Segment} (h : CutsInto segments pieces) :
    placedOf pieces = placedOf (solidOf segments) := by
  induction h with
  | nil => rfl
  | @cons segment pieces rest others hcut _ ih =>
      rw [solidOf_cons]
      by_cases hempty : segment.bytes = []
      · rw [if_pos hempty, hcut.eq_nil hempty, List.nil_append, ih]
      · rw [if_neg hempty, placedOf_append, hcut.placedOf, ih, placedOf_cons]

theorem CutsInto.joinAfter {segments pieces : List Segment} (h : CutsInto segments pieces)
    (last : Option Segment) : joinAfter last pieces = joinAfter last (solidOf segments) := by
  induction h generalizing last with
  | nil => rfl
  | @cons segment pieces rest others hcut _ ih =>
      rw [solidOf_cons]
      by_cases hempty : segment.bytes = []
      · rw [if_pos hempty, hcut.eq_nil hempty, List.nil_append, ih]
      · rw [if_neg hempty, hcut.joinAfter hempty]
        cases last with
        | none => exact ih (some segment)
        | some last => rw [UsbBoot.joinAfter, UsbBoot.joinAfter, ih, ih]

theorem CutsInto.joined {segments pieces : List Segment} (h : CutsInto segments pieces) :
    joined pieces = joined (solidOf segments) :=
  h.joinAfter none

theorem CutsInto.apart_iff {segments pieces : List Segment} (h : CutsInto segments pieces) :
    pieces.Pairwise Segment.Apart ↔ (solidOf segments).Pairwise Segment.Apart := by
  rw [pairwise_apart_iff, pairwise_apart_iff, addressesOf, addressesOf, h.placedOf]

theorem CutsInto.fits {segments pieces : List Segment} (h : CutsInto segments pieces)
    (hfits : ∀ segment ∈ segments, segment.Fits) : ∀ piece ∈ pieces, piece.Fits := by
  induction h with
  | nil => exact nofun
  | cons hcut _ ih =>
      obtain ⟨hfirst, hrest⟩ := List.forall_mem_cons.mp hfits
      exact List.forall_mem_append.mpr ⟨hcut.fits hfirst, ih hrest⟩

/-! ### Pieces for records -/

section

open Image (pageSize recordTake)

/-- A piece that one record of at most `limit` bytes can carry. -/
structure Segment.FitsRecord (limit : Nat) (piece : Segment) : Prop where
  solid : piece.bytes ≠ []
  short : piece.length ≤ limit
  /-- It lies on the page of its first byte. -/
  onPage : piece.base.toNat % pageSize + piece.length ≤ pageSize

/-- Pieces that a segment was cut into, each for one record of at most `limit` bytes. -/
structure Segment.CutForRecords (limit : Nat) (segment : Segment) (pieces : List Segment) :
    Prop where
  cut : segment.CutInto pieces
  each : ∀ piece ∈ pieces, piece.FitsRecord limit
  /-- None could be longer: it fills its record, or ends its segment or its page. -/
  full : ∀ piece ∈ pieces,
    piece.length = limit ∨ piece.stop = segment.stop ∨ piece.stop % pageSize = 0

theorem Segment.fitsRecord_of_cuts {limit : Nat} {segments : List Segment}
    {cuts : List (List Segment)}
    (h : List.Forall₂ (Segment.CutForRecords limit) segments cuts) :
    ∀ piece ∈ cuts.flatten, piece.FitsRecord limit := by
  induction h with
  | nil => exact nofun
  | cons hcut _ ih =>
      rw [List.flatten_cons]
      exact List.forall_mem_append.mpr ⟨hcut.each, ih⟩

theorem Segment.cutsInto_of_cuts {limit : Nat} {segments : List Segment}
    {cuts : List (List Segment)}
    (h : List.Forall₂ (Segment.CutForRecords limit) segments cuts) :
    CutsInto segments cuts.flatten := by
  induction h with
  | nil => exact .nil
  | cons hcut _ ih => exact .cons hcut.cut ih

theorem Image.recordTake_bounds (limit : Image.RecordLength) (address : UInt32) {left : Nat}
    (hleft : 0 < left) :
    0 < recordTake limit.value address left ∧ recordTake limit.value address left ≤ left ∧
      recordTake limit.value address left ≤ limit.value := by
  have hle : recordTake limit.value address left ≤ min left limit.value := Nat.min_le_left ..
  refine ⟨Image.recordTake_pos address limit.pos hleft, ?_, ?_⟩
  · exact Nat.le_trans hle (Nat.min_le_left ..)
  · exact Nat.le_trans hle (Nat.min_le_right ..)

/-- A record takes all that is left, as much as it may have, or all up to the end of the page. -/
theorem Image.recordTake_eq (limit : Nat) (address : UInt32) (left : Nat) :
    recordTake limit address left = left ∨ recordTake limit address left = limit ∨
      (address.toNat + recordTake limit address left) % pageSize = 0 := by
  unfold recordTake pageSize
  omega

theorem Image.recordTake_onPage (limit : Nat) (address : UInt32) (left : Nat) :
    address.toNat % pageSize + recordTake limit address left ≤ pageSize := by
  unfold recordTake pageSize
  omega

theorem Segment.cutForRecords_nil (limit : Nat) (address : UInt32) :
    (Segment.mk address []).CutForRecords limit [] :=
  ⟨⟨trivial, rfl, nofun⟩, nofun, nofun⟩

/-- The first piece is what a record takes, the others are those of what it leaves. -/
theorem Segment.CutForRecords.front {limit : Image.RecordLength} {address : UInt32}
    {bytes : List UInt8} {count : Nat} {pieces : List Segment}
    (hfits : (Segment.mk address bytes).Fits) (hne : bytes ≠ [])
    (hcount : count = recordTake limit.value address bytes.length)
    (h : (Segment.mk (address + count.toUInt32) (bytes.drop count)).CutForRecords limit.value
      pieces) :
    (Segment.mk address bytes).CutForRecords limit.value
      (⟨address, bytes.take count⟩ :: pieces) := by
  obtain ⟨hpos, hle, hmost⟩ :=
    Image.recordTake_bounds limit address (List.length_pos_iff.mpr hne)
  rw [← hcount] at hpos hle hmost
  have hlength : (Segment.mk address (bytes.take count)).length = count := by
    rw [Segment.length, List.length_take]
    omega
  refine ⟨.front hfits hpos hle h.cut, List.forall_mem_cons.mpr ⟨⟨?_, ?_, ?_⟩, h.each⟩,
    List.forall_mem_cons.mpr ⟨?_, ?_⟩⟩
  · exact List.ne_nil_of_length_pos (Nat.lt_of_lt_of_eq hpos hlength.symm)
  · rw [hlength]
    exact hmost
  · rw [hlength, hcount]
    exact Image.recordTake_onPage ..
  · rw [Segment.stop, hlength]
    rcases Image.recordTake_eq limit.value address bytes.length with hall | hmost | hpage
    · exact .inr (.inl (congrArg (address.toNat + ·) (hcount.trans hall)))
    · exact .inl (hcount.trans hmost)
    · exact .inr (.inr (hcount ▸ hpage))
  · by_cases hlast : count < bytes.length
    · -- What is left ends where all of it ends.
      have hstop : (Segment.mk (address + count.toUInt32) (bytes.drop count)).stop
          = (Segment.mk address bytes).stop := by
        simp only [Segment.stop, Segment.length, hfits.toNat_next hlast, List.length_drop]
        omega
      rw [← hstop]
      exact h.full
    · rw [h.cut.eq_nil (List.drop_eq_nil_of_le (Nat.le_of_not_lt hlast))]
      exact List.forall_mem_nil _

end

namespace Record

/-! ### Single records -/

theorem isSound_sound (kind : Kind) (address : UInt16) (payload : List UInt8) :
    (sound kind address payload).isSound = true := by
  simp [isSound, sound, expectedChecksum, header]

theorem legible_sound {kind : Kind} (address : UInt16) {payload : List UInt8}
    (hshort : payload.length < byteLimit) (hkind : kind.IsCanonical)
    (hbase : kind.setsBase = true → payload.length = 2) :
    (sound kind address payload).Legible :=
  ⟨hshort, isSound_sound kind address payload, hkind, hbase⟩

theorem legible_data (address : UInt16) {payload : List UInt8}
    (h : payload.length < byteLimit) : (data address payload).Legible :=
  legible_sound address h (by decide) nofun

theorem legible_extendedLinear (upper : UInt16) : (extendedLinear upper).Legible :=
  legible_sound 0 (by simp [addressBytes, byteLimit]) (by decide) fun _ => rfl

theorem legible_endOfFile : endOfFile.Legible :=
  legible_sound 0 (by decide) (by decide) nofun

theorem selects?_extendedLinear (upper : UInt16) :
    ∃ base, (extendedLinear upper).selects? = some base ∧
      base.value = upper.toNat * Image.pageSize := by
  simp only [extendedLinear, sound, addressBytes, selects?, addressOf_addressBytes]
  exact ⟨_, rfl, rfl⟩

end Record

namespace Image

/-! ### The records of pieces -/

theorem toNat_upperHalf (address : UInt32) :
    (upperHalf address).toNat * pageSize + address.toUInt16.toNat = address.toNat := by
  have hlt := address.toNat_lt
  rw [upperHalf, UInt32.toNat_toUInt16, UInt32.toNat_toUInt16, UInt32.toNat_shiftRight, pageSize]
  show address.toNat >>> 16 % 2 ^ 16 * 0x10000 + address.toNat % 2 ^ 16 = _
  rw [Nat.shiftRight_eq_div_pow]
  omega

/-- The record, if one is called for, that takes the reader from one upper half to another. -/
def turnRecords (upper here : UInt16) : List Record :=
  if here = upper then [] else [.extendedLinear here]

/-- The records of some pieces while a page is in force: one for each, behind the record that
turns to its page if that is another one. -/
def pagedRecords : UInt16 → List Segment → List Record
  | _, [] => []
  | page, piece :: rest =>
    turnRecords page (upperHalf piece.base) ++
      Record.data piece.base.toUInt16 piece.bytes :: pagedRecords (upperHalf piece.base) rest

/-- The page in force after the records of some pieces. -/
def pageAfter : UInt16 → List Segment → UInt16
  | page, [] => page
  | _, piece :: rest => pageAfter (upperHalf piece.base) rest

theorem pagedRecords_append (page : UInt16) (xs ys : List Segment) :
    pagedRecords page (xs ++ ys) = pagedRecords page xs ++ pagedRecords (pageAfter page xs) ys := by
  induction xs generalizing page with
  | nil => rfl
  | cons piece rest ih =>
      rw [List.cons_append, pagedRecords, pagedRecords, ih, pageAfter, List.append_assoc]
      rfl

/-- The records of a run are those of pieces that the run was cut into. -/
theorem exists_cut_runRecords (limit : RecordLength) (page : UInt16) (address : UInt32)
    (bytes : List UInt8) (hfits : (Segment.mk address bytes).Fits) :
    ∃ pieces, (Segment.mk address bytes).CutForRecords limit.value pieces ∧
      runRecords limit page address bytes = (pagedRecords page pieces, pageAfter page pieces) := by
  fun_induction runRecords limit page address bytes with
  | case1 page address => exact ⟨[], Segment.cutForRecords_nil limit.value address, rfl⟩
  | case2 address first rest here count records last hrun record ih =>
      obtain ⟨pieces, hcut, hrecords⟩ := ih hfits.drop
      obtain ⟨rfl, rfl⟩ := Prod.mk.inj (hrun.symm.trans hrecords)
      refine ⟨_, hcut.front hfits (List.cons_ne_nil first rest) rfl, ?_⟩
      rw [pagedRecords, pageAfter, turnRecords, if_pos rfl]
      rfl
  | case3 page address first rest here count records last hrun record hturn ih =>
      obtain ⟨pieces, hcut, hrecords⟩ := ih hfits.drop
      obtain ⟨rfl, rfl⟩ := Prod.mk.inj (hrun.symm.trans hrecords)
      refine ⟨_, hcut.front hfits (List.cons_ne_nil first rest) rfl, ?_⟩
      rw [pagedRecords, pageAfter, turnRecords, if_neg hturn]
      rfl

/-- Segments go into the records of their pieces, one segment after the other. -/
theorem exists_cuts_segmentRecords (limit : RecordLength) (page : UInt16)
    {segments : List Segment} (hfits : ∀ segment ∈ segments, segment.Fits) :
    ∃ cuts, segmentRecords limit page segments = pagedRecords page cuts.flatten ∧
      List.Forall₂ (Segment.CutForRecords limit.value) segments cuts := by
  induction segments generalizing page with
  | nil => exact ⟨[], rfl, .nil⟩
  | cons segment rest ih =>
      obtain ⟨hfirst, hrest⟩ := List.forall_mem_cons.mp hfits
      obtain ⟨pieces, hcut, hrun⟩ :=
        exists_cut_runRecords limit page segment.base segment.bytes hfirst
      obtain ⟨cuts, hrecords, hcuts⟩ := ih (pageAfter page pieces) hrest
      refine ⟨pieces :: cuts, ?_, .cons hcut hcuts⟩
      rw [segmentRecords, hrun, List.flatten_cons, pagedRecords_append, ← hrecords]

/-! ### The base in force -/

/-- Whether the base that records leave in force is the one of an upper half. -/
def InForce (upper : UInt16) (earlier : List Record) : Prop :=
  (baseAfter earlier).value = upper.toNat * pageSize

/-- Turning to another upper half places nothing. -/
theorem InForce.turn {upper : UInt16} {earlier : List Record} (h : InForce upper earlier)
    (here : UInt16) :
    contentsAfter earlier (turnRecords upper here) = [] ∧
      InForce here (earlier ++ turnRecords upper here) := by
  rw [turnRecords]
  by_cases hsame : here = upper
  · rw [if_pos hsame, List.append_nil, hsame]
    exact ⟨rfl, h⟩
  · rw [if_neg hsame]
    obtain ⟨base, hselects, hvalue⟩ := Record.selects?_extendedLinear here
    constructor
    · have hsilent : ¬(Record.extendedLinear here).Carries := by
        rintro ⟨hkind, -⟩
        cases hkind
      rw [contentsAfter, if_neg hsilent, contentsAfter]
    · rw [InForce, baseAfter_append_singleton, hselects]
      exact hvalue

/-- Where its upper half is in force, a data record puts its bytes at the address meant. -/
theorem InForce.placed {earlier : List Record} {address : UInt32}
    (h : InForce (upperHalf address) earlier) {payload : List UInt8} (hpayload : payload ≠ []) :
    contentsAfter earlier [Record.data address.toUInt16 payload] = [⟨address, payload⟩] ∧
      InForce (upperHalf address) (earlier ++ [Record.data address.toUInt16 payload]) := by
  have hcarries : (Record.data address.toUInt16 payload).Carries := ⟨rfl, hpayload⟩
  constructor
  · rw [contentsAfter, if_pos hcarries, contentsAfter]
    have hbase : ((Record.data address.toUInt16 payload).placedAt (baseAfter earlier)).base
        = address := by
      rw [← UInt32.toNat_inj, Record.toNat_base_placedAt, h]
      exact toNat_upperHalf address
    exact congrArg (fun base => [Segment.mk base payload]) hbase
  · rw [InForce, baseAfter_append_singleton]
    exact h

theorem InForce.pagedRecords {page : UInt16} {earlier : List Record} (h : InForce page earlier)
    {pieces : List Segment} (hsolid : ∀ piece ∈ pieces, piece.bytes ≠ []) :
    contentsAfter earlier (pagedRecords page pieces) = pieces ∧
      InForce (pageAfter page pieces) (earlier ++ Image.pagedRecords page pieces) := by
  induction pieces generalizing page earlier with
  | nil => exact ⟨rfl, by rwa [Image.pagedRecords, List.append_nil]⟩
  | cons piece rest ih =>
      obtain ⟨hfirst, hrest⟩ := List.forall_mem_cons.mp hsolid
      obtain ⟨hsilent, hturned⟩ := h.turn (upperHalf piece.base)
      obtain ⟨hpiece, hplaced⟩ := hturned.placed hfirst
      obtain ⟨hcontents, hlast⟩ := ih hplaced hrest
      rw [Image.pagedRecords, pageAfter, List.append_cons, contentsAfter_append,
        contentsAfter_append, hsilent, hpiece, ← List.append_assoc, hcontents]
      exact ⟨rfl, by simpa only [List.append_assoc] using hlast⟩

theorem InForce.segmentRecords (limit : RecordLength) {upper : UInt16}
    {segments : List Segment} {earlier : List Record} (h : InForce upper earlier)
    (hfits : ∀ segment ∈ segments, segment.Fits) :
    CutsInto segments (contentsAfter earlier (segmentRecords limit upper segments)) := by
  obtain ⟨cuts, hrecords, hcuts⟩ := exists_cuts_segmentRecords limit upper hfits
  have hsolid := fun piece hmem => (Segment.fitsRecord_of_cuts hcuts piece hmem).solid
  rw [hrecords, (h.pagedRecords hsolid).1]
  exact Segment.cutsInto_of_cuts hcuts

theorem inForce_initial : InForce 0 [] :=
  rfl

/-! ### Whether they can be read -/

/-- A record that a line can hold and that does not end the image. -/
structure Goes (record : Record) : Prop where
  legible : record.Legible
  more : record.kind ≠ .endOfFile

theorem goes_turnRecords (upper here : UInt16) :
    ∀ record ∈ turnRecords upper here, Goes record := by
  intro record hmem
  rw [turnRecords] at hmem
  by_cases hsame : here = upper
  · rw [if_pos hsame] at hmem
    cases hmem
  · rw [if_neg hsame, List.mem_singleton] at hmem
    subst hmem
    exact ⟨Record.legible_extendedLinear here, nofun⟩

theorem goes_pagedRecords {limit : Nat} (hlimit : limit < byteLimit) (page : UInt16)
    {pieces : List Segment} (h : ∀ piece ∈ pieces, piece.FitsRecord limit) :
    ∀ record ∈ pagedRecords page pieces, Goes record := by
  induction pieces generalizing page with
  | nil => exact nofun
  | cons piece rest ih =>
      obtain ⟨hfirst, hrest⟩ := List.forall_mem_cons.mp h
      have hshort : piece.bytes.length < byteLimit := Nat.lt_of_le_of_lt hfirst.short hlimit
      rw [pagedRecords, List.forall_mem_append, List.forall_mem_cons]
      exact ⟨goes_turnRecords page _, ⟨Record.legible_data _ hshort, nofun⟩, ih _ hrest⟩

theorem goes_segmentRecords (limit : RecordLength) (upper : UInt16) {segments : List Segment}
    (hfits : ∀ segment ∈ segments, segment.Fits) :
    ∀ record ∈ segmentRecords limit upper segments, Goes record := by
  obtain ⟨cuts, hrecords, hcuts⟩ := exists_cuts_segmentRecords limit upper hfits
  rw [hrecords]
  exact goes_pagedRecords limit.lt_byteLimit upper (Segment.fitsRecord_of_cuts hcuts)

end Image
end UsbBoot
