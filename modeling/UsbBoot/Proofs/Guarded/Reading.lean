/-
Nothing goes wrong while an image is read.

Some steps of the reader make sense only where a condition holds.  A byte that is looked at has
to be there, a stretch has to lie within the bytes it is cut from, and the sum of a base and an
offset has to be an address.  As the reader is defined, no step can fail: a byte that is not
there counts as zero, and a sum that is too large starts over.

Here the reader goes the same way by steps that do fail, with a mishap that names what went
wrong.  The guarded reader comes to the same result as the plain one, and never to a mishap,
whatever a source holds.  For the bytes of a record that rests on the checks of its length that
come first; for the sum, on what the reader holds between two lines.
-/
import UsbBoot.Proofs.Image.Reading
import UsbBoot.Proofs.Record.Grammar

namespace UsbBoot

/-- What can go wrong at a step. -/
inductive Mishap
  /-- A byte or a stretch of bytes is not there. -/
  | outside
  /-- A sum takes more than thirty-two bits. -/
  | overflow
  /-- A difference lies below zero. -/
  | underflow
  /-- A round of a loop takes nothing. -/
  | standstill
  /-- An address starts over although there are bytes left, or elsewhere than at zero. -/
  | startedOver
  deriving DecidableEq, Repr

/-- What comes of steps that can go wrong. -/
abbrev Guarded (α : Type) : Type :=
  Except Mishap α

namespace Guarded

/-! ### Steps that can go wrong -/

/-- The byte at a place. -/
def pick (bytes : List UInt8) (place : Nat) : Guarded UInt8 :=
  match bytes[place]? with
  | some byte => .ok byte
  | none => .error .outside

/-- The bytes from one place up to another. -/
def slice (bytes : List UInt8) (start stop : Nat) : Guarded (List UInt8) :=
  if start ≤ stop ∧ stop ≤ bytes.length then .ok ((bytes.take stop).drop start)
  else .error .outside

def plus (x y : UInt32) : Guarded UInt32 :=
  if x.toNat + y.toNat < longLimit then .ok (x + y) else .error .overflow

def minus (x y : Nat) : Guarded Nat :=
  if y ≤ x then .ok (x - y) else .error .underflow

@[simp] theorem ok_bind {α β : Type} (value : α) (next : α → Guarded β) :
    (Except.ok value >>= next) = next value := rfl

theorem pick_eq {bytes : List UInt8} {place : Nat} {byte : UInt8} (h : bytes[place]? = some byte) :
    pick bytes place = .ok byte := by
  rw [pick, h]

theorem slice_eq {bytes : List UInt8} {start stop : Nat} (front middle back : List UInt8)
    (hbytes : front ++ (middle ++ back) = bytes) (hstart : front.length = start)
    (hstop : start + middle.length = stop) : slice bytes start stop = .ok middle := by
  subst hbytes hstart hstop
  have hinside : front.length ≤ front.length + middle.length ∧
      front.length + middle.length ≤ (front ++ (middle ++ back)).length := by
    simp only [List.length_append]
    omega
  rw [slice, if_pos hinside, List.take_length_add_append, List.take_left, List.drop_left]

theorem plus_eq {x y : UInt32} (h : x.toNat + y.toNat < longLimit) : plus x y = .ok (x + y) :=
  if_pos h

theorem minus_eq {x y : Nat} (h : y ≤ x) : minus x y = .ok (x - y) :=
  if_pos h

end Guarded

open Guarded

/-! ### Records -/

namespace Record

/-- The record that the bytes of a line make up, each field looked up at its place. -/
def ofBytesGuarded (bytes : List UInt8) : Guarded (Except Fault Record) :=
  if bytes.length < overhead then .ok (.error .truncated)
  else do
    let count ← pick bytes 0
    let whole := count.toNat + overhead
    if bytes.length < whole then .ok (.error .truncated)
    else if whole < bytes.length then .ok (.error .trailing)
    else
      let last ← minus whole 1
      let actual ← pick bytes last
      let expected := checksumOf (← slice bytes 0 last)
      if actual ≠ expected then .ok (.error (.checksum expected actual))
      else
        let kind := Kind.ofTag (← pick bytes 3)
        let payload ← slice bytes 4 (4 + count.toNat)
        if kind.setsBase && payload.length != 2 then .ok (.error .badBase)
        else
          let high ← pick bytes 1
          let low ← pick bytes 2
          .ok (.ok ⟨kind, addressOf high low, payload, actual⟩)

def parseGuarded (text : List Char) : Guarded (Except Fault Record) :=
  match Text.trimEnd text with
  | ':' :: digits =>
    if Text.encodedLength digits % 2 ≠ 0 then .ok (.error .oddDigits)
    else match bytesOf? digits with
      | none => .ok (.error .invalidDigit)
      | some bytes => ofBytesGuarded bytes
  | _ => .ok (.error .missingStart)

theorem ofBytesGuarded_of_few {bytes : List UInt8} (hfew : bytes.length < 5 ∨
    ∃ count, bytes[0]? = some count ∧ bytes.length < count.toNat + 5) :
    ofBytesGuarded bytes = .ok (.error .truncated) := by
  rw [ofBytesGuarded]
  by_cases hfive : bytes.length < overhead
  · rw [if_pos hfive]
  · obtain ⟨count, hcount, hless⟩ := hfew.resolve_left hfive
    rw [if_neg hfive, pick_eq hcount, ok_bind]
    exact if_pos hless

theorem ofBytesGuarded_of_many {bytes : List UInt8} {count : UInt8}
    (hcount : bytes[0]? = some count) (hmany : count.toNat + 5 < bytes.length) :
    ofBytesGuarded bytes = .ok (.error .trailing) := by
  have hfive : ¬bytes.length < overhead := by
    rw [overhead]
    omega
  rw [ofBytesGuarded, if_neg hfive, pick_eq hcount, ok_bind]
  exact (if_neg (Nat.lt_asymm hmany)).trans (if_pos hmany)

/-- In bytes of the number that the first of them says, every field is where it is looked up. -/
theorem ofBytesGuarded_counted {count : UInt8} (high low tag checksum : UInt8)
    {payload : List UInt8} (h : payload.length = count.toNat) :
    ofBytesGuarded (count :: high :: low :: tag :: (payload ++ [checksum]))
      = .ok (ofBytes (count :: high :: low :: tag :: (payload ++ [checksum]))) := by
  rw [ofBytes_counted high low tag checksum h, ofBytesGuarded]
  generalize hbytes : count :: high :: low :: tag :: (payload ++ [checksum]) = bytes
  have hlength : bytes.length = count.toNat + overhead := by
    simp [← hbytes, overhead, h]
  have hlast : minus (count.toNat + overhead) 1 = .ok (4 + count.toNat) := by
    rw [minus_eq (by rw [overhead]; omega), overhead]
    congr 1
    omega
  have hcount : pick bytes 0 = .ok count := pick_eq (by rw [← hbytes]; rfl)
  have hhigh : pick bytes 1 = .ok high := pick_eq (by rw [← hbytes]; rfl)
  have hlow : pick bytes 2 = .ok low := pick_eq (by rw [← hbytes]; rfl)
  have htag : pick bytes 3 = .ok tag := pick_eq (by rw [← hbytes]; rfl)
  have hchecksum : pick bytes (4 + count.toNat) = .ok checksum := by
    refine pick_eq ?_
    rw [← hbytes, Nat.add_comm, ← h]
    simp
  have hcovered : slice bytes 0 (4 + count.toNat) = .ok ([count, high, low, tag] ++ payload) :=
    slice_eq [] _ [checksum] (by rw [← hbytes]; simp) rfl
      (by rw [List.length_append, h, Nat.zero_add]; rfl)
  have hpayload : slice bytes 4 (4 + count.toNat) = .ok payload :=
    slice_eq [count, high, low, tag] payload [checksum] hbytes rfl (by rw [h])
  have hleast : ¬count.toNat + overhead < overhead := Nat.not_lt.mpr (Nat.le_add_left ..)
  simp only [hlength, hleast, hcount, hlast, hchecksum, hcovered, htag, hpayload, hhigh, hlow,
    ok_bind, Nat.lt_irrefl, if_false]
  split
  · rfl
  · split <;> rfl

theorem ofBytesGuarded_eq (bytes : List UInt8) : ofBytesGuarded bytes = .ok (ofBytes bytes) := by
  rcases counted_cases bytes with hfew | ⟨count, hcount, hmany⟩ | ⟨count, hcount, hlength⟩
  · rw [ofBytesGuarded_of_few hfew, ofBytes_of_few hfew]
  · rw [ofBytesGuarded_of_many hcount hmany, ofBytes_of_many hcount hmany]
  · obtain ⟨high, low, tag, payload, checksum, hpayload, rfl⟩ := exists_fields hcount hlength
    exact ofBytesGuarded_counted high low tag checksum hpayload

theorem parseGuarded_eq (text : List Char) : parseGuarded text = .ok (parse text) := by
  rw [parseGuarded.eq_def]
  split
  · rename_i digits htrim
    simp only [parse, htrim]
    split
    · rfl
    · cases bytesOf? digits with
      | none => rfl
      | some bytes => exact ofBytesGuarded_eq bytes
  · rename_i hstart
    rw [parse.eq_def]
    split
    · rename_i digits htrim
      exact absurd htrim (hstart digits)
    · rfl

end Record

/-! ### Lines -/

namespace Image

def Entry.ofLineGuarded (line : List UInt8) : Guarded Entry :=
  match Text.trimBytes line with
  | [] => .ok .nothing
  | first :: rest =>
    if first = commentMark then .ok .nothing
    else match Text.decode (first :: rest) with
      | none => .ok (.malformed .invalidDigit)
      | some text => do
        match ← Record.parseGuarded text with
        | .error fault => .ok (.malformed fault)
        | .ok found => .ok (.record found)

def State.takeDataGuarded (state : State) (line : Nat) (offset : UInt16) (bytes : List UInt8) :
    Guarded (Except Failure State) :=
  if bytes.isEmpty then .ok (.ok state)
  else do
    let address ← plus state.base offset.toUInt32
    if addressLimit < address.toNat + bytes.length then .ok (.error (.malformed line .pastEnd))
    else if state.segments.any (Segment.meets · address bytes.length) then
      .ok (.error (.overlapping address))
    else .ok (.ok (state.add address bytes))

def State.takeGuarded (state : State) (line : Nat) (record : Record) :
    Guarded (Except Failure State) :=
  match record.kind with
  | .data => state.takeDataGuarded line record.address record.payload
  | .extendedSegment | .extendedLinear => .ok (.ok { state with base := record.base?.getD 0 })
  | .endOfFile | .other _ => .ok (.ok state)

def readLinesGuarded (ending : Ending) :
    State → Nat → List (List UInt8) → Guarded (Except Failure Image)
  | _, _, [] => .ok (.error ending.failure)
  | state, number, line :: rest => do
    match ← Entry.ofLineGuarded line with
    | .nothing => readLinesGuarded ending state (number + 1) rest
    | .malformed fault => .ok (.error (.malformed number fault))
    | .record record =>
      if record.kind = .endOfFile then .ok (.ok ⟨state.segments⟩)
      else
        match ← state.takeGuarded number record with
        | .error failure => .ok (.error failure)
        | .ok state => readLinesGuarded ending state (number + 1) rest

def readGuarded (source : Source) : Guarded (Except Failure Image) :=
  readLinesGuarded source.ending .initial 1 source.lines

theorem Entry.ofLineGuarded_eq (line : List UInt8) :
    Entry.ofLineGuarded line = .ok (Entry.ofLine line) := by
  rw [Entry.ofLineGuarded, Entry.ofLine]
  cases Text.trimBytes line with
  | nil => rfl
  | cons first rest =>
      dsimp only
      split
      · rfl
      · cases Text.decode (first :: rest) with
        | none => rfl
        | some text =>
            simp only [Record.parseGuarded_eq, ok_bind]
            cases Record.parse text <;> rfl

/-- Where the last base came from a record, its sum with any offset is an address. -/
theorem State.Follows.takeGuarded_eq {state : State} {earlier : List Record}
    (h : state.Follows earlier) (line : Nat) (record : Record) :
    state.takeGuarded line record = .ok (state.take line record) := by
  have haddress : plus state.base record.address.toUInt32
      = .ok (state.base + record.address.toUInt32) := by
    refine plus_eq ?_
    rw [h.base, UInt16.toNat_toUInt32]
    exact record.address_inside (baseAfter earlier)
  rw [State.takeGuarded, State.take]
  cases record.kind with
  | data =>
      simp only [State.takeDataGuarded, State.takeData, haddress, ok_bind]
      split
      · rfl
      · split
        · rfl
        · split <;> rfl
  | endOfFile | extendedSegment | extendedLinear | other => rfl

theorem readLinesGuarded_eq (ending : Ending) {state : State} {earlier : List Record}
    (h : state.Follows earlier) (number : Nat) (lines : List (List UInt8)) :
    readLinesGuarded ending state number lines = .ok (readLines ending state number lines) := by
  -- By induction on the lines, with what the reader holds before the next one as invariant.
  induction lines generalizing state earlier number with
  | nil => rfl
  | cons line rest ih =>
      have hline := ofLine_spec line
      rw [readLinesGuarded, readLines, Entry.ofLineGuarded_eq, ok_bind]
      cases hentry : Entry.ofLine line with
      | nothing => exact ih h (number + 1)
      | malformed fault => rfl
      | record record =>
          rw [hentry] at hline
          dsimp only
          split
          · rfl
          · have hsteps := h.steps number hline.legible
            rw [h.takeGuarded_eq, ok_bind]
            generalize state.take number record = result at hsteps
            cases hsteps with
            | goes hfollows => exact ih hfollows (number + 1)
            | stops => rfl

theorem readGuarded_eq (source : Source) : readGuarded source = .ok (read source) :=
  readLinesGuarded_eq source.ending State.follows_initial 1 source.lines

end Image
end UsbBoot
