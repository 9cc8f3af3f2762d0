/-
What the lines of a file say.

A file is taken by its meaning here, without regard to how it is read.  Its lines hold
records, up to the first one that ends the image; blank lines and comments hold nothing.
A data record puts its payload at its address on top of the base that the last record
before it selected, or on top of zero.  No base lies so high that the sum could pass the
last address; that is part of what a base is.
-/
import Mathlib.Data.List.Basic
import UsbBoot.Image.Reader
import UsbBoot.Proofs.Memory
import UsbBoot.Proofs.Record.Line

namespace UsbBoot

/-- A base that a record can select. -/
structure Base where
  value : Nat
  /-- Wherever a record points to from here, there is an address. -/
  le : value ≤ 0xFFFF0000
  deriving DecidableEq

/-- The base before any record has selected one. -/
def Base.zero : Base :=
  ⟨0, Nat.zero_le _⟩

namespace Record

/-! ### What a record says -/

/-- The base a record selects, if it is of a kind that does: its two bytes count in units of
sixteen, or are the upper half of the addresses. -/
def selects? (record : Record) : Option Base :=
  match record.kind, record.payload with
  | .extendedSegment, [high, low] =>
    some ⟨(addressOf high low).toNat * 0x10, by have := (addressOf high low).toNat_lt; omega⟩
  | .extendedLinear, [high, low] =>
    some ⟨(addressOf high low).toNat * 0x10000, by have := (addressOf high low).toNat_lt; omega⟩
  | _, _ => none

/-- Whether a record carries bytes of the image. -/
def Carries (record : Record) : Prop :=
  record.kind = .data ∧ record.payload ≠ []

instance (record : Record) : Decidable record.Carries :=
  inferInstanceAs (Decidable (_ ∧ _))

theorem address_inside (record : Record) (base : Base) :
    base.value + record.address.toNat < UInt32.size := by
  have hbase := base.le
  have haddress := record.address.toNat_lt
  rw [UInt32.size]
  omega

/-- Where a record puts what it carries while a base is in force. -/
def placedAt (record : Record) (base : Base) : Segment :=
  ⟨UInt32.ofNatLT (base.value + record.address.toNat) (record.address_inside base),
    record.payload⟩

@[simp] theorem toNat_base_placedAt (record : Record) (base : Base) :
    (record.placedAt base).base.toNat = base.value + record.address.toNat :=
  UInt32.toNat_ofNatLT

@[simp] theorem bytes_placedAt (record : Record) (base : Base) :
    (record.placedAt base).bytes = record.payload := rfl

theorem selects?_of_kind {record : Record} (h : record.kind.setsBase = false) :
    record.selects? = none := by
  rw [selects?]
  split
  · rename_i hkind _
    simp [hkind, Kind.setsBase] at h
  · rename_i hkind _
    simp [hkind, Kind.setsBase] at h
  · rfl

theorem Legible.selects? {record : Record} (h : record.Legible)
    (hkind : record.kind.setsBase = true) :
    ∃ base, record.selects? = some base ∧
      (record.base?.getD 0).toNat = base.value := by
  obtain ⟨high, low, hpayload⟩ := List.length_eq_two.mp (h.base hkind)
  have hlt := (addressOf high low).toNat_lt
  rw [Record.selects?, Record.base?, hpayload]
  cases hcase : record.kind with
  | extendedSegment =>
      refine ⟨_, rfl, ?_⟩
      simp only [Option.getD_some, UInt32.toNat_shiftLeft, UInt16.toNat_toUInt32]
      show (addressOf high low).toNat <<< 4 % 2 ^ 32 = _
      rw [Nat.shiftLeft_eq]
      omega
  | extendedLinear =>
      refine ⟨_, rfl, ?_⟩
      simp only [Option.getD_some, UInt32.toNat_shiftLeft, UInt16.toNat_toUInt32]
      show (addressOf high low).toNat <<< 16 % 2 ^ 32 = _
      rw [Nat.shiftLeft_eq]
      omega
  | data | endOfFile | other => simp [hcase, Kind.setsBase] at hkind

end Record

namespace Image

/-! ### What the records of a file say -/

/-- The base in force after some records: the one that was selected last. -/
def baseAfter (records : List Record) : Base :=
  ((records.filterMap Record.selects?).getLast?).getD .zero

/-- What some records carry, each at its place, when others stand before them. -/
def contentsAfter : List Record → List Record → List Segment
  | _, [] => []
  | earlier, record :: rest =>
    if record.Carries then
      record.placedAt (baseAfter earlier) :: contentsAfter (earlier ++ [record]) rest
    else contentsAfter (earlier ++ [record]) rest

/-- What the records of a file carry, each at its place, in file order. -/
def contents (records : List Record) : List Segment :=
  contentsAfter [] records

theorem baseAfter_append_singleton (earlier : List Record) (record : Record) :
    baseAfter (earlier ++ [record]) = record.selects?.getD (baseAfter earlier) := by
  rw [baseAfter, List.filterMap_append]
  cases hselects : record.selects? <;> simp [baseAfter, hselects]

theorem contentsAfter_append (earlier xs ys : List Record) :
    contentsAfter earlier (xs ++ ys)
      = contentsAfter earlier xs ++ contentsAfter (earlier ++ xs) ys := by
  induction xs generalizing earlier with
  | nil => simp [contentsAfter]
  | cons record rest ih =>
      rw [List.cons_append, contentsAfter, contentsAfter, ih, List.append_assoc,
        List.singleton_append]
      split <;> rfl

theorem solid_contentsAfter (earlier records : List Record) :
    ∀ segment ∈ contentsAfter earlier records, segment.bytes ≠ [] := by
  induction records generalizing earlier with
  | nil => exact nofun
  | cons record rest ih =>
      rw [contentsAfter]
      split
      · rename_i hcarries
        exact List.forall_mem_cons.mpr ⟨hcarries.2, ih _⟩
      · exact ih _

/-- The payloads of the data records, one behind the other. -/
def payloadOf (records : List Record) : List UInt8 :=
  (records.filter fun record => record.kind = .data).flatMap Record.payload

theorem payloadOf_cons (record : Record) (rest : List Record) :
    payloadOf (record :: rest)
      = if record.kind = .data then record.payload ++ payloadOf rest else payloadOf rest := by
  rw [payloadOf, payloadOf, List.filter_cons]
  by_cases hdata : record.kind = .data <;> simp [hdata]

theorem bytesOf_contentsAfter (earlier records : List Record) :
    bytesOf (contentsAfter earlier records) = payloadOf records := by
  induction records generalizing earlier with
  | nil => rfl
  | cons record rest ih =>
      rw [contentsAfter, payloadOf_cons]
      split
      · rename_i hcarries
        rw [bytesOf_cons, ih, if_pos hcarries.1, Record.bytes_placedAt]
      · rename_i hsilent
        rw [ih]
        split
        · rename_i hdata
          -- A data record that carries nothing has no payload.
          have hempty : record.payload = [] := by
            by_contra hpayload
            exact hsilent ⟨hdata, hpayload⟩
          rw [hempty, List.nil_append]
        · rfl

/-! ### What lines hold -/

/-- A line that holds nothing: it is blank, or begins like a comment. -/
def IsIdle (line : List UInt8) : Prop :=
  Text.trimBytes line = [] ∨ (Text.trimBytes line).head? = some commentMark

/-- A line that holds a record: what is left of it without the blanks around it is text, and
that text is a record. -/
def Holds (line : List UInt8) (record : Record) : Prop :=
  ¬IsIdle line ∧
    ∃ text, Text.decode (Text.trimBytes line) = some text ∧ Record.parse text = .ok record

/-- Up to the first record that ends the image, the lines hold these records, and otherwise
nothing. -/
inductive Delivers : List (List UInt8) → List Record → Prop
  | ended {line : List UInt8} {record : Record} (rest : List (List UInt8))
    (hholds : Holds line record) (hend : record.kind = .endOfFile) :
    Delivers (line :: rest) []
  | idle {line : List UInt8} {rest : List (List UInt8)} {records : List Record}
    (hidle : IsIdle line) (hrest : Delivers rest records) : Delivers (line :: rest) records
  | record {line : List UInt8} {record : Record} {rest : List (List UInt8)}
    {records : List Record} (hholds : Holds line record) (hmore : record.kind ≠ .endOfFile)
    (hrest : Delivers rest records) : Delivers (line :: rest) (record :: records)

theorem ofLine_of_idle {line : List UInt8} (h : IsIdle line) : Entry.ofLine line = .nothing := by
  rw [IsIdle] at h
  rw [Entry.ofLine]
  generalize Text.trimBytes line = bytes at h
  cases bytes with
  | nil => rfl
  | cons first rest =>
      have hcomment : first = commentMark := by simpa using h
      exact if_pos hcomment

theorem ofLine_of_busy {line : List UInt8} (h : ¬IsIdle line) :
    Entry.ofLine line = match Text.decode (Text.trimBytes line) with
      | none => .malformed .invalidDigit
      | some text =>
        match Record.parse text with
        | .error fault => .malformed fault
        | .ok found => .record found := by
  rw [IsIdle] at h
  rw [Entry.ofLine]
  generalize Text.trimBytes line = bytes at h
  cases bytes with
  | nil => simp at h
  | cons first rest =>
      have hfirst : first ≠ commentMark := by simpa using h
      exact if_neg hfirst

theorem ofLine_of_fault {line : List UInt8} {text : List Char} {fault : Record.Fault}
    (hbusy : ¬IsIdle line) (htext : Text.decode (Text.trimBytes line) = some text)
    (hfault : Record.parse text = .error fault) : Entry.ofLine line = .malformed fault := by
  rw [ofLine_of_busy hbusy, htext]
  simp only [hfault]

theorem ofLine_spec (line : List UInt8) :
    match Entry.ofLine line with
    | .nothing => IsIdle line
    | .record record => Holds line record
    | .malformed _ => ¬IsIdle line ∧ ∀ record, ¬Holds line record := by
  by_cases hidle : IsIdle line
  · rw [ofLine_of_idle hidle]
    exact hidle
  · rw [ofLine_of_busy hidle]
    cases hdecode : Text.decode (Text.trimBytes line) with
    | none =>
        -- Bytes that are no text are no record either.
        refine ⟨hidle, fun record hholds => ?_⟩
        obtain ⟨-, text, htext, -⟩ := hholds
        rw [hdecode] at htext
        cases htext
    | some text =>
        cases hparse : Record.parse text with
        | ok record =>
            simp only [hparse]
            exact ⟨hidle, text, hdecode, hparse⟩
        | error fault =>
            simp only [hparse]
            refine ⟨hidle, fun record hholds => ?_⟩
            obtain ⟨-, other, hother, hrecord⟩ := hholds
            rw [hdecode] at hother
            cases hother
            rw [hparse] at hrecord
            cases hrecord

theorem Holds.unique {line : List UInt8} {record other : Record} (h : Holds line record)
    (hother : Holds line other) : record = other := by
  obtain ⟨-, text, htext, hparse⟩ := h
  obtain ⟨-, text', htext', hparse'⟩ := hother
  obtain rfl := Option.some.inj (htext.symm.trans htext')
  exact Except.ok.inj (hparse.symm.trans hparse')

theorem Holds.legible {line : List UInt8} {record : Record} (h : Holds line record) :
    record.Legible := by
  obtain ⟨-, text, -, hparse⟩ := h
  exact Record.legible_of_parse hparse

theorem holds_of_ofLine {line : List UInt8} {record : Record}
    (h : Entry.ofLine line = .record record) : Holds line record := by
  have hline := ofLine_spec line
  rwa [h] at hline

theorem ofLine_of_holds {line : List UInt8} {record : Record} (h : Holds line record) :
    Entry.ofLine line = .record record := by
  have hline := ofLine_spec line
  cases hentry : Entry.ofLine line with
  | nothing =>
      rw [hentry] at hline
      exact absurd hline h.1
  | record other =>
      rw [hentry] at hline
      rw [hline.unique h]
  | malformed =>
      rw [hentry] at hline
      exact absurd h (hline.2 record)

/-! ### One line after the other -/

theorem delivers_nil (records : List Record) : ¬Delivers [] records := nofun

theorem delivers_cons_of_idle {line : List UInt8} {rest : List (List UInt8)}
    {records : List Record} (h : IsIdle line) :
    Delivers (line :: rest) records ↔ Delivers rest records := by
  refine ⟨fun hall => ?_, .idle h⟩
  cases hall with
  | ended _ hholds => exact absurd h hholds.1
  | idle _ hrest => exact hrest
  | record hholds => exact absurd h hholds.1

theorem not_delivers_of_malformed {line : List UInt8} {rest : List (List UInt8)}
    {records : List Record} (hbusy : ¬IsIdle line) (h : ∀ record, ¬Holds line record) :
    ¬Delivers (line :: rest) records := by
  intro hall
  cases hall with
  | ended _ hholds => exact h _ hholds
  | idle hidle => exact hbusy hidle
  | record hholds => exact h _ hholds

theorem delivers_cons_of_end {line : List UInt8} {rest : List (List UInt8)}
    {record : Record} {records : List Record} (h : Holds line record)
    (hend : record.kind = .endOfFile) : Delivers (line :: rest) records ↔ records = [] := by
  constructor
  · intro hall
    cases hall with
    | ended => rfl
    | idle hidle => exact absurd hidle h.1
    | record hholds hmore => exact absurd (hholds.unique h ▸ hend) hmore
  · rintro rfl
    exact .ended rest h hend

theorem delivers_cons_of_record {line : List UInt8} {rest : List (List UInt8)}
    {record : Record} {records : List Record} (h : Holds line record)
    (hmore : record.kind ≠ .endOfFile) :
    Delivers (line :: rest) records
      ↔ ∃ later, records = record :: later ∧ Delivers rest later := by
  constructor
  · intro hall
    cases hall with
    | ended _ hholds hend => exact absurd (hholds.unique h ▸ hend) hmore
    | idle hidle => exact absurd hidle h.1
    | record hholds _ hrest => exact ⟨_, by rw [hholds.unique h], hrest⟩
  · rintro ⟨later, rfl, hrest⟩
    exact .record h hmore hrest

/-- The records that lines hold, if they come to an end. -/
def recordsOf? : List (List UInt8) → Option (List Record)
  | [] => none
  | line :: rest =>
    match Entry.ofLine line with
    | .nothing => recordsOf? rest
    | .malformed _ => none
    | .record record =>
      if record.kind = .endOfFile then some [] else (recordsOf? rest).map (record :: ·)

theorem recordsOf?_eq_some_iff {lines : List (List UInt8)} {records : List Record} :
    recordsOf? lines = some records ↔ Delivers lines records := by
  induction lines generalizing records with
  | nil => exact ⟨nofun, fun h => absurd h (delivers_nil records)⟩
  | cons line rest ih =>
      have hline := ofLine_spec line
      rw [recordsOf?]
      cases hentry : Entry.ofLine line with
      | nothing =>
          rw [hentry] at hline
          exact ih.trans (delivers_cons_of_idle hline).symm
      | malformed =>
          rw [hentry] at hline
          exact ⟨nofun, fun h => absurd h (not_delivers_of_malformed hline.1 hline.2)⟩
      | record record =>
          rw [hentry] at hline
          dsimp only
          by_cases hend : record.kind = .endOfFile
          · rw [if_pos hend, delivers_cons_of_end hline hend, Option.some_inj, eq_comm]
          · rw [if_neg hend, delivers_cons_of_record hline hend, Option.map_eq_some_iff]
            simp only [ih, and_comm, eq_comm]

instance (lines : List (List UInt8)) (records : List Record) :
    Decidable (Delivers lines records) :=
  decidable_of_iff _ recordsOf?_eq_some_iff

/-- Lines say one thing only. -/
theorem Delivers.unique {lines : List (List UInt8)} {records others : List Record}
    (h : Delivers lines records) (hothers : Delivers lines others) : records = others :=
  Option.some.inj
    ((recordsOf?_eq_some_iff.mpr h).symm.trans (recordsOf?_eq_some_iff.mpr hothers))

end Image
end UsbBoot
