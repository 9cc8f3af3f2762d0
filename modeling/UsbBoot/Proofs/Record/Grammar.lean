/-
Which lines are records, and why the others are not.

A line that is a record is a colon and digits, in pairs of either case, that spell bytes: as
many as the first of them says and five more, which sum to zero modulo 256, and with a payload
of two bytes if the record sets the base.  That is said here of the line alone, without regard
to how it is read.  A line that is no record is refused for the first thing that is wrong with
it, in a fixed order; each case below has what was found to be right before it among its
premises, so no two of them hold at once.
-/
import UsbBoot.Proofs.Record.WrongDigit
import UsbBoot.Proofs.Text.Utf8

namespace UsbBoot.Record

/-! ### Digits that spell bytes -/

/-- A digit of either case, and its value. -/
def IsDigit (c : Char) (value : Nat) : Prop :=
  value < 16 ∧ (c = Text.upperDigit value ∨ c = Text.lowerDigit value)

instance (c : Char) (value : Nat) : Decidable (IsDigit c value) :=
  inferInstanceAs (Decidable (_ ∧ _))

/-- Digits that spell bytes, two for each, the high one first. -/
inductive Spells : List Char → List UInt8 → Prop
  | nil : Spells [] []
  | cons {high low : Char} {byte : UInt8} {digits : List Char} {bytes : List UInt8}
    (hhigh : IsDigit high (byte.toNat / 16)) (hlow : IsDigit low (byte.toNat % 16))
    (hrest : Spells digits bytes) : Spells (high :: low :: digits) (byte :: bytes)

theorem digitOf?_eq_some_iff {c : Char} {value : Nat} :
    Text.digitOf? 16 c = some value ↔ IsDigit c value := by
  constructor
  · intro h
    -- A digit is one of the characters of ASCII, so they can all be looked at.
    have hall : ∀ code : Fin 0x7F, ∀ digit : Fin 16,
        Text.digitOf? 16 (Char.ofNat code.val) = some digit.val →
          IsDigit (Char.ofNat code.val) digit.val := by decide +kernel
    have hmost := (Text.isGraphic_of_isHexDigit (Text.isHexDigit_of_digitOf? h)).2
    have hchar : Char.ofNat c.toNat = c := Char.ofNat_toNat c
    have hdigit := hall ⟨c.toNat, by omega⟩ ⟨value, Text.lt_of_digitOf? h⟩
    rw [hchar] at hdigit
    exact hdigit h
  · rintro ⟨hlt, rfl | rfl⟩
    · exact digitOf?_upperDigit hlt
    · have hall : ∀ digit : Fin 16,
          Text.digitOf? 16 (Text.lowerDigit digit.val) = some digit.val := by decide
      exact hall ⟨value, hlt⟩

theorem bytesOf?_eq_some_iff {digits : List Char} {bytes : List UInt8} :
    bytesOf? digits = some bytes ↔ Spells digits bytes := by
  constructor
  · intro h
    induction digits using List.twoStepInduction generalizing bytes with
    | nil =>
        obtain rfl := Option.some.inj h
        exact .nil
    | singleton c => cases h
    | cons_cons high low rest ih =>
        obtain ⟨h, l, behind, hhigh, hlow, hrest, rfl⟩ := bytesOf?_cons_eq_some_iff.mp h
        have hh := Text.lt_of_digitOf? hhigh
        have hl := Text.lt_of_digitOf? hlow
        refine .cons ?_ ?_ (ih hrest)
        · rw [toNat_pair hh hl, ← digitOf?_eq_some_iff, hhigh]
          congr 1
          omega
        · rw [toNat_pair hh hl, ← digitOf?_eq_some_iff, hlow]
          congr 1
          omega
  · intro h
    induction h with
    | nil => rfl
    | @cons high low byte digits bytes hhigh hlow hrest ih =>
        refine bytesOf?_cons_eq_some_iff.mpr ⟨_, _, bytes, digitOf?_eq_some_iff.mpr hhigh,
          digitOf?_eq_some_iff.mpr hlow, ih, ?_⟩
        rw [Nat.div_add_mod' byte.toNat 16]
        exact congrArg (· :: bytes) UInt8.ofNat_toNat.symm

theorem Spells.isDigit {digits : List Char} {bytes : List UInt8} (h : Spells digits bytes) :
    ∀ c ∈ digits, ∃ value, IsDigit c value := by
  induction h with
  | nil => exact nofun
  | cons hhigh hlow hrest ih =>
      exact List.forall_mem_cons.mpr ⟨⟨_, hhigh⟩, List.forall_mem_cons.mpr ⟨⟨_, hlow⟩, ih⟩⟩

theorem exists_spells {digits : List Char} (heven : digits.length % 2 = 0)
    (h : ∀ c ∈ digits, ∃ value, IsDigit c value) : ∃ bytes, Spells digits bytes := by
  induction digits using List.twoStepInduction with
  | nil => exact ⟨[], .nil⟩
  | singleton c => cases heven
  | cons_cons high low rest ih =>
      obtain ⟨⟨first, hfirst⟩, hothers⟩ := List.forall_mem_cons.mp h
      obtain ⟨⟨second, hsecond⟩, hrest⟩ := List.forall_mem_cons.mp hothers
      simp only [List.length_cons] at heven
      obtain ⟨bytes, hbytes⟩ := ih (by omega) hrest
      have hvalue := toNat_pair hfirst.1 hsecond.1
      have hlt := hsecond.1
      refine ⟨(first * 16 + second).toUInt8 :: bytes, .cons ?_ ?_ hbytes⟩
      · rwa [hvalue, show (first * 16 + second) / 16 = first by omega]
      · rwa [hvalue, show (first * 16 + second) % 16 = second by omega]

/-- With an even number of bytes, digits spell bytes unless one of them is none. -/
theorem exists_spells_iff {digits : List Char} (heven : (Text.encode digits).length % 2 = 0) :
    (∃ bytes, Spells digits bytes) ↔ ∀ c ∈ digits, ∃ value, IsDigit c value := by
  constructor
  · rintro ⟨bytes, h⟩
    exact h.isDigit
  · intro h
    have hgraphic : ∀ c ∈ digits, Text.IsGraphic c := by
      intro c hmem
      obtain ⟨value, hvalue⟩ := h c hmem
      exact Text.isGraphic_of_isHexDigit
        (Text.isHexDigit_of_digitOf? (digitOf?_eq_some_iff.mpr hvalue))
    rw [Text.length_encode, Text.encodedLength_of_isGraphic hgraphic] at heven
    exact exists_spells heven h

theorem toUpper_isDigit {c : Char} {value : Nat} (h : IsDigit c value) :
    c.toUpper = Text.upperDigit value := by
  have hall : ∀ digit : Fin 16,
      (Text.upperDigit digit.val).toUpper = Text.upperDigit digit.val ∧
        (Text.lowerDigit digit.val).toUpper = Text.upperDigit digit.val := by decide
  obtain ⟨hupper, hlower⟩ := hall ⟨value, h.1⟩
  rcases h.2 with rfl | rfl
  · exact hupper
  · exact hlower

/-- The capital letters that spell some bytes are their digits as they are written. -/
theorem Spells.map_toUpper {digits : List Char} {bytes : List UInt8} (h : Spells digits bytes) :
    digits.map Char.toUpper = bytes.flatMap byteDigits := by
  induction h with
  | nil => rfl
  | cons hhigh hlow hrest ih =>
      rw [List.map_cons, List.map_cons, toUpper_isDigit hhigh, toUpper_isDigit hlow, ih,
        List.flatMap_cons]
      rfl

/-! ### Bytes that make up a record -/

/-- Bytes that make up a record. -/
structure Accepted (bytes : List UInt8) : Prop where
  /-- There are as many as the first one says, and five more. -/
  counted : ∃ count, bytes[0]? = some count ∧ bytes.length = count.toNat + 5
  /-- They sum to zero. -/
  sum : total (bytes.map UInt8.toNat) % 256 = 0
  /-- A record that sets the base has a payload of two bytes. -/
  base : bytes[3]? = some 0x02 ∨ bytes[3]? = some 0x04 → bytes[0]? = some 2

/-- A record that has its fields from these bytes. -/
structure TakenFrom (record : Record) (bytes : List UInt8) : Prop where
  kind : bytes[3]?.map Kind.ofTag = some record.kind
  /-- The address is the second and the third byte, the high one first. -/
  address : ∃ high low, bytes[1]? = some high ∧ bytes[2]? = some low ∧
    record.address.toNat = high.toNat * 0x100 + low.toNat
  /-- The payload lies between the fourth byte and the last. -/
  payload : record.payload = (bytes.drop 4).dropLast
  checksum : bytes.getLast? = some record.checksum

/-- Why bytes make up no record.  Each case supposes that those before it do not apply. -/
inductive Fault.OfBytes (bytes : List UInt8) : Fault → Prop
  | truncated (hfew : bytes.length < 5 ∨
      ∃ count, bytes[0]? = some count ∧ bytes.length < count.toNat + 5) :
    OfBytes bytes .truncated
  | trailing {count : UInt8} (hcount : bytes[0]? = some count)
    (hmany : count.toNat + 5 < bytes.length) : OfBytes bytes .trailing
  /-- The last byte is not the one that brings the sum of the others to zero. -/
  | checksum {count computed stored : UInt8} (hcount : bytes[0]? = some count)
    (hlength : bytes.length = count.toNat + 5) (hstored : bytes.getLast? = some stored)
    (hcomputed : (total (bytes.dropLast.map UInt8.toNat) + computed.toNat) % 256 = 0)
    (hdiffer : computed ≠ stored) : OfBytes bytes (.checksum computed stored)
  | badBase {count : UInt8} (hcount : bytes[0]? = some count)
    (hlength : bytes.length = count.toNat + 5)
    (hsum : total (bytes.map UInt8.toNat) % 256 = 0)
    (hsets : bytes[3]? = some 0x02 ∨ bytes[3]? = some 0x04) (hpayload : count ≠ 2) :
    OfBytes bytes .badBase

theorem toNat_sumOf (bytes : List UInt8) :
    (sumOf bytes).toNat = total (bytes.map UInt8.toNat) % 256 := by
  induction bytes with
  | nil => rfl
  | cons byte rest ih =>
      rw [sumOf_cons, UInt8.toNat_add, ih, List.map_cons, total_cons]
      omega

theorem sumOf_eq_zero_iff {bytes : List UInt8} :
    sumOf bytes = 0 ↔ total (bytes.map UInt8.toNat) % 256 = 0 := by
  rw [← toNat_sumOf, ← UInt8.toNat_inj]
  rfl

theorem setsBase_ofTag_iff {tag : UInt8} :
    (Kind.ofTag tag).setsBase = true ↔ tag = 0x02 ∨ tag = 0x04 := by
  rw [Kind.ofTag]
  split_ifs <;> simp_all [Kind.setsBase]

/-- Bytes are too few, too many, or in the right number. -/
theorem counted_cases (bytes : List UInt8) :
    (bytes.length < 5 ∨ ∃ count, bytes[0]? = some count ∧ bytes.length < count.toNat + 5) ∨
    (∃ count, bytes[0]? = some count ∧ count.toNat + 5 < bytes.length) ∨
    ∃ count, bytes[0]? = some count ∧ bytes.length = count.toNat + 5 := by
  cases bytes with
  | nil => exact Or.inl (Or.inl (by decide))
  | cons count rest =>
      have hcount : (count :: rest)[0]? = some count := rfl
      rcases Nat.lt_trichotomy (count :: rest).length (count.toNat + 5) with hless | heq | hmore
      · exact Or.inl (Or.inr ⟨count, hcount, hless⟩)
      · exact Or.inr (Or.inr ⟨count, hcount, heq⟩)
      · exact Or.inr (Or.inl ⟨count, hcount, hmore⟩)

theorem ofBytes_of_few {bytes : List UInt8} (hfew : bytes.length < 5 ∨
    ∃ count, bytes[0]? = some count ∧ bytes.length < count.toNat + 5) :
    ofBytes bytes = .error .truncated := by
  rw [ofBytes.eq_def]
  split
  · rename_i count high low tag rest
    have hless : (count :: high :: low :: tag :: rest).length < count.toNat + overhead := by
      rcases hfew with hfive | ⟨first, hfirst, hless⟩
      · exact Nat.lt_of_lt_of_le hfive (Nat.le_add_left ..)
      · obtain rfl : count = first := Option.some.inj hfirst
        exact hless
    exact if_pos hless
  · rfl

theorem ofBytes_of_many {bytes : List UInt8} {count : UInt8} (hcount : bytes[0]? = some count)
    (hmany : count.toNat + 5 < bytes.length) : ofBytes bytes = .error .trailing := by
  rcases bytes with _ | ⟨first, _ | ⟨high, _ | ⟨low, _ | ⟨tag, rest⟩⟩⟩⟩
  iterate 4
    · simp only [List.length_cons, List.length_nil] at hmany
      omega
  obtain rfl : first = count := Option.some.inj hcount
  have hmore : first.toNat + overhead < (first :: high :: low :: tag :: rest).length := hmany
  rw [ofBytes.eq_def]
  dsimp only
  rw [if_neg (Nat.not_lt_of_lt hmore), if_pos hmore]

section

variable {bytes payload : List UInt8} {count high low tag checksum : UInt8}
  (hbytes : bytes = count :: high :: low :: tag :: (payload ++ [checksum]))
include hbytes

theorem fields_concat : bytes = ([count, high, low, tag] ++ payload) ++ [checksum] :=
  hbytes

theorem sum_fields_iff :
    checksum = checksumOf ([count, high, low, tag] ++ payload)
      ↔ total (bytes.map UInt8.toNat) % 256 = 0 := by
  rw [eq_checksumOf_iff, sumOf_eq_zero_iff, ← fields_concat hbytes]

theorem computed_fields_iff {computed : UInt8} :
    computed = checksumOf ([count, high, low, tag] ++ payload)
      ↔ (total (bytes.dropLast.map UInt8.toNat) + computed.toNat) % 256 = 0 := by
  rw [eq_checksumOf_iff, sumOf_eq_zero_iff, fields_concat hbytes, List.dropLast_concat,
    List.map_append, total_append, List.map_singleton, total_cons, total_nil, Nat.add_zero]

theorem takenFrom_fields :
    TakenFrom ⟨Kind.ofTag tag, addressOf high low, payload, checksum⟩ bytes where
  kind := by
    rw [hbytes]
    rfl
  address := by
    rw [hbytes]
    exact ⟨high, low, rfl, rfl, toNat_addressOf high low⟩
  payload := by
    rw [hbytes]
    exact List.dropLast_concat.symm
  checksum := by
    rw [fields_concat hbytes, List.getLast?_concat]

end

/-- Bytes are accepted, or there is something wrong with them. -/
theorem accepted_or_fault (bytes : List UInt8) :
    Accepted bytes ∨ ∃ fault : Fault, fault.OfBytes bytes := by
  rcases counted_cases bytes with hfew | ⟨count, hcount, hmany⟩ | ⟨count, hcount, hlength⟩
  · exact Or.inr ⟨_, .truncated hfew⟩
  · exact Or.inr ⟨_, .trailing hcount hmany⟩
  · by_cases hsum : total (bytes.map UInt8.toNat) % 256 = 0
    · by_cases hbase : bytes[3]? = some 0x02 ∨ bytes[3]? = some 0x04 → bytes[0]? = some 2
      · exact Or.inl ⟨⟨count, hcount, hlength⟩, hsum, hbase⟩
      · push Not at hbase
        obtain ⟨hsets, hne⟩ := hbase
        refine Or.inr ⟨_, .badBase hcount hlength hsum hsets ?_⟩
        rintro rfl
        exact hne hcount
    · obtain ⟨high, low, tag, payload, checksum, -, hbytes⟩ := exists_fields hcount hlength
      refine Or.inr ⟨_, .checksum hcount hlength (takenFrom_fields hbytes).checksum
        ((computed_fields_iff hbytes).mp rfl) fun hright => hsum ?_⟩
      exact (sum_fields_iff hbytes).mp hright.symm

theorem ofBytes_of_accepted {bytes : List UInt8} (h : Accepted bytes) :
    ∃ record, ofBytes bytes = .ok record ∧ record.TakenFrom bytes := by
  obtain ⟨⟨count, hcount, hlength⟩, hsum, hbase⟩ := h
  obtain ⟨high, low, tag, payload, checksum, hpayload, hbytes⟩ := exists_fields hcount hlength
  have hright := (sum_fields_iff hbytes).mpr hsum
  have hfits : ¬((Kind.ofTag tag).setsBase && payload.length != 2) = true := by
    rw [Bool.and_eq_true, setsBase_ofTag_iff, bne_iff_ne, hpayload]
    rintro ⟨htag, hne⟩
    rw [hbytes] at hbase
    have htwo : count = 2 := by simpa using hbase (by simpa using htag)
    exact hne (congrArg UInt8.toNat htwo)
  refine ⟨_, ?_, takenFrom_fields hbytes⟩
  rw [hbytes, ofBytes_counted high low tag checksum hpayload,
    if_neg (Decidable.not_not.mpr hright), if_neg hfits]

theorem ofBytes_of_fault {bytes : List UInt8} {fault : Fault} (h : fault.OfBytes bytes) :
    ofBytes bytes = .error fault := by
  cases h with
  | truncated hfew => exact ofBytes_of_few hfew
  | trailing hcount hmany => exact ofBytes_of_many hcount hmany
  | checksum hcount hlength hstored hcomputed hdiffer =>
      obtain ⟨high, low, tag, payload, checksum, hpayload, hbytes⟩ :=
        exists_fields hcount hlength
      obtain rfl := (computed_fields_iff hbytes).mpr hcomputed
      obtain rfl := Option.some.inj ((takenFrom_fields hbytes).checksum.symm.trans hstored)
      rw [hbytes, ofBytes_counted high low tag _ hpayload, if_pos hdiffer.symm]
  | badBase hcount hlength hsum hsets hne =>
      obtain ⟨high, low, tag, payload, checksum, hpayload, hbytes⟩ :=
        exists_fields hcount hlength
      have hright := (sum_fields_iff hbytes).mpr hsum
      have hbase : ((Kind.ofTag tag).setsBase && payload.length != 2) = true := by
        rw [Bool.and_eq_true, setsBase_ofTag_iff, bne_iff_ne, hpayload]
        refine ⟨?_, fun htwo => hne (UInt8.toNat_inj.mp htwo)⟩
        rw [hbytes] at hsets
        simpa using hsets
      rw [hbytes, ofBytes_counted high low tag _ hpayload,
        if_neg (Decidable.not_not.mpr hright), if_pos hbase]

theorem accepted_of_ofBytes {bytes : List UInt8} {record : Record}
    (h : ofBytes bytes = .ok record) : Accepted bytes ∧ record.TakenFrom bytes := by
  rcases accepted_or_fault bytes with haccepted | ⟨fault, hfault⟩
  · obtain ⟨other, hother, htaken⟩ := ofBytes_of_accepted haccepted
    obtain rfl := Except.ok.inj (hother.symm.trans h)
    exact ⟨haccepted, htaken⟩
  · rw [ofBytes_of_fault hfault] at h
    cases h

/-- **Bytes make up a record exactly if they are accepted.** -/
theorem exists_ofBytes_iff {bytes : List UInt8} :
    (∃ record, ofBytes bytes = .ok record) ↔ Accepted bytes := by
  constructor
  · rintro ⟨record, h⟩
    exact (accepted_of_ofBytes h).1
  · intro h
    obtain ⟨record, hrecord, -⟩ := ofBytes_of_accepted h
    exact ⟨record, hrecord⟩

/-- **Bytes are refused exactly for the first thing that is wrong with them.** -/
theorem ofBytes_eq_error_iff {bytes : List UInt8} {fault : Fault} :
    ofBytes bytes = .error fault ↔ fault.OfBytes bytes := by
  constructor
  · intro h
    rcases accepted_or_fault bytes with haccepted | ⟨other, hother⟩
    · obtain ⟨record, hrecord, -⟩ := ofBytes_of_accepted haccepted
      rw [hrecord] at h
      cases h
    · obtain rfl := Except.error.inj ((ofBytes_of_fault hother).symm.trans h)
      exact hother
  · exact ofBytes_of_fault

/-! ### Lines that are records -/

/-- A line whose digits behind the colon spell these bytes.  Blanks at its end do not count. -/
def IsSpelt (text : List Char) (bytes : List UInt8) : Prop :=
  ∃ digits, Text.trimEnd text = ':' :: digits ∧ Spells digits bytes

/-- Why a line is no record.  Each case supposes that those before it do not apply. -/
inductive Fault.OfLine (text : List Char) : Fault → Prop
  | missingStart (hstart : (Text.trimEnd text).head? ≠ some ':') : OfLine text .missingStart
  /-- What stands behind the colon is counted in bytes, not in characters. -/
  | oddDigits {digits : List Char} (hstart : Text.trimEnd text = ':' :: digits)
    (hodd : (Text.encode digits).length % 2 = 1) : OfLine text .oddDigits
  | invalidDigit {digits : List Char} (hstart : Text.trimEnd text = ':' :: digits)
    (heven : (Text.encode digits).length % 2 = 0)
    (hdigit : ∃ c ∈ digits, ∀ value, ¬IsDigit c value) : OfLine text .invalidDigit
  | bytes {bytes : List UInt8} {fault : Fault} (hspelt : IsSpelt text bytes)
    (hbytes : fault.OfBytes bytes) : OfLine text fault

theorem parse_of_isSpelt {text : List Char} {bytes : List UInt8} (h : IsSpelt text bytes) :
    parse text = ofBytes bytes := by
  obtain ⟨digits, hstart, hspells⟩ := h
  exact parse_eq_of_digits hstart (bytesOf?_eq_some_iff.mpr hspells)

theorem exists_isSpelt_of_parse {text : List Char} {record : Record}
    (h : parse text = .ok record) :
    ∃ bytes, IsSpelt text bytes ∧ ofBytes bytes = .ok record := by
  obtain ⟨digits, bytes, hstart, hbytes, hrecord⟩ := digits_of_parse h
  exact ⟨bytes, ⟨digits, hstart, bytesOf?_eq_some_iff.mp hbytes⟩, hrecord⟩

theorem parse_of_ofLine {text : List Char} {fault : Fault} (h : fault.OfLine text) :
    parse text = .error fault := by
  cases h with
  | missingStart hstart =>
      rw [parse]
      split
      · rename_i digits htrim
        rw [htrim] at hstart
        exact absurd rfl hstart
      · rfl
  | oddDigits hstart hodd =>
      rw [Text.length_encode] at hodd
      rw [parse, hstart]
      exact if_pos (by omega)
  | @invalidDigit digits hstart heven hdigit =>
      obtain ⟨c, hmem, hnone⟩ := hdigit
      have hbytes : bytesOf? digits = none := by
        by_contra hsome
        obtain ⟨bytes, hbytes⟩ := Option.ne_none_iff_exists'.mp hsome
        obtain ⟨value, hvalue⟩ := (bytesOf?_eq_some_iff.mp hbytes).isDigit c hmem
        exact hnone value hvalue
      rw [Text.length_encode] at heven
      rw [parse, hstart]
      simp only [heven, hbytes, ne_eq, not_true_eq_false, if_false]
  | bytes hspelt hbytes => rw [parse_of_isSpelt hspelt, ofBytes_of_fault hbytes]

/-- A line that spells no bytes is no record for that. -/
theorem exists_ofLine_or_isSpelt (text : List Char) :
    (∃ fault : Fault, fault.OfLine text) ∨ ∃ bytes, IsSpelt text bytes := by
  by_cases hstart : (Text.trimEnd text).head? = some ':'
  · obtain ⟨digits, hdigits⟩ := List.head?_eq_some_iff.mp hstart
    by_cases heven : (Text.encode digits).length % 2 = 0
    · by_cases hspells : ∃ bytes, Spells digits bytes
      · obtain ⟨bytes, hbytes⟩ := hspells
        exact Or.inr ⟨bytes, digits, hdigits, hbytes⟩
      · rw [exists_spells_iff heven] at hspells
        push Not at hspells
        exact Or.inl ⟨_, .invalidDigit hdigits heven hspells⟩
    · exact Or.inl ⟨_, .oddDigits hdigits (by omega)⟩
  · exact Or.inl ⟨_, .missingStart hstart⟩

theorem parse_eq_error_iff {text : List Char} {fault : Fault} :
    parse text = .error fault ↔ fault.OfLine text := by
  constructor
  · intro h
    rcases exists_ofLine_or_isSpelt text with ⟨other, hother⟩ | ⟨bytes, hspelt⟩
    · obtain rfl := Except.error.inj ((parse_of_ofLine hother).symm.trans h)
      exact hother
    · rw [parse_of_isSpelt hspelt, ofBytes_eq_error_iff] at h
      exact .bytes hspelt h
  · exact parse_of_ofLine

-- Two characters, but three bytes.
example : parse ":0\u00E9".toList = .error .oddDigits := by
  decide +kernel

-- One character, but two bytes.
example : parse ":\u00E9".toList = .error .invalidDigit := by
  decide +kernel

/-- The line that is written for a record is the line it was read from, in capital letters. -/
theorem line_of_isSpelt {text : List Char} {record : Record} {bytes : List UInt8}
    (hspelt : IsSpelt text bytes) (h : ofBytes bytes = .ok record) :
    record.line = (Text.trimEnd text).map Char.toUpper := by
  obtain ⟨digits, hstart, hspells⟩ := hspelt
  obtain ⟨-, rfl⟩ := ofBytes_eq_ok_iff.mp h
  rw [hstart, List.map_cons, hspells.map_toUpper]
  rfl

/--
**Which lines are records, and why the others are not.**

A line is read as a record exactly if it spells bytes that are accepted.  The record has its
fields from them, its checksum is right, and written again it is the line in capital letters,
without the blanks at its end.  Any other line is refused for the first thing that is wrong.
-/
theorem parse_exact (text : List Char) :
    ((∃ record, parse text = .ok record) ↔ ∃ bytes, IsSpelt text bytes ∧ Accepted bytes) ∧
    (∀ record bytes, parse text = .ok record → IsSpelt text bytes →
      record.TakenFrom bytes ∧ record.isSound = true ∧
        record.line = (Text.trimEnd text).map Char.toUpper) ∧
    ∀ fault, parse text = .error fault ↔ fault.OfLine text := by
  refine ⟨?_, ?_, fun fault => parse_eq_error_iff⟩
  · constructor
    · rintro ⟨record, h⟩
      obtain ⟨bytes, hspelt, hrecord⟩ := exists_isSpelt_of_parse h
      exact ⟨bytes, hspelt, (accepted_of_ofBytes hrecord).1⟩
    · rintro ⟨bytes, hspelt, haccepted⟩
      rw [parse_of_isSpelt hspelt]
      exact exists_ofBytes_iff.mpr haccepted
  · intro record bytes h hspelt
    have hrecord : ofBytes bytes = .ok record := (parse_of_isSpelt hspelt).symm.trans h
    exact ⟨(accepted_of_ofBytes hrecord).2, (legible_of_parse h).sound,
      line_of_isSpelt hspelt hrecord⟩

/-- Small letters, and the end of the line still in place. -/
theorem parse_exact_smallLetters :
    let text := ":0300300002337a1e\r\n".toList
    let bytes : List UInt8 := [0x03, 0x00, 0x30, 0x00, 0x02, 0x33, 0x7A, 0x1E]
    let record := Record.data 0x0030 [0x02, 0x33, 0x7A]
    parse text = .ok record ∧ IsSpelt text bytes ∧ record.TakenFrom bytes ∧
      record.isSound = true ∧ record.line = (Text.trimEnd text).map Char.toUpper := by
  intro text bytes record
  have hread : parse text = .ok record := by decide +kernel
  have hspelt : IsSpelt text bytes :=
    ⟨"0300300002337a1e".toList, by decide +kernel, bytesOf?_eq_some_iff.mp (by decide +kernel)⟩
  exact ⟨hread, hspelt, (parse_exact text).2.1 record bytes hread hspelt⟩

end UsbBoot.Record
