/-
A record, its bytes, and its line.

A line spells the bytes of a record, and the bytes of a record make up the record again,
provided the record is one that a line can hold: no longer than its count byte can say,
with the checksum its fields call for, of a kind that its tag stands for, and with two
bytes if it sets the base.  From other bytes no record is made up.  So a written record is
read as the same record, and whatever is read as a record can be written.
-/
import Mathlib.Data.List.Induction
import UsbBoot.Proofs.Text.Digit
import UsbBoot.Record.Line

namespace UsbBoot.Record

/-! ### Addresses -/

theorem toNat_addressOf (high low : UInt8) :
    (addressOf high low).toNat = high.toNat * 0x100 + low.toNat := by
  have hhigh := high.toNat_lt
  have hlow : low.toNat < 2 ^ 8 := low.toNat_lt
  have hshift : high.toNat <<< 8 < 2 ^ 16 := by
    rw [Nat.shiftLeft_eq]
    omega
  have hsum := Nat.shiftLeft_add_eq_or_of_lt hlow high.toNat
  rw [addressOf, UInt16.toNat_or, UInt16.toNat_shiftLeft, UInt8.toNat_toUInt16,
    UInt8.toNat_toUInt16]
  show high.toNat <<< 8 % 2 ^ 16 ||| low.toNat = _
  rw [Nat.mod_eq_of_lt hshift, ← hsum, Nat.shiftLeft_eq]

theorem addressBytes_addressOf (high low : UInt8) :
    addressBytes (addressOf high low) = [high, low] := by
  have hhigh := high.toNat_lt
  have hlow := low.toNat_lt
  have hvalue := toNat_addressOf high low
  simp only [addressBytes, List.cons.injEq, and_true]
  constructor
  · rw [← UInt8.toNat_inj, UInt16.toNat_toUInt8, UInt16.toNat_shiftRight, hvalue]
    show (high.toNat * 0x100 + low.toNat) >>> 8 % 2 ^ 8 = _
    rw [Nat.shiftRight_eq_div_pow]
    omega
  · rw [← UInt8.toNat_inj, UInt16.toNat_toUInt8, hvalue]
    omega

theorem addressOf_addressBytes (address : UInt16) :
    addressOf (address >>> 8).toUInt8 address.toUInt8 = address := by
  have hlt := address.toNat_lt
  rw [← UInt16.toNat_inj, toNat_addressOf, UInt16.toNat_toUInt8, UInt16.toNat_toUInt8,
    UInt16.toNat_shiftRight]
  show address.toNat >>> 8 % 2 ^ 8 * 0x100 + address.toNat % 2 ^ 8 = _
  rw [Nat.shiftRight_eq_div_pow]
  omega

/-! ### Bytes -/

/-- The bytes a record consists of. -/
def bytes (record : Record) : List UInt8 :=
  record.header ++ record.payload ++ [record.checksum]

theorem bytes_eq (record : Record) :
    record.bytes = record.payload.length.toUInt8 :: (record.address >>> 8).toUInt8
      :: record.address.toUInt8 :: record.kind.tag :: (record.payload ++ [record.checksum]) :=
  rfl

/-- A record that a line can hold. -/
structure Legible (record : Record) : Prop where
  /-- The count byte can state the length. -/
  short : record.payload.length < byteLimit
  sound : record.isSound = true
  canonical : record.kind.IsCanonical
  base : record.kind.setsBase = true → record.payload.length = 2

theorem isSound_iff (record : Record) :
    record.isSound = true ↔ record.checksum = checksumOf (record.header ++ record.payload) := by
  simp [isSound, expectedChecksum]

theorem ofBytes_counted {count : UInt8} (high low tag checksum : UInt8) {payload : List UInt8}
    (h : payload.length = count.toNat) :
    ofBytes (count :: high :: low :: tag :: (payload ++ [checksum])) =
      if checksum ≠ checksumOf ([count, high, low, tag] ++ payload) then
        .error (.checksum (checksumOf ([count, high, low, tag] ++ payload)) checksum)
      else if (Kind.ofTag tag).setsBase && payload.length != 2 then .error .badBase
      else .ok ⟨Kind.ofTag tag, addressOf high low, payload, checksum⟩ := by
  have hlength : (count :: high :: low :: tag :: (payload ++ [checksum])).length
      = count.toNat + overhead := by
    simp [overhead, h]
  have htake : (payload ++ [checksum]).take count.toNat = payload := by simp [← h]
  have hlast : (payload ++ [checksum]).getD count.toNat 0 = checksum := by simp [← h]
  rw [ofBytes.eq_def]
  simp only [hlength, htake, hlast, Nat.lt_irrefl, if_false]

/-- Bytes in the number that the first of them says have their fields in their places. -/
theorem exists_fields {bytes : List UInt8} {count : UInt8} (hcount : bytes[0]? = some count)
    (hlength : bytes.length = count.toNat + overhead) :
    ∃ high low tag payload checksum, payload.length = count.toNat ∧
      bytes = count :: high :: low :: tag :: (payload ++ [checksum]) := by
  rw [overhead] at hlength
  rcases bytes with _ | ⟨first, _ | ⟨high, _ | ⟨low, _ | ⟨tag, rest⟩⟩⟩⟩
  iterate 4
    · simp only [List.length_cons, List.length_nil] at hlength
      omega
  obtain rfl : first = count := Option.some.inj hcount
  have hrest : rest.length = first.toNat + 1 := by
    simp only [List.length_cons] at hlength
    omega
  have hne : rest ≠ [] := List.ne_nil_of_length_eq_add_one hrest
  refine ⟨high, low, tag, rest.dropLast, rest.getLast hne, ?_, ?_⟩
  · rw [List.length_dropLast, hrest, Nat.add_sub_cancel]
  · rw [List.dropLast_concat_getLast]

theorem counted_of_ofBytes {bytes : List UInt8} {record : Record}
    (h : ofBytes bytes = .ok record) :
    ∃ count high low tag payload checksum, payload.length = count.toNat ∧
      bytes = count :: high :: low :: tag :: (payload ++ [checksum]) := by
  rw [ofBytes.eq_def] at h
  split at h
  · rename_i count high low tag rest
    split at h
    · cases h
    · rename_i hleast
      split at h
      · cases h
      · rename_i hmost
        exact ⟨count, exists_fields rfl (by omega)⟩
  · cases h

/-- **A record is made up from its own bytes, and from no others.** -/
theorem ofBytes_eq_ok_iff {bytes : List UInt8} {record : Record} :
    ofBytes bytes = .ok record ↔ record.Legible ∧ bytes = record.bytes := by
  constructor
  · intro h
    obtain ⟨count, high, low, tag, payload, checksum, hcount, rfl⟩ := counted_of_ofBytes h
    rw [ofBytes_counted high low tag checksum hcount] at h
    split at h
    · cases h
    · rename_i hsound
      split at h
      · cases h
      · rename_i hbase
        obtain rfl := Except.ok.inj h
        have hlength : payload.length.toUInt8 = count := by
          rw [hcount]
          exact UInt8.ofNat_toNat
        have hheader : Record.header ⟨Kind.ofTag tag, addressOf high low, payload, checksum⟩
            = [count, high, low, tag] := by
          simp [header, hlength, addressBytes_addressOf]
        refine ⟨⟨?_, ?_, ?_, ?_⟩, ?_⟩
        · rw [hcount]
          exact count.toNat_lt
        · -- The stored checksum was compared with one made from the same bytes.
          rw [isSound_iff, hheader]
          exact Decidable.not_not.mp hsound
        · simp [Kind.IsCanonical]
        · simpa using hbase
        · rw [Record.bytes, hheader]
          simp
  · rintro ⟨h, rfl⟩
    have hcount : record.payload.length = record.payload.length.toUInt8.toNat := by
      rw [Nat.toUInt8_eq, UInt8.toNat_ofNat']
      exact (Nat.mod_eq_of_lt h.short).symm
    have hsound : record.checksum = checksumOf ([record.payload.length.toUInt8,
        (record.address >>> 8).toUInt8, record.address.toUInt8, record.kind.tag]
          ++ record.payload) := record.isSound_iff.mp h.sound
    have hkind : Kind.ofTag record.kind.tag = record.kind := h.canonical
    have hbase : (record.kind.setsBase && record.payload.length != 2) = false := by
      cases hsets : record.kind.setsBase with
      | false => rfl
      | true => simp [h.base hsets]
    rw [bytes_eq, ofBytes_counted _ _ _ _ hcount, if_neg (Decidable.not_not.mpr hsound), hkind,
      hbase, addressOf_addressBytes]
    rfl

/-! ### Digits -/

theorem digitOf?_upperDigit {value : Nat} (h : value < 16) :
    Text.digitOf? 16 (Text.upperDigit value) = some value := by
  have hall : ∀ digit : Fin 16,
      Text.digitOf? 16 (Text.upperDigit digit.val) = some digit.val := by decide
  exact hall ⟨value, h⟩

/-- The bytes of some digits, the first two of which make up one. -/
theorem bytesOf?_cons_eq_some_iff {high low : Char} {rest : List Char} {bytes : List UInt8} :
    bytesOf? (high :: low :: rest) = some bytes ↔
      ∃ h l behind, Text.digitOf? 16 high = some h ∧ Text.digitOf? 16 low = some l ∧
        bytesOf? rest = some behind ∧ bytes = (h * 16 + l).toUInt8 :: behind := by
  rw [bytesOf?]
  constructor
  · intro hbytes
    split at hbytes
    · rename_i h l hhigh hlow
      obtain ⟨behind, hrest, rfl⟩ := Option.map_eq_some_iff.mp hbytes
      exact ⟨h, l, behind, hhigh, hlow, hrest, rfl⟩
    · cases hbytes
  · rintro ⟨h, l, behind, hhigh, hlow, hrest, rfl⟩
    simp [hhigh, hlow, hrest]

theorem digits_of_bytesOf? {digits : List Char} {bytes : List UInt8}
    (hbytes : bytesOf? digits = some bytes) :
    (∀ c ∈ digits, Text.isHexDigit c = true) ∧ digits.length = 2 * bytes.length := by
  induction digits using List.twoStepInduction generalizing bytes with
  | nil =>
      obtain rfl := Option.some.inj hbytes
      exact ⟨nofun, rfl⟩
  | singleton c => cases hbytes
  | cons_cons high low rest ih =>
      obtain ⟨h, l, behind, hhigh, hlow, hrest, rfl⟩ := bytesOf?_cons_eq_some_iff.mp hbytes
      obtain ⟨hdigits, hlength⟩ := ih hrest
      refine ⟨?_, by rw [List.length_cons, List.length_cons, hlength, List.length_cons]; omega⟩
      exact List.forall_mem_cons.mpr ⟨Text.isHexDigit_of_digitOf? hhigh,
        List.forall_mem_cons.mpr ⟨Text.isHexDigit_of_digitOf? hlow, hdigits⟩⟩

/-- Digits of one value are as good as each other. -/
theorem bytesOf?_recased {c d : Char} (h : Text.digitOf? 16 c = Text.digitOf? 16 d)
    (front back : List Char) : bytesOf? (front ++ c :: back) = bytesOf? (front ++ d :: back) := by
  induction front using List.twoStepInduction with
  | nil =>
      cases back with
      | nil => rfl
      | cons low rest => rw [List.nil_append, List.nil_append, bytesOf?, bytesOf?, h]
  | singleton high =>
      rw [List.singleton_append, List.singleton_append, bytesOf?, bytesOf?, h]
  | cons_cons high low front ih =>
      simp only [List.cons_append, bytesOf?, ih]

theorem bytesOf?_byteDigits (list : List UInt8) :
    bytesOf? (list.flatMap byteDigits) = some list := by
  induction list with
  | nil => rfl
  | cons byte rest ih =>
      have hbyte := byte.toNat_lt
      have hhigh := digitOf?_upperDigit (show byte.toNat / 16 < 16 by omega)
      have hlow := digitOf?_upperDigit (show byte.toNat % 16 < 16 by omega)
      have hvalue : (byte.toNat / 16 * 16 + byte.toNat % 16).toUInt8 = byte := by
        rw [Nat.div_add_mod' byte.toNat 16]
        exact UInt8.ofNat_toNat
      rw [List.flatMap_cons, byteDigits, List.cons_append, List.cons_append, List.nil_append,
        bytesOf?, hhigh, hlow, ih]
      simp [hvalue]

/-! ### Lines -/

theorem isGraphic_upperDigit {value : Nat} (h : value < 16) :
    Text.IsGraphic (Text.upperDigit value) := by
  have hall : ∀ digit : Fin 16, Text.IsGraphic (Text.upperDigit digit.val) := by decide
  exact hall ⟨value, h⟩

theorem isGraphic_byteDigits (byte : UInt8) : ∀ c ∈ byteDigits byte, Text.IsGraphic c := by
  have hbyte := byte.toNat_lt
  simp only [byteDigits, List.forall_mem_cons]
  exact ⟨isGraphic_upperDigit (by omega), isGraphic_upperDigit (by omega), nofun⟩

theorem isGraphic_line (record : Record) : ∀ c ∈ record.line, Text.IsGraphic c := by
  refine List.forall_mem_cons.mpr ⟨by decide, fun c hmem => ?_⟩
  obtain ⟨byte, -, hdigit⟩ := List.mem_flatMap.mp hmem
  exact isGraphic_byteDigits byte c hdigit

/-- A colon and digits are read as the bytes that the digits spell. -/
theorem parse_eq_of_digits {text digits : List Char} {bytes : List UInt8}
    (htrim : Text.trimEnd text = ':' :: digits) (hbytes : bytesOf? digits = some bytes) :
    parse text = ofBytes bytes := by
  obtain ⟨hdigits, hlength⟩ := digits_of_bytesOf? hbytes
  have heven : Text.encodedLength digits % 2 = 0 := by
    rw [Text.encodedLength_of_isGraphic fun c hmem => Text.isGraphic_of_isHexDigit (hdigits c hmem),
      hlength, Nat.mul_mod_right]
  rw [parse, htrim]
  simp only [heven, hbytes, ne_eq, not_true_eq_false, if_false]

theorem digits_of_parse {text : List Char} {record : Record} (h : parse text = .ok record) :
    ∃ digits bytes, Text.trimEnd text = ':' :: digits ∧ bytesOf? digits = some bytes ∧
      ofBytes bytes = .ok record := by
  rw [parse] at h
  split at h
  · rename_i digits htrim
    split at h
    · cases h
    · split at h
      · cases h
      · rename_i bytes hbytes
        exact ⟨digits, bytes, htrim, hbytes, h⟩
  · cases h

/-- A record is the same whether a digit of it is a small letter or a capital one. -/
theorem parse_recased {front back : List Char} {c d : Char} {value : Nat} {record : Record}
    (h : parse (front ++ c :: back) = .ok record) (hc : Text.digitOf? 16 c = some value)
    (hd : Text.digitOf? 16 d = some value) : parse (front ++ d :: back) = .ok record := by
  have htrim : ∀ {x : Char}, Text.digitOf? 16 x = some value →
      Text.trimEnd (front ++ x :: back) = front ++ x :: Text.trimEnd back := fun hx =>
    Text.dropEndWhile_append_cons
      (Text.isBlank_of_isGraphic (Text.isGraphic_of_isHexDigit (Text.isHexDigit_of_digitOf? hx))) ..
  obtain ⟨digits, bytes, htext, hbytes, hrecord⟩ := digits_of_parse h
  rw [htrim hc] at htext
  cases front with
  | nil =>
      -- A colon is no digit.
      obtain ⟨rfl, -⟩ := List.cons.inj htext
      cases hc
  | cons first front =>
      obtain ⟨rfl, rfl⟩ := List.cons.inj htext
      rw [List.append_eq, bytesOf?_recased (hc.trans hd.symm)] at hbytes
      exact (parse_eq_of_digits (htrim hd) hbytes).trans hrecord

/-- A line is read by the bytes it was written for, whether they make up a record or not. -/
theorem parse_line_eq (record : Record) : parse record.line = ofBytes record.bytes := by
  have htrim : Text.trimEnd record.line = ':' :: record.bytes.flatMap byteDigits :=
    Text.trimEnd_of_isGraphic record.isGraphic_line
  exact parse_eq_of_digits htrim (bytesOf?_byteDigits record.bytes)

/-- **A record is read back from its own line.** -/
theorem parse_line {record : Record} (h : record.Legible) : parse record.line = .ok record := by
  rw [parse_line_eq]
  exact ofBytes_eq_ok_iff.mpr ⟨h, rfl⟩

/-- Whatever is read as a record is one that a line can hold. -/
theorem legible_of_parse {text : List Char} {record : Record}
    (h : parse text = .ok record) : record.Legible := by
  obtain ⟨digits, bytes, -, -, hrecord⟩ := digits_of_parse h
  exact (ofBytes_eq_ok_iff.mp hrecord).1

end UsbBoot.Record
