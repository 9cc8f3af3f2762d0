/-
What a boot loader makes of an EEPROM.

The loader in the silicon is told by its format alone: where the header ends, how numbers
are put together from bytes, which bit marks the last record.  It is written down here
without a look at how the format is produced, and then shown to read back what was
encoded.  Reading records goes on until a last one is found, so what an EEPROM holds
determines the records that are read from it.
-/
import UsbBoot.Eeprom.Format
import UsbBoot.Proofs.Memory

namespace UsbBoot.Eeprom

open Device (Identity)

/-! ### Reading -/

/-- What the header of an EEPROM tells a part. -/
structure Header where
  marker : UInt8
  identity : Identity
  /-- The config byte, on families that have one. -/
  config : Option UInt8
  deriving DecidableEq, Repr

/-- A record as it is read. -/
structure Record where
  address : Nat
  data : List UInt8
  /-- Whether it is the last one. -/
  last : Bool
  deriving DecidableEq, Repr

/-- The number of bytes a record takes up. -/
def Record.size (record : Record) : Nat :=
  4 + record.data.length

/-- The number with these two bytes. -/
def number (high low : UInt8) : Nat :=
  high.toNat * 0x100 + low.toNat

/-- Read a number whose high byte comes first. -/
def readHighFirst? (memory : Memory) (offset : Nat) : Option Nat := do
  let high ← memory offset
  let low ← memory (offset + 1)
  return number high low

def readLowFirst? (memory : Memory) (offset : Nat) : Option Nat := do
  let low ← memory offset
  let high ← memory (offset + 1)
  return number high low

def readHeader? (hasConfigByte : Bool) (memory : Memory) : Option Header := do
  let marker ← memory 0
  let vendor ← readLowFirst? memory 1
  let product ← readLowFirst? memory 3
  let release ← readLowFirst? memory 5
  let config ← if hasConfigByte then (memory 7).map some else some none
  return ⟨marker, ⟨⟨vendor.toUInt16, product.toUInt16⟩, release.toUInt16⟩, config⟩

/-- Read the record at an offset: the top bit of its length is no part of the length. -/
def readRecord? (memory : Memory) (offset : Nat) : Option Record := do
  let length ← readHighFirst? memory offset
  let address ← readHighFirst? memory (offset + 2)
  let data ← memory.read? (offset + 4) (length % 0x8000)
  return ⟨address, data, decide (0x8000 ≤ length)⟩

/-- From an offset on, these are the records up to the last one. -/
inductive ReadsRecords (memory : Memory) : Nat → List Record → Prop
  | last {offset : Nat} {record : Record} (hread : readRecord? memory offset = some record)
    (hlast : record.last = true) : ReadsRecords memory offset [record]
  | next {offset : Nat} {record : Record} {rest : List Record}
    (hread : readRecord? memory offset = some record) (hlast : record.last = false)
    (hrest : ReadsRecords memory (offset + record.size) rest) :
    ReadsRecords memory offset (record :: rest)

/-- The memory after the data of some records was copied to where they say. -/
def copyRecords (memory : Memory) (records : List Record) : Memory :=
  records.foldl (fun memory record => (Memory.stretch record.address record.data).onto memory)
    memory

/-- There is one way to read an EEPROM. -/
theorem ReadsRecords.unique {memory : Memory} {offset : Nat} {xs ys : List Record}
    (hxs : ReadsRecords memory offset xs) (hys : ReadsRecords memory offset ys) : xs = ys := by
  induction hxs generalizing ys with
  | last hread hlast =>
      cases hys with
      | last hother _ => rw [Option.some.inj (hread.symm.trans hother)]
      | next hother hmore _ =>
          rw [Option.some.inj (hread.symm.trans hother), hmore] at hlast
          cases hlast
  | next hread hlast hrest ih =>
      cases hys with
      | last hother hdone =>
          rw [Option.some.inj (hread.symm.trans hother), hdone] at hlast
          cases hlast
      | next hother _ hmore =>
          obtain rfl := Option.some.inj (hread.symm.trans hother)
          rw [ih hmore]

/-! ### Numbers -/

theorem number_bytes (value : UInt16) :
    number (value >>> 8).toUInt8 value.toUInt8 = value.toNat := by
  have hlt : value.toNat < 0x10000 := value.toNat_lt
  simp only [number, UInt16.toNat_toUInt8, UInt16.toNat_shiftRight, Nat.shiftRight_eq_div_pow]
  simp
  omega

@[simp] theorem length_highFirst (value : UInt16) : (highFirst value).length = 2 := rfl

theorem readHighFirst?_stretch (start : Nat) (front back : List UInt8) (value : UInt16) :
    readHighFirst? (Memory.stretch start (front ++ (highFirst value ++ back)))
      (start + front.length) = some value.toNat := by
  have hhigh := Memory.stretch_behind start front (highFirst value ++ back) 0
  have hlow := Memory.stretch_behind start front (highFirst value ++ back) 1
  rw [readHighFirst?, ← number_bytes value]
  simp only [Nat.add_zero] at hhigh
  rw [hhigh, hlow]
  rfl

/-! ### The header is read back -/

/-- What the header for a part and a config byte says. -/
def headerOf (profile : Chip.Profile) (identity : Identity) (config : UInt8) : Header where
  marker := profile.bootMarker
  identity := identity
  config := if profile.hasConfigByte then some (config &&& profile.configMask) else none

theorem readHeader?_bootHeader (profile : Chip.Profile) (identity : Identity) (config : UInt8)
    (back : List UInt8) :
    readHeader? profile.hasConfigByte
        (Memory.stretch 0 (bootHeader profile identity config ++ back))
      = some (headerOf profile identity config) := by
  cases hconfig : profile.hasConfigByte <;>
    simp [readHeader?, readLowFirst?, bootHeader, lowFirst, Memory.stretch, number_bytes,
      headerOf, hconfig]

/-! ### Records are read back -/

/-- A record's header has room for this length and this address. -/
def HasRoom (length : Nat) (address : UInt32) : Prop :=
  length ≤ maxRecord ∧ address.toNat ≤ 0xFFFF

instance (length : Nat) (address : UInt32) : Decidable (HasRoom length address) :=
  inferInstanceAs (Decidable (_ ∧ _))

/-- The length field of a record's header. -/
def lengthField (length : Nat) (last : Bool) : UInt16 :=
  if last then length.toUInt16 ||| lastFlag else length.toUInt16

def headerBytes (length : Nat) (address : UInt32) (last : Bool) : List UInt8 :=
  highFirst (lengthField length last) ++ highFirst address.toUInt16

theorem recordHeader_of_hasRoom {length : Nat} {address : UInt32} (h : HasRoom length address)
    (last : Bool) : recordHeader length address last = .ok (headerBytes length address last) := by
  have hroom : ¬(maxRecord < length ∨ 0xFFFF < address) := by
    rw [UInt32.lt_iff_toNat_lt]
    rintro (hlong | hfar)
    · exact Nat.not_lt.mpr h.1 hlong
    · exact Nat.not_lt.mpr h.2 hfar
  rw [recordHeader, if_neg hroom]
  rfl

/-- The last-record bit is above all lengths there is room for. -/
theorem toNat_lengthField {length : Nat} (h : length ≤ maxRecord) (last : Bool) :
    (lengthField length last).toNat = length + if last then 0x8000 else 0 := by
  have hlt : length < 2 ^ 15 := Nat.lt_of_le_of_lt h (by decide)
  have hword : length.toUInt16.toNat = length := by
    rw [Nat.toUInt16_eq, UInt16.toNat_ofNat']
    omega
  cases last with
  | false => simpa [lengthField] using hword
  | true =>
      have hflag : 2 ^ 15 + length = 2 ^ 15 ||| length :=
        Nat.two_pow_add_eq_or_of_lt hlt 1
      have hor : (lengthField length true).toNat = length ||| 2 ^ 15 := by
        simp only [lengthField, if_true, UInt16.toNat_or, hword]
        rfl
      rw [hor, Nat.or_comm, ← hflag, Nat.add_comm]
      rfl

theorem lengthField_mod {length : Nat} (h : length ≤ maxRecord) (last : Bool) :
    (lengthField length last).toNat % 0x8000 = length := by
  have hmost : length ≤ 1023 := h
  rw [toNat_lengthField h]
  cases last <;> simp only [Bool.false_eq_true, if_true, if_false] <;> omega

theorem lengthField_last {length : Nat} (h : length ≤ maxRecord) (last : Bool) :
    decide (0x8000 ≤ (lengthField length last).toNat) = last := by
  have hmost : length ≤ 1023 := h
  rw [toNat_lengthField h]
  cases last with
  | false => exact decide_eq_false (by simp only [Bool.false_eq_true, if_false]; omega)
  | true => exact decide_eq_true (by simp only [if_true]; omega)

def recordBytes (address : UInt32) (data : List UInt8) (last : Bool) : List UInt8 :=
  headerBytes data.length address last ++ data

theorem length_recordBytes (address : UInt32) (data : List UInt8) (last : Bool) :
    (recordBytes address data last).length = 4 + data.length := by
  simp [recordBytes, headerBytes, highFirst]
  omega

theorem readRecord?_recordBytes (front back : List UInt8) {address : UInt32}
    {data : List UInt8} (h : HasRoom data.length address) (last : Bool) :
    readRecord? (Memory.stretch 0 (front ++ (recordBytes address data last ++ back)))
        front.length
      = some ⟨address.toNat, data, last⟩ := by
  have hbytes : front ++ (recordBytes address data last ++ back)
      = front ++ (highFirst (lengthField data.length last)
        ++ (highFirst address.toUInt16 ++ (data ++ back))) := by
    simp [recordBytes, headerBytes]
  have hlength := readHighFirst?_stretch 0 front
    (highFirst address.toUInt16 ++ (data ++ back)) (lengthField data.length last)
  have haddress := readHighFirst?_stretch 0
    (front ++ highFirst (lengthField data.length last)) (data ++ back) address.toUInt16
  have hdata := Memory.read?_stretch 0
    (front ++ highFirst (lengthField data.length last) ++ highFirst address.toUInt16) data back
  simp only [List.append_assoc, List.length_append, length_highFirst, Nat.zero_add]
    at hlength haddress hdata
  have haddressValue : address.toUInt16.toNat = address.toNat := by
    have hnear := h.2
    rw [UInt32.toNat_toUInt16]
    omega
  rw [hbytes, readRecord?, hlength, haddress, haddressValue]
  simp only [Option.bind_eq_bind, Option.bind_some, lengthField_mod h.1, lengthField_last h.1,
    hdata]
  rfl

/-! ### All records are read back -/

/-- The record that carries a chunk. -/
def recordOf (chunk : Chunk) : Record :=
  ⟨chunk.address.toNat, chunk.data, false⟩

/-- The bytes of the records that carry some chunks. -/
def chunkBytes (list : List Chunk) : List UInt8 :=
  list.flatMap fun chunk => recordBytes chunk.address chunk.data false

theorem chunkBytes_cons (chunk : Chunk) (rest : List Chunk) :
    chunkBytes (chunk :: rest)
      = recordBytes chunk.address chunk.data false ++ chunkBytes rest := by
  simp [chunkBytes]

/-- Records that follow one another, with a last one at their end, are read one by one. -/
theorem readsRecords_chunkBytes {list : List Chunk}
    (hroom : ∀ chunk ∈ list, HasRoom chunk.data.length chunk.address) {address : UInt32}
    {data : List UInt8} (hlast : HasRoom data.length address) (front back : List UInt8) :
    ReadsRecords
      (Memory.stretch 0 (front ++ (chunkBytes list ++ (recordBytes address data true ++ back))))
      front.length (list.map recordOf ++ [⟨address.toNat, data, true⟩]) := by
  induction list generalizing front with
  | nil => exact .last (readRecord?_recordBytes front back hlast true) rfl
  | cons chunk rest ih =>
      have hread := readRecord?_recordBytes front
        (chunkBytes rest ++ (recordBytes address data true ++ back))
        (hroom chunk List.mem_cons_self) false
      have hrest := ih (fun other hmem => hroom other (List.mem_cons_of_mem _ hmem))
        (front ++ recordBytes chunk.address chunk.data false)
      rw [List.length_append, length_recordBytes, List.append_assoc] at hrest
      rw [chunkBytes_cons, List.append_assoc]
      exact .next hread rfl hrest

end UsbBoot.Eeprom
