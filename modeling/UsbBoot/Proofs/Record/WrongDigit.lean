/-
A record with a wrong digit.

The bytes of a record sum to zero, so no single one can be another without the sum being
another, and the checksum is compared with the sum.  Only the count is compared with
something else before: with the number of bytes.  A digit of a line changes the one byte it
is part of, so a wrong digit is found by one or the other comparison.
-/
import UsbBoot.Proofs.Record.Line

namespace UsbBoot.Record

/-- What a wrong byte is found by: a count that the bytes do not agree with, or a checksum. -/
inductive Fault.Betrays (inCount grown : Prop) : Fault → Prop
  | truncated (hcount : inCount) (hgrown : grown) : Betrays inCount grown .truncated
  | trailing (hcount : inCount) (hshrunk : ¬grown) : Betrays inCount grown .trailing
  | checksum (hbehind : ¬inCount) {expected actual : UInt8} (hdiffer : expected ≠ actual) :
    Betrays inCount grown (.checksum expected actual)

/-! ### A wrong byte -/

/-- The sum of some bytes, modulo 256. -/
def sumOf (bytes : List UInt8) : UInt8 :=
  bytes.foldr (· + ·) 0

theorem sumOf_cons (byte : UInt8) (rest : List UInt8) :
    sumOf (byte :: rest) = byte + sumOf rest :=
  rfl

theorem sumOf_append (xs ys : List UInt8) : sumOf (xs ++ ys) = sumOf xs + sumOf ys := by
  induction xs with
  | nil => exact (UInt8.zero_add _).symm
  | cons x xs ih => rw [List.cons_append, sumOf_cons, sumOf_cons, ih, UInt8.add_assoc]

/-- The right checksum is the one that brings the sum to zero. -/
theorem eq_checksumOf_iff {bytes : List UInt8} {checksum : UInt8} :
    checksum = checksumOf bytes ↔ sumOf (bytes ++ [checksum]) = 0 := by
  have hlast : sumOf [checksum] = checksum := UInt8.add_zero checksum
  rw [checksumOf, ← sumOf, sumOf_append, hlast]
  grind

theorem sumOf_of_ofBytes {bytes : List UInt8} {record : Record} (h : ofBytes bytes = .ok record) :
    sumOf bytes = 0 := by
  obtain ⟨hlegible, rfl⟩ := ofBytes_eq_ok_iff.mp h
  exact eq_checksumOf_iff.mp (record.isSound_iff.mp hlegible.sound)

/-- Bytes that do not sum to zero, though their count is right, are refused by their checksum. -/
theorem ofBytes_of_sumOf {bytes : List UInt8} {count : UInt8}
    (hcount : bytes.length = count.toNat + 4) (hsum : sumOf (count :: bytes) ≠ 0) :
    ∃ expected actual, expected ≠ actual ∧
      ofBytes (count :: bytes) = .error (.checksum expected actual) := by
  obtain ⟨high, low, tag, payload, checksum, hlength, hbytes⟩ :=
    @exists_fields (count :: bytes) count rfl (by rw [List.length_cons, hcount]; rfl)
  obtain rfl := (List.cons.inj hbytes).2
  have hwrong : checksum ≠ checksumOf ([count, high, low, tag] ++ payload) := by
    rw [ne_eq, eq_checksumOf_iff, List.append_assoc]
    exact hsum
  exact ⟨_, _, hwrong.symm, by rw [ofBytes_counted high low tag checksum hlength, if_pos hwrong]⟩

/-- Bytes of a record whose count is changed are too few or too many. -/
theorem ofBytes_wrongCount {after : List UInt8} {count wrong : UInt8} {record : Record}
    (h : ofBytes (count :: after) = .ok record) (hne : wrong ≠ count) :
    ofBytes (wrong :: after) = .error (if count < wrong then .truncated else .trailing) := by
  obtain ⟨count, high, low, tag, payload, checksum, hcount, hbytes⟩ := counted_of_ofBytes h
  obtain ⟨rfl, rfl⟩ := List.cons.inj hbytes
  have hlength : (wrong :: high :: low :: tag :: (payload ++ [checksum])).length
      = count.toNat + overhead := by
    simp [overhead, hcount]
  rw [ofBytes.eq_def]
  simp only [hlength, Nat.add_lt_add_iff_right, ← UInt8.lt_iff_toNat_lt]
  by_cases hgrown : count < wrong
  · simp only [hgrown, if_true]
  · have hshrunk : wrong < count := by grind
    simp only [hgrown, hshrunk, if_true, if_false]

/-- **A record with a wrong byte is refused**: by its length if that byte is the count, and
otherwise by its checksum. -/
theorem ofBytes_wrongByte {before after : List UInt8} {byte wrong : UInt8} {record : Record}
    (h : ofBytes (before ++ byte :: after) = .ok record) (hne : wrong ≠ byte) :
    ∃ fault, ofBytes (before ++ wrong :: after) = .error fault ∧
      fault.Betrays (before = []) (byte < wrong) := by
  cases before with
  | nil =>
      refine ⟨_, ofBytes_wrongCount h hne, ?_⟩
      split
      · exact .truncated rfl ‹_›
      · exact .trailing rfl ‹_›
  | cons count before =>
      obtain ⟨count, high, low, tag, payload, checksum, hcount, hbytes⟩ := counted_of_ofBytes h
      obtain ⟨rfl, hrest⟩ := List.cons.inj hbytes
      have hlength : (before ++ wrong :: after).length = count.toNat + 4 := by
        have hsame : (before ++ byte :: after).length = count.toNat + 4 := by
          simp [show before ++ byte :: after = _ from hrest, hcount]
        rwa [List.length_append, List.length_cons] at hsame ⊢
      have hsum : sumOf (count :: (before ++ wrong :: after)) ≠ 0 := by
        have hright := sumOf_of_ofBytes h
        simp only [List.cons_append, sumOf_cons, sumOf_append] at hright ⊢
        grind
      obtain ⟨expected, actual, hdiffer, hread⟩ := ofBytes_of_sumOf hlength hsum
      exact ⟨_, hread, .checksum (List.cons_ne_nil _ _) hdiffer⟩

/-! ### A wrong digit -/

theorem toNat_pair {h l : Nat} (hh : h < 16) (hl : l < 16) :
    (h * 16 + l).toUInt8.toNat = h * 16 + l := by
  rw [Nat.toUInt8_eq, UInt8.toNat_ofNat']
  omega

section

variable {c d : Char} {value wrong : Nat} (hc : Text.digitOf? 16 c = some value)
  (hd : Text.digitOf? 16 d = some wrong) (hne : wrong ≠ value)
include hc hd hne

/-- Another digit makes one byte another, which grows as the digit does. -/
theorem bytesOf?_wrongDigit {front back : List Char} {bytes : List UInt8}
    (hbytes : bytesOf? (front ++ c :: back) = some bytes) :
    ∃ before byte other after, bytes = before ++ byte :: after ∧
      bytesOf? (front ++ d :: back) = some (before ++ other :: after) ∧
      other ≠ byte ∧ (byte < other ↔ value < wrong) ∧ (before = [] ↔ front.length < 2) := by
  have hvalue := Text.lt_of_digitOf? hc
  have hwrong := Text.lt_of_digitOf? hd
  -- Two digits at a time, as they make up bytes.
  induction front using List.twoStepInduction generalizing bytes with
  | nil =>
      rcases back with _ | ⟨low, rest⟩
      · cases hbytes
      · obtain ⟨h, l, behind, hhigh, hlow, hrest, rfl⟩ := bytesOf?_cons_eq_some_iff.mp hbytes
        obtain rfl := Option.some.inj (hc.symm.trans hhigh)
        have hl := Text.lt_of_digitOf? hlow
        refine ⟨[], _, _, behind, rfl,
          bytesOf?_cons_eq_some_iff.mpr ⟨wrong, l, behind, hd, hlow, hrest, rfl⟩, ?_, ?_, by simp⟩
        · rw [ne_eq, ← UInt8.toNat_inj, toNat_pair hvalue hl, toNat_pair hwrong hl]
          omega
        · rw [UInt8.lt_iff_toNat_lt, toNat_pair hvalue hl, toNat_pair hwrong hl]
          omega
  | singleton high =>
      obtain ⟨h, l, behind, hhigh, hlow, hrest, rfl⟩ := bytesOf?_cons_eq_some_iff.mp hbytes
      obtain rfl := Option.some.inj (hc.symm.trans hlow)
      have hh := Text.lt_of_digitOf? hhigh
      refine ⟨[], _, _, behind, rfl,
        bytesOf?_cons_eq_some_iff.mpr ⟨h, wrong, behind, hhigh, hd, hrest, rfl⟩, ?_, ?_, by simp⟩
      · rw [ne_eq, ← UInt8.toNat_inj, toNat_pair hh hvalue, toNat_pair hh hwrong]
        omega
      · rw [UInt8.lt_iff_toNat_lt, toNat_pair hh hvalue, toNat_pair hh hwrong]
        omega
  | cons_cons high low front ih =>
      obtain ⟨h, l, behind, hhigh, hlow, hrest, rfl⟩ := bytesOf?_cons_eq_some_iff.mp hbytes
      obtain ⟨before, byte, other, after, rfl, hother, hdiffer, hgrown, -⟩ := ih hrest
      exact ⟨_ :: before, byte, other, after, rfl,
        bytesOf?_cons_eq_some_iff.mpr ⟨h, l, _, hhigh, hlow, hother, rfl⟩, hdiffer, hgrown,
        by simp⟩

end

/-! ### A wrong digit in a line -/

/-- **The text of a record with a wrong digit is refused**: by its length if that digit is one
of the count, and otherwise by its checksum. -/
theorem parse_wrongDigit {front back : List Char} {c d : Char} {value wrong : Nat}
    {record : Record} (h : parse (front ++ c :: back) = .ok record)
    (hc : Text.digitOf? 16 c = some value) (hd : Text.digitOf? 16 d = some wrong)
    (hne : wrong ≠ value) :
    front.head? = some ':' ∧ ∃ fault, parse (front ++ d :: back) = .error fault ∧
      fault.Betrays (front.countP Text.isHexDigit < 2) (value < wrong) := by
  have htrim : ∀ {x : Char} {value : Nat}, Text.digitOf? 16 x = some value →
      Text.trimEnd (front ++ x :: back) = front ++ x :: Text.trimEnd back := fun hx =>
    Text.dropEndWhile_append_cons
      (Text.isBlank_of_isGraphic (Text.isGraphic_of_isHexDigit (Text.isHexDigit_of_digitOf? hx))) ..
  obtain ⟨digits, bytes, htext, hbytes, hrecord⟩ := digits_of_parse h
  rw [htrim hc] at htext
  rcases front with _ | ⟨first, front⟩
  · -- A colon is no digit.
    obtain ⟨rfl, -⟩ := List.cons.inj htext
    cases hc
  · obtain ⟨rfl, rfl⟩ := List.cons.inj htext
    obtain ⟨before, byte, other, after, rfl, hother, hdiffer, hgrown, hcount⟩ :=
      bytesOf?_wrongDigit hc hd hne hbytes
    obtain ⟨fault, hread, hbetrays⟩ := ofBytes_wrongByte hrecord hdiffer
    have hdigits := (digits_of_bytesOf? hbytes).1
    have hplaces : (':' :: front).countP Text.isHexDigit = front.length := by
      rw [List.countP_cons_of_neg (by decide)]
      exact List.countP_eq_length.mpr fun x hmem => hdigits x (List.mem_append_left _ hmem)
    refine ⟨rfl, fault, ?_, ?_⟩
    · exact (parse_eq_of_digits (htrim hd) hother).trans hread
    · rw [hplaces, ← hcount, ← hgrown]
      exact hbetrays

end UsbBoot.Record
