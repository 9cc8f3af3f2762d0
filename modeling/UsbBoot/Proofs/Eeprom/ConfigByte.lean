/-
Which texts are config bytes.

A config byte is a number in one of three bases, which is told by how it begins.  The three do
not get into each other's way: no digit looks like the mark of another base, and a decimal number
begins with a zero only if there is nothing else to it.  So a text denotes one number at most,
and it is read as that number or, if it is no byte, not at all.  It makes no difference how far
above the bytes it lies; the wider bound that is looked at first is never what decides.
-/
import UsbBoot.Eeprom.ConfigByte
import UsbBoot.Proofs.Text.Numeral

namespace UsbBoot.Eeprom

/-! ### What is typed -/

/-- A number in one of the three bases, by how it is typed. -/
inductive IsConfigNumber : List Char → Nat → Prop
  | hexadecimal {mark : Char} {digits : List Char} {value : Nat} (hmark : mark = 'x' ∨ mark = 'X')
    (hnumber : Text.IsNumber 16 digits value) : IsConfigNumber ('0' :: mark :: digits) value
  | octal {digits : List Char} {value : Nat} (hnumber : Text.IsNumber 8 digits value) :
    IsConfigNumber ('0' :: digits) value
  | decimal {digits : List Char} {value : Nat}
    (hzero : digits = ['0'] ∨ digits.head? ≠ some '0') (hnumber : Text.IsNumber 10 digits value) :
    IsConfigNumber digits value

/-- A text that is such a number, apart from blanks around it. -/
def IsConfigText (text : String) (value : Nat) : Prop :=
  ∃ core, Text.TrimsTo text.toList core ∧ IsConfigNumber core value

/-! ### The base is told by the beginning -/

theorem configDigits_le (core : List Char) : (configDigits core).1 ≤ 16 := by
  fun_cases configDigits core <;> simp

theorem isConfigNumber_marked {mark : Char} {digits : List Char} {value : Nat}
    (hmark : mark = 'x' ∨ mark = 'X') :
    IsConfigNumber ('0' :: mark :: digits) value ↔ Text.IsNumber 16 digits value := by
  constructor
  · intro h
    cases h with
    | hexadecimal _ hnumber => exact hnumber
    | octal hnumber => exact absurd List.mem_cons_self (hnumber.not_mem_mark hmark)
    | decimal hzero => simp at hzero
  · exact .hexadecimal hmark

/-- **What is typed is a number of the base that its beginning tells.** -/
theorem isConfigNumber_iff {core : List Char} {value : Nat} :
    IsConfigNumber core value
      ↔ Text.IsNumber (configDigits core).1 (configDigits core).2 value := by
  fun_cases configDigits core with
  | case1 digits => exact isConfigNumber_marked (Or.inl rfl)
  | case2 digits => exact isConfigNumber_marked (Or.inr rfl)
  | case3 digit digits hsmall hcapital =>
      constructor
      · intro h
        cases h with
        | hexadecimal hmark =>
            rcases hmark with rfl | rfl
            · exact absurd rfl hsmall
            · exact absurd rfl hcapital
        | octal hnumber => exact hnumber
        | decimal hzero => simp at hzero
      · exact .octal
  | case4 _ hsmall hcapital hmore =>
      constructor
      · intro h
        cases h with
        | hexadecimal hmark =>
            rcases hmark with rfl | rfl
            · exact absurd rfl (hsmall _)
            · exact absurd rfl (hcapital _)
        | octal hnumber =>
            obtain ⟨digit, digits, rfl⟩ := List.exists_cons_of_ne_nil hnumber.ne_nil
            exact absurd rfl (hmore digit digits)
        | decimal _ hnumber => exact hnumber
      · intro hnumber
        refine .decimal ?_ hnumber
        by_contra hzero
        obtain ⟨hother, hhead⟩ := not_or.mp hzero
        obtain ⟨rest, rfl⟩ := List.head?_eq_some_iff.mp (not_not.mp hhead)
        cases rest with
        | nil => exact hother rfl
        | cons digit digits => exact hmore digit digits rfl

theorem IsConfigText.unique {text : String} {value other : Nat} (h : IsConfigText text value)
    (hother : IsConfigText text other) : value = other := by
  obtain ⟨core, htrim, hnumber⟩ := h
  obtain ⟨core', htrim', hnumber'⟩ := hother
  obtain rfl := (Text.trim_eq_iff.mpr htrim).symm.trans (Text.trim_eq_iff.mpr htrim')
  exact (isConfigNumber_iff.mp hnumber).unique (configDigits_le core)
    (isConfigNumber_iff.mp hnumber')

/-! ### What is read -/

theorem isConfigText_iff {text : String} {value : Nat} :
    IsConfigText text value ↔
      Text.IsNumber (configDigits (Text.trim text.toList)).1
        (configDigits (Text.trim text.toList)).2 value := by
  rw [← isConfigNumber_iff]
  constructor
  · rintro ⟨core, htrim, hnumber⟩
    rwa [Text.trim_eq_iff.mpr htrim]
  · intro hnumber
    exact ⟨_, Text.trimsTo_trim text.toList, hnumber⟩

theorem readConfigByte?_eq_some_iff {text : String} {byte : UInt8} :
    readConfigByte? text = some byte ↔ IsConfigText text byte.toNat := by
  have hread := Text.readNumber_eq_ok_iff (configDigits_le (Text.trim text.toList)) longLimit
    (configDigits (Text.trim text.toList)).2
  simp only [← isConfigText_iff] at hread
  rw [readConfigByte?]
  dsimp only
  constructor
  · intro h
    split at h
    · cases h
    · rename_i value hvalue
      split at h
      · rename_i hbyte
        obtain rfl := Option.some.inj h
        have hsame : value.toUInt8.toNat = value := by
          rw [Nat.toUInt8_eq, UInt8.toNat_ofNat']
          exact Nat.mod_eq_of_lt hbyte
        rw [hsame]
        exact ((hread value).mp hvalue).1
      · cases h
  · intro h
    have hbyte : byte.toNat < byteLimit := byte.toNat_lt
    rw [(hread byte.toNat).mpr ⟨h, Nat.lt_trans hbyte (by decide)⟩]
    dsimp only
    rw [if_pos hbyte]
    exact congrArg some UInt8.ofNat_toNat

/--
**Which texts are config bytes.**

A text is read as a byte exactly if, without the blanks around it, it is a number in one of the
three bases and that number is the byte.  A number above the bytes is refused however large it
is, and so is all that is no number.
-/
theorem readConfigByte?_exact (text : String) :
    (∀ byte, readConfigByte? text = some byte ↔ IsConfigText text byte.toNat) ∧
    (∀ value, IsConfigText text value → 0xFF < value → readConfigByte? text = none) ∧
    ((∀ value, ¬IsConfigText text value) → readConfigByte? text = none) := by
  refine ⟨fun byte => readConfigByte?_eq_some_iff, fun value hvalue hlarge => ?_, fun hnone => ?_⟩
  · refine Option.eq_none_iff_forall_not_mem.mpr fun byte hbyte => ?_
    have hsame := hvalue.unique (readConfigByte?_eq_some_iff.mp hbyte)
    have hlt := byte.toNat_lt
    omega
  · exact Option.eq_none_iff_forall_not_mem.mpr fun byte hbyte =>
      hnone _ (readConfigByte?_eq_some_iff.mp hbyte)

/-- A number that would be 0x41 if it started over at 32 bits; a digit too large for its base. -/
theorem readConfigByte?_exact_wrapping :
    IsConfigText "\u3000+4294967361\n" 0x100000041 ∧
      readConfigByte? "\u3000+4294967361\n" = none ∧
      (∀ value, ¬IsConfigText "09" value) ∧ readConfigByte? "09" = none := by
  have hlarge : IsConfigText "\u3000+4294967361\n" 0x100000041 :=
    isConfigText_iff.mpr ((Text.readNumber_eq_ok_iff (configDigits_le _) 0x200000000 _ _).mp
      (by decide +kernel)).1
  have hnone : ∀ value, ¬IsConfigText "09" value := by
    intro value h
    have hread := (Text.readNumber_eq_ok_iff (configDigits_le _) (value + 1) _ value).mpr
      ⟨isConfigText_iff.mp h, Nat.lt_succ_self value⟩
    cases hread
  exact ⟨hlarge, (readConfigByte?_exact _).2.1 _ hlarge (by decide), hnone,
    (readConfigByte?_exact _).2.2 hnone⟩

end UsbBoot.Eeprom
