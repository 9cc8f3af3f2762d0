/-
Release numbers as they are told.

A release number is four digits, and those of a decimal number as far as its makers keep to the
rule.  It is told by way of a decimal number: the first two digits become tens and ones, and are
made into two digits again.  Ones above nine carry into the tens on the way.  So this is what
decides whether a number comes out as it went in; the tens may be any digit, and the last two
are left alone.
-/
import Mathlib.Data.Nat.Bitwise
import UsbBoot.Usb.Bus

namespace UsbBoot.Usb

/-! ### Digits -/

theorem toNat_hexDigit {place : UInt16} (h : place.toNat < 4) (value : UInt16) :
    (hexDigit place value).toNat = value.toNat / 16 ^ place.toNat % 16 := by
  have hshift : (4 * place).toNat % 16 = 4 * place.toNat := by
    rw [UInt16.toNat_mul]
    show 4 * place.toNat % 65536 % 16 = _
    omega
  have hmask : (0xF : UInt16).toNat = 2 ^ 4 - 1 := rfl
  rw [hexDigit, UInt16.toNat_and, UInt16.toNat_shiftRight, hshift, hmask,
    Nat.and_two_pow_sub_one_eq_mod, Nat.shiftRight_eq_div_pow, Nat.pow_mul]

/-- A number put together of digits, of which the first may be too large for its place. -/
theorem toNat_digits (first : UInt16) {second third fourth : UInt16} (hsecond : second.toNat < 16)
    (hthird : third.toNat < 16) (hfourth : fourth.toNat < 16) :
    (first <<< 12 ||| second <<< 8 ||| third <<< 4 ||| fourth).toNat
      = (4096 * first.toNat + 256 * second.toNat + 16 * third.toNat + fourth.toNat) % 2 ^ 16 := by
  -- Each digit stands where the ones behind it have no bits.
  have hback := @Nat.shiftLeft_add_eq_or_of_lt 4 _ hfourth third.toNat
  have hmiddle := @Nat.shiftLeft_add_eq_or_of_lt 8 (third.toNat <<< 4 + fourth.toNat)
    (by rw [Nat.shiftLeft_eq]; omega) second.toNat
  have hfront := @Nat.shiftLeft_add_eq_or_of_lt 12
    (second.toNat <<< 8 + (third.toNat <<< 4 + fourth.toNat))
    (by simp only [Nat.shiftLeft_eq]; omega) first.toNat
  have hsum : first.toNat <<< 12 ||| second.toNat <<< 8 ||| third.toNat <<< 4 ||| fourth.toNat
      = 4096 * first.toNat + 256 * second.toNat + 16 * third.toNat + fourth.toNat := by
    rw [Nat.or_assoc, Nat.or_assoc, ← hback, ← hmiddle, ← hfront]
    simp only [Nat.shiftLeft_eq]
    omega
  calc (first <<< 12 ||| second <<< 8 ||| third <<< 4 ||| fourth).toNat
      = first.toNat <<< 12 % 2 ^ 16 ||| second.toNat <<< 8 % 2 ^ 16 |||
          third.toNat <<< 4 % 2 ^ 16 ||| fourth.toNat % 2 ^ 16 := by
        rw [Nat.mod_eq_of_lt fourth.toNat_lt]
        simp only [UInt16.toNat_or, UInt16.toNat_shiftLeft]
        rfl
    _ = (first.toNat <<< 12 ||| second.toNat <<< 8 ||| third.toNat <<< 4 |||
          fourth.toNat) % 2 ^ 16 := by
        simp only [Nat.or_mod_two_pow]
    _ = (4096 * first.toNat + 256 * second.toNat + 16 * third.toNat + fourth.toNat)
          % 2 ^ 16 := by
        rw [hsum]

/-! ### What comes out -/

/-- The digit that is taken for ones is one of a decimal number. -/
def DecimalOnes (release : UInt16) : Prop :=
  hexDigit 2 release ≤ 9

instance (release : UInt16) : Decidable (DecimalOnes release) :=
  inferInstanceAs (Decidable (_ ≤ _))

theorem decimalOnes_iff {release : UInt16} :
    DecimalOnes release ↔ release.toNat / 256 % 16 ≤ 9 := by
  rw [DecimalOnes, UInt16.le_iff_toNat_le, @toNat_hexDigit 2 (by decide)]
  rfl

/-- The digits of a number that is told are those of a number in base ten and two in base
sixteen. -/
theorem toNat_toldRelease (release : UInt16) :
    let major := 10 * (release.toNat / 4096 % 16) + release.toNat / 256 % 16
    (toldRelease release).toNat
      = (4096 * (major / 10) + 256 * (major % 10) + 16 * (release.toNat / 16 % 16)
        + release.toNat % 16) % 2 ^ 16 := by
  intro major
  have htens : (hexDigit 3 release).toNat = release.toNat / 4096 % 16 :=
    toNat_hexDigit (by decide) release
  have hones : (hexDigit 2 release).toNat = release.toNat / 256 % 16 :=
    toNat_hexDigit (by decide) release
  have hthird : (hexDigit 1 release).toNat = release.toNat / 16 % 16 :=
    toNat_hexDigit (by decide) release
  have hfourth : (hexDigit 0 release).toNat = release.toNat % 16 := by
    rw [toNat_hexDigit (by decide)]
    show release.toNat / 16 ^ 0 % 16 = _
    rw [Nat.pow_zero, Nat.div_one]
  have hmajor : (10 * hexDigit 3 release + hexDigit 2 release).toNat = major := by
    rw [UInt16.toNat_add, UInt16.toNat_mul, htens, hones]
    show (10 * _ % 65536 + _) % 65536 = _
    omega
  have hquotient : ((10 * hexDigit 3 release + hexDigit 2 release) / 10).toNat = major / 10 := by
    rw [UInt16.toNat_div, hmajor]
    rfl
  have hrest : ((10 * hexDigit 3 release + hexDigit 2 release) % 10).toNat = major % 10 := by
    rw [UInt16.toNat_mod, hmajor]
    rfl
  have hdigits := @toNat_digits ((10 * hexDigit 3 release + hexDigit 2 release) / 10)
    ((10 * hexDigit 3 release + hexDigit 2 release) % 10) (hexDigit 1 release) (hexDigit 0 release)
    (by omega) (by omega) (by omega)
  rw [hquotient, hrest, hthird, hfourth] at hdigits
  exact hdigits

/-- **Of ones above nine, ten are carried into the tens.** -/
theorem toldRelease_eq (release : UInt16) :
    toldRelease release = if DecimalOnes release then release else release + 0x600 := by
  have htold := toNat_toldRelease release
  have hlt := release.toNat_lt
  rw [← UInt16.toNat_inj]
  by_cases hones : DecimalOnes release
  · rw [if_pos hones]
    have hsmall := decimalOnes_iff.mp hones
    omega
  · rw [if_neg hones, UInt16.toNat_add]
    show _ = (release.toNat + 1536) % 2 ^ 16
    have hlarge := mt decimalOnes_iff.mpr hones
    omega

theorem toldRelease_eq_self_iff {release : UInt16} :
    toldRelease release = release ↔ DecimalOnes release := by
  rw [toldRelease_eq]
  split
  · simp [*]
  · rename_i hones
    refine iff_of_false (fun hsame => ?_) hones
    have hzero := congrArg UInt16.toNat hsame
    rw [UInt16.toNat_add] at hzero
    have hlt := release.toNat_lt
    have hcarry : (0x600 : UInt16).toNat = 1536 := rfl
    omega

end UsbBoot.Usb
