import LinProg.Proofs.Decimal.Bits
import LinProg.Proofs.Decimal.ReadBack

/-!
# The range of the doubles

A decimal is read as a finite double exactly if it is closer to zero than half a unit in the last
place above the largest double. The half itself is a tie that goes to the even significand, and this
one is out of range.
-/

namespace LinProg

theorem roundDiv_lt_iff {n d k : Nat} (hd : 0 < d) (heven : k % 2 = 0) :
    roundDiv n d < k ↔ 2 * n + d < 2 * (d * k) := by
  have hn : d * (n / d) + n % d = n := Nat.div_add_mod n d
  have hr : n % d < d := Nat.mod_lt n hd
  have hsucc : d * (n / d + 1) = d * (n / d) + d := Nat.mul_succ d (n / d)
  unfold roundDiv
  dsimp only
  rcases lt_trichotomy (n / d + 1) k with hlt | rfl | hgt
  · have hmul : d * (n / d + 1 + 1) ≤ d * k := Nat.mul_le_mul_left d hlt
    rw [Nat.mul_succ] at hmul
    split_ifs <;> omega
  · -- the lower neighbour is odd, so a tie goes to the upper one
    split_ifs <;> omega
  · have hmul : d * k ≤ d * (n / d) := Nat.mul_le_mul_left d (Nat.lt_succ_iff.mp hgt)
    split_ifs <;> omega

theorem roundDiv_lt_iff_div_lt {n d k : Nat} (hd : 0 < d) (heven : k % 2 = 0) :
    roundDiv n d < k ↔ (n : ℚ) / d < k - 1 / 2 := by
  have hd' : (0 : ℚ) < d := by exact_mod_cast hd
  have hcast : 2 * n + d < 2 * (d * k) ↔ (2 * n + d : ℚ) < 2 * (d * k) := by
    exact_mod_cast Iff.rfl
  rw [roundDiv_lt_iff hd heven, div_lt_iff₀ hd', hcast]
  constructor
  · intro h
    linarith
  · intro h
    linarith

namespace Binary64

open Float.Model Float.Model.UnpackedFloat

/-- The least number that is too large to be rounded to a double. -/
def overflow : ℚ := 2 ^ (1024 : Int) - 2 ^ (970 : Int)

theorem overflow_eq : overflow = (2 ^ 53 - 1 / 2) * 2 ^ (971 : Int) := by
  have hhigh : (2 : ℚ) ^ (1024 : Int) = 2 ^ 53 * 2 ^ (971 : Int) := by
    rw [← zpow_natCast, ← zpow_add₀ (by norm_num)]
    rfl
  have hlow : (2 : ℚ) ^ (971 : Int) = 2 ^ (970 : Int) * 2 := by
    rw [← zpow_add_one₀ (by norm_num)]
    rfl
  unfold overflow
  rw [sub_mul, hhigh, hlow]
  ring

theorem two_zpow_le_overflow {k : Int} (hk : k ≤ 1023) : (2 : ℚ) ^ k ≤ overflow := by
  have hsucc : (2 : ℚ) ^ (1024 : Int) = 2 ^ (1023 : Int) * 2 := by
    rw [← zpow_add_one₀ (by norm_num)]
    rfl
  have hsmall : (2 : ℚ) ^ (970 : Int) ≤ 2 ^ (1023 : Int) :=
    zpow_le_zpow_right₀ (by norm_num) (by norm_num)
  calc (2 : ℚ) ^ k ≤ 2 ^ (1023 : Int) := zpow_le_zpow_right₀ (by norm_num) hk
    _ = 2 ^ (1024 : Int) - 2 ^ (1023 : Int) := by rw [hsucc, mul_two, add_sub_cancel_right]
    _ ≤ overflow := sub_le_sub_left hsmall _

theorem overflow_lt : overflow < 2 ^ (1024 : Int) := sub_lt_self _ (zpow_pos (by norm_num) _)

/-- The significand of a ratio against an even bound. -/
theorem significand_lt_iff {n d k : Nat} (hd : 0 < d) (heven : k % 2 = 0) (place : Int) :
    roundDiv (n * Nat.pow 2 (-place).toNat) (d * Nat.pow 2 place.toNat) < k ↔
      (n : ℚ) / d < (k - 1 / 2) * 2 ^ place := by
  have hpos : 0 < d * Nat.pow 2 place.toNat := Nat.mul_pos hd (Nat.pow_pos (by decide))
  have hplace : (0 : ℚ) < 2 ^ place := zpow_pos (by norm_num) _
  rw [roundDiv_lt_iff_div_lt hpos heven, scaled_div n hd, div_lt_iff₀ hplace]

theorem ofRatio_lt_infinity_iff {n d : Nat} (hn : 0 < n) (hd : 0 < d) :
    ofRatio n d < infinity ↔ (n : ℚ) / d < overflow := by
  obtain ⟨hlow, hhigh⟩ := floorLog2_spec hn hd
  have hhidden : hiddenBit = 2 ^ 52 := rfl
  have hinfinity : infinity = 2047 * hiddenBit := rfl
  have hfraction : (fractionBits : Int) = 52 := rfl
  have hleast : leastExponent = -1074 := rfl
  unfold ofRatio
  rw [if_neg hn.ne']
  dsimp only
  rw [min_lt_iff, or_iff_left (lt_irrefl infinity)]
  generalize hplace : max (floorLog2 n d - fractionBits) leastExponent = place
  have hsignificand {k : Nat} (heven : k % 2 = 0) := significand_lt_iff (n := n) hd heven place
  rcases lt_trichotomy (floorLog2 n d) 1023 with hbelow | hat | habove
  · -- The significand has at most 53 bits, and the last place is not the greatest one.
    have hmul : (place - leastExponent).toNat * hiddenBit ≤ 2044 * hiddenBit :=
      Nat.mul_le_mul_right _ (by omega)
    have hbits : (n : ℚ) / d < ((2 ^ 53 + 2 : Nat) - 1 / 2) * 2 ^ place := by
      calc (n : ℚ) / d < 2 ^ (floorLog2 n d + 1) := hhigh
        _ ≤ 2 ^ (53 + place) := zpow_le_zpow_right₀ (by norm_num) (by omega)
        _ = 2 ^ 53 * 2 ^ place := by
          rw [zpow_add₀ (by norm_num)]
          rfl
        _ ≤ ((2 ^ 53 + 2 : Nat) - 1 / 2) * 2 ^ place := by
          gcongr
          norm_num
    have hrounded := (hsignificand (by norm_num)).mpr hbits
    have hrange : (n : ℚ) / d < overflow := hhigh.trans_le (two_zpow_le_overflow (by omega))
    exact iff_of_true (by omega) hrange
  · have hlast : place = 971 := by omega
    have hcount : (place - leastExponent).toNat = 2045 := by omega
    have hbound : ((2 ^ 53 : Nat) - 1 / 2 : ℚ) * 2 ^ place = overflow := by
      rw [overflow_eq, hlast]
      norm_num
    rw [hcount, ← hbound, ← hsignificand (by norm_num)]
    omega
  · have hmul : 2046 * hiddenBit ≤ (place - leastExponent).toNat * hiddenBit :=
      Nat.mul_le_mul_right _ (by omega)
    have hbits : ¬ (n : ℚ) / d < ((2 ^ 52 : Nat) - 1 / 2) * 2 ^ place := by
      rw [not_lt]
      calc ((2 ^ 52 : Nat) - 1 / 2 : ℚ) * 2 ^ place ≤ 2 ^ 52 * 2 ^ place := by
            gcongr
            norm_num
        _ = 2 ^ (52 + place) := by
          rw [zpow_add₀ (by norm_num)]
          rfl
        _ = 2 ^ floorLog2 n d := by
          congr 1
          omega
        _ ≤ n / d := hlow
    have hrounded := (hsignificand (by norm_num)).not.mpr hbits
    have hrange : overflow < n / d :=
      overflow_lt.trans_le ((zpow_le_zpow_right₀ (by norm_num) (by omega)).trans hlow)
    exact iff_of_false (by omega) hrange.not_gt

/-! ### Decimals -/

theorem overflow_pos : 0 < overflow := by
  have hone : (2 : ℚ) ^ (0 : Int) ≤ overflow := two_zpow_le_overflow (by norm_num)
  rw [zpow_zero] at hone
  exact zero_lt_one.trans_le hone

/-- Decimals that are taken for infinite without a look at their digits are out of range. -/
theorem overflow_le_of_large {digits : Nat} {exponent : Int} (hdigits : digits ≠ 0)
    (hlarge : 310 ≤ exponent) : overflow ≤ digits * 10 ^ exponent := by
  have hone : (1 : ℚ) ≤ digits := by exact_mod_cast Nat.pos_of_ne_zero hdigits
  have hfifth : (2 : ℚ) ^ (205 : Int) ≤ 10 ^ (62 : Int) := by norm_num
  have hpowers : (2 : ℚ) ^ (1024 : Int) ≤ 10 ^ (310 : Int) := by
    calc (2 : ℚ) ^ (1024 : Int) ≤ 2 ^ (205 * 5 : Int) := zpow_le_zpow_right₀ (by norm_num) (by norm_num)
      _ = (2 ^ (205 : Int)) ^ (5 : Int) := zpow_mul 2 205 5
      _ ≤ (10 ^ (62 : Int)) ^ (5 : Int) :=
        zpow_le_zpow_left₀ (by norm_num) (zpow_nonneg (by norm_num) _) hfifth
      _ = 10 ^ (310 : Int) := (zpow_mul 10 62 5).symm
  calc overflow ≤ 2 ^ (1024 : Int) := overflow_lt.le
    _ ≤ 10 ^ (310 : Int) := hpowers
    _ ≤ 10 ^ exponent := zpow_le_zpow_right₀ (by norm_num) hlarge
    _ ≤ digits * 10 ^ exponent := le_mul_of_one_le_left (zpow_nonneg (by norm_num) _) hone

/-- Decimals that are taken for zero without a look at their digits are less than one. -/
theorem lt_one_of_small {digits : Nat} {exponent : Int}
    (hsmall : (digits.log2 : Int) + 1076 ≤ -3 * exponent) : (digits : ℚ) * 10 ^ exponent < 1 := by
  have hexponent : exponent ≤ 0 := by omega
  have hdigits : (digits : ℚ) < 2 ^ ((digits.log2 : Int) + 1) := by
    rw [← Nat.cast_succ, zpow_natCast]
    exact_mod_cast Nat.lt_log2_self
  have hpower : (10 : ℚ) ^ exponent ≤ 2 ^ (3 * exponent) := by
    obtain ⟨k, hk⟩ := Int.eq_ofNat_of_zero_le (neg_nonneg.mpr hexponent)
    obtain rfl : exponent = -(k : Int) := by omega
    rw [zpow_mul, zpow_neg, zpow_neg, zpow_natCast, zpow_natCast]
    gcongr
    norm_num
  calc (digits : ℚ) * 10 ^ exponent
      < 2 ^ ((digits.log2 : Int) + 1) * 10 ^ exponent := by gcongr
    _ ≤ 2 ^ ((digits.log2 : Int) + 1) * 2 ^ (3 * exponent) := by gcongr
    _ = 2 ^ ((digits.log2 : Int) + 1 + 3 * exponent) := (zpow_add₀ (by norm_num) _ _).symm
    _ ≤ 2 ^ (0 : Int) := zpow_le_zpow_right₀ (by norm_num) (by omega)
    _ = 1 := zpow_zero 2

theorem ofScaled_lt_infinity_iff (digits : Nat) (exponent : Int) :
    ofScaled digits exponent < infinity ↔ (digits : ℚ) * 10 ^ exponent < overflow := by
  have hinfinity : 0 < infinity := by decide
  unfold ofScaled
  split_ifs with hdigits hlarge hsmall
  · rw [hdigits, Nat.cast_zero, zero_mul]
    exact iff_of_true hinfinity overflow_pos
  · exact iff_of_false (lt_irrefl infinity) (overflow_le_of_large hdigits hlarge).not_gt
  · have hone : (1 : ℚ) ≤ overflow := by
      rw [← zpow_zero 2]
      exact two_zpow_le_overflow (by norm_num)
    exact iff_of_true hinfinity ((lt_one_of_small hsmall).trans_le hone)
  · have hpos : 0 < digits := Nat.pos_of_ne_zero hdigits
    have hten (k : Nat) : 0 < Nat.pow 10 k := Nat.pow_pos (by decide)
    rw [ofRatio_lt_infinity_iff (Nat.mul_pos hpos (hten _)) (hten _), ratio_eq_scaled]

/-! ### Bits -/

theorem toNat_withSign (negative : Bool) {m : Nat} (hm : m ≤ infinity) :
    (withSign negative m).toNat = if negative then signBit + m else m := by
  have hbound : signBit + infinity < 2 ^ 64 := by decide
  have hlt : (if negative then signBit + m else m) < 2 ^ 64 := by
    split <;> omega
  exact UInt64.toNat_ofNat_of_lt' hlt

theorem not_isNaNBits_withSign (negative : Bool) {m : Nat} (hm : m ≤ infinity) :
    @isNaNBits Format.binary64 (withSign negative m).toBitVec = false := by
  have hbits : (withSign negative m).toBitVec.toNat = if negative then signBit + m else m :=
    toNat_withSign negative hm
  have hinfinity : infinity = 2047 * 2 ^ 52 := rfl
  have hsign : signBit = 2048 * 2 ^ 52 := rfl
  apply decide_eq_false
  rintro ⟨hexponent, hmantissa⟩
  -- an exponent of ones leaves the infinity as the only magnitude
  have hones : (withSign negative m).toBitVec.toNat / 2 ^ 52 % 2 ^ 11 = 2047 := by
    rw [← toNat_unpackExponent, hexponent]
    rfl
  have hzeros : (withSign negative m).toBitVec.toNat % 2 ^ 52 = 0 := by
    rw [hbits] at hones ⊢
    cases negative with
    | false => simp only [Bool.false_eq_true, if_false] at hones ⊢; omega
    | true => simp only [if_true] at hones ⊢; omega
  rw [← toNat_unpackMantissa] at hzeros
  exact hmantissa (BitVec.eq_of_toNat_eq hzeros)

theorem magnitude_ofBits_withSign (negative : Bool) {m : Nat} (hm : m ≤ infinity) :
    magnitude (Float.ofBits (withSign negative m)) = m := by
  have hlt : m < signBit := hm.trans_lt (by decide)
  unfold magnitude
  rw [toBits_ofBits (not_isNaNBits_withSign negative hm), toNat_withSign negative hm]
  split
  · rw [Nat.add_mod_left, Nat.mod_eq_of_lt hlt]
  · exact Nat.mod_eq_of_lt hlt

end Binary64

theorem Decimal.abs_toRat (d : Decimal) : |d.toRat| = d.digits * 10 ^ d.exponent := by
  have hnonneg : (0 : ℚ) ≤ d.digits * 10 ^ d.exponent :=
    mul_nonneg (Nat.cast_nonneg _) (zpow_nonneg (by norm_num) _)
  unfold toRat
  dsimp only
  split
  · rw [abs_neg, abs_of_nonneg hnonneg]
  · exact abs_of_nonneg hnonneg

/-- The decimals that are read as finite doubles. -/
theorem Decimal.isFinite_toFloat_iff (d : Decimal) :
    Binary64.isFinite d.toFloat = true ↔ |d.toRat| < Binary64.overflow := by
  have hmagnitude : Binary64.magnitude d.toFloat = Binary64.ofScaled d.digits d.exponent :=
    Binary64.magnitude_ofBits_withSign d.negative (Binary64.ofScaled_le_infinity _ _)
  unfold Binary64.isFinite
  rw [decide_eq_true_iff, hmagnitude, Binary64.ofScaled_lt_infinity_iff, d.abs_toRat]

end LinProg
