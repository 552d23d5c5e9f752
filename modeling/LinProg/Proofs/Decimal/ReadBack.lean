import LinProg.Proofs.Decimal.Plain
import Mathlib

/-!
# Doubles read back

The decimal that is written for a finite double is read as that double. For a point on one of the
grids this is how it was found. For all the digits it holds because nothing is rounded: the binary
exponent of the decimal is the one of the double, and the quotient by its last place is a whole number.
-/

namespace LinProg

namespace Binary64

/-! ### The binary exponent of a ratio -/

theorem zpow_eq_div (b : Nat) (k : Int) :
    (b : ℚ) ^ k = (b ^ k.toNat : Nat) / (b ^ (-k).toNat : Nat) := by
  rcases le_total 0 k with hk | hk
  · obtain ⟨n, rfl⟩ := Int.eq_ofNat_of_zero_le hk
    simp
  · obtain ⟨n, hn⟩ := Int.eq_ofNat_of_zero_le (neg_nonneg.mpr hk)
    obtain rfl : k = -(n : Int) := by omega
    simp

theorem scaled_le_iff {n d : Nat} (hd : 0 < d) (k : Int) :
    d * Nat.pow 2 k.toNat ≤ n * Nat.pow 2 (-k).toNat ↔ (2 : ℚ) ^ k ≤ n / d := by
  have hpow : (0 : ℚ) < (2 ^ (-k).toNat : Nat) := by positivity
  have hd' : (0 : ℚ) < d := by exact_mod_cast hd
  have hzpow := zpow_eq_div 2 k
  rw [Nat.cast_two] at hzpow
  rw [hzpow, div_le_div_iff₀ hpow hd', mul_comm (d : Nat)]
  exact_mod_cast Iff.rfl

theorem scaled_div {d : Nat} (n : Nat) (hd : 0 < d) (place : Int) :
    ((n * Nat.pow 2 (-place).toNat : Nat) : ℚ) / (d * Nat.pow 2 place.toNat : Nat)
      = n / d / 2 ^ place := by
  have hd' : (d : ℚ) ≠ 0 := by exact_mod_cast hd.ne'
  have hzpow := zpow_eq_div 2 place
  have hpow (k : Nat) : ((Nat.pow 2 k : Nat) : ℚ) = 2 ^ k := Nat.cast_pow 2 k
  rw [Nat.cast_two] at hzpow
  rw [hzpow, Nat.cast_mul, Nat.cast_mul, hpow, hpow, Nat.cast_pow, Nat.cast_pow, Nat.cast_two]
  field_simp

theorem floorLog2_spec {n d : Nat} (hn : 0 < n) (hd : 0 < d) :
    (2 : ℚ) ^ floorLog2 n d ≤ n / d ∧ (n : ℚ) / d < 2 ^ (floorLog2 n d + 1) := by
  have hd' : (0 : ℚ) < d := by exact_mod_cast hd
  have hnlow : (2 : ℚ) ^ (n.log2 : Int) ≤ n := by
    rw [zpow_natCast]
    exact_mod_cast Nat.log2_self_le hn.ne'
  have hnhigh : (n : ℚ) < 2 ^ ((n.log2 : Int) + 1) := by
    rw [← Nat.cast_succ, zpow_natCast]
    exact_mod_cast Nat.lt_log2_self
  have hdlow : (2 : ℚ) ^ (d.log2 : Int) ≤ d := by
    rw [zpow_natCast]
    exact_mod_cast Nat.log2_self_le hd.ne'
  have hdhigh : (d : ℚ) < 2 ^ ((d.log2 : Int) + 1) := by
    rw [← Nat.cast_succ, zpow_natCast]
    exact_mod_cast Nat.lt_log2_self
  unfold floorLog2
  dsimp only
  split
  · next h =>
      refine ⟨(scaled_le_iff hd _).mp h, ?_⟩
      rw [div_lt_iff₀ hd']
      calc (n : ℚ) < 2 ^ ((n.log2 : Int) + 1) := hnhigh
        _ = 2 ^ ((n.log2 : Int) - d.log2 + 1) * 2 ^ (d.log2 : Int) := by
          rw [← zpow_add₀ (by norm_num)]
          congr 1
          omega
        _ ≤ 2 ^ ((n.log2 : Int) - d.log2 + 1) * d := by gcongr
  · next h =>
      rw [scaled_le_iff hd, not_le] at h
      rw [sub_add_cancel]
      refine ⟨?_, h⟩
      rw [le_div_iff₀ hd']
      calc (2 : ℚ) ^ ((n.log2 : Int) - d.log2 - 1) * d
          ≤ 2 ^ ((n.log2 : Int) - d.log2 - 1) * 2 ^ ((d.log2 : Int) + 1) := by gcongr
        _ = 2 ^ (n.log2 : Int) := by
          rw [← zpow_add₀ (by norm_num)]
          congr 1
          omega
        _ ≤ n := hnlow

theorem floorLog2_eq {n d : Nat} (hn : 0 < n) (hd : 0 < d) {k : Int}
    (hlow : (2 : ℚ) ^ k ≤ n / d) (hhigh : (n : ℚ) / d < 2 ^ (k + 1)) : floorLog2 n d = k := by
  obtain ⟨hfloor, hceil⟩ := floorLog2_spec hn hd
  have hlt := (zpow_lt_zpow_iff_right₀ (by norm_num : (1 : ℚ) < 2)).mp (hlow.trans_lt hceil)
  have hgt := (zpow_lt_zpow_iff_right₀ (by norm_num : (1 : ℚ) < 2)).mp (hfloor.trans_lt hhigh)
  omega

/-! ### Exact doubles -/

theorem significand_pos {m : Nat} (hm : 0 < m) : 0 < significand m := by
  unfold significand
  split
  · exact hm
  · have hhidden : 0 < hiddenBit := by decide
    omega

/-- A significand has the hidden bit, unless the last place is the least one. -/
theorem significand_bounds (m : Nat) :
    significand m < 2 * hiddenBit ∧ (hiddenBit ≤ significand m ∨ lastPlace m = leastExponent) := by
  have hmod : m % hiddenBit < hiddenBit := Nat.mod_lt m (by decide)
  unfold significand lastPlace
  split
  · next h =>
      rw [Nat.div_eq_of_lt h]
      exact ⟨by omega, .inr rfl⟩
  · exact ⟨by omega, .inl (by omega)⟩

theorem magnitude_eq (m : Nat) :
    (lastPlace m - leastExponent).toNat * hiddenBit + significand m = m := by
  have hplace : (lastPlace m - leastExponent).toNat = m / hiddenBit - 1 := by
    unfold lastPlace
    omega
  have hdivmod := Nat.div_add_mod m hiddenBit
  rw [hplace]
  unfold significand
  split
  · next h =>
      rw [Nat.div_eq_of_lt h]
      simp
  · next h =>
      have hquotient : 0 < m / hiddenBit := Nat.div_pos (not_lt.mp h) (by decide)
      have hsucc : m / hiddenBit = m / hiddenBit - 1 + 1 := by omega
      rw [hsucc, Nat.mul_succ, Nat.mul_comm hiddenBit] at hdivmod
      omega

theorem leastExponent_le_lastPlace (m : Nat) : leastExponent ≤ lastPlace m := by
  unfold lastPlace
  omega

theorem hiddenBit_eq : (hiddenBit : ℚ) = 2 ^ (fractionBits : Int) := by
  rw [zpow_natCast, hiddenBit]
  exact Nat.cast_pow 2 fractionBits

/-- The last place that rounding keeps of a ratio which is a double is the last place of the double. -/
theorem max_floorLog2_eq {m n d : Nat} (hn : 0 < n) (hd : 0 < d)
    (h : (n : ℚ) / d = significand m * 2 ^ lastPlace m) :
    max (floorLog2 n d - fractionBits) leastExponent = lastPlace m := by
  obtain ⟨hhigh, hlow⟩ := significand_bounds m
  have hhigh' : (significand m : ℚ) < 2 * hiddenBit := by exact_mod_cast hhigh
  have hpow : (0 : ℚ) < 2 ^ lastPlace m := zpow_pos (by norm_num) _
  have hlt : (n : ℚ) / d < 2 ^ (lastPlace m + fractionBits + 1) := by
    calc (n : ℚ) / d = significand m * 2 ^ lastPlace m := h
      _ < 2 * hiddenBit * 2 ^ lastPlace m := by gcongr
      _ = 2 ^ (lastPlace m + fractionBits + 1) := by
        rw [hiddenBit_eq, zpow_add₀ (by norm_num), zpow_add₀ (by norm_num), zpow_one]
        ring
  rcases hlow with hlow | hplace
  -- With the hidden bit the exponent is known. Without it the least place bounds what is kept.
  · have hlow' : (hiddenBit : ℚ) ≤ significand m := by exact_mod_cast hlow
    have hle : (2 : ℚ) ^ (lastPlace m + fractionBits) ≤ n / d := by
      calc (2 : ℚ) ^ (lastPlace m + fractionBits) = hiddenBit * 2 ^ lastPlace m := by
            rw [hiddenBit_eq, zpow_add₀ (by norm_num), mul_comm]
        _ ≤ significand m * 2 ^ lastPlace m := by gcongr
        _ = n / d := h.symm
    have hleast := leastExponent_le_lastPlace m
    rw [floorLog2_eq hn hd hle hlt]
    omega
  · have hfloor := (floorLog2_spec hn hd).1.trans_lt hlt
    rw [zpow_lt_zpow_iff_right₀ (by norm_num)] at hfloor
    rw [hplace] at hfloor ⊢
    omega

/-- A ratio that is a double is rounded to it. -/
theorem ofRatio_of_eq {m n d : Nat} (hfinite : m ≤ infinity) (hn : 0 < n) (hd : 0 < d)
    (h : (n : ℚ) / d = significand m * 2 ^ lastPlace m) : ofRatio n d = m := by
  have hpos : 0 < d * Nat.pow 2 (lastPlace m).toNat := Nat.mul_pos hd (Nat.pow_pos (by decide))
  have hscaled : n * Nat.pow 2 (-lastPlace m).toNat
      = significand m * (d * Nat.pow 2 (lastPlace m).toNat) := by
    have hquotient := scaled_div n hd (lastPlace m)
    have hpos' : ((d * Nat.pow 2 (lastPlace m).toNat : Nat) : ℚ) ≠ 0 := by exact_mod_cast hpos.ne'
    rw [h, mul_div_cancel_right₀ _ (zpow_ne_zero _ two_ne_zero), div_eq_iff hpos'] at hquotient
    exact_mod_cast hquotient
  unfold ofRatio
  rw [if_neg hn.ne']
  dsimp only
  rw [max_floorLog2_eq hn hd h, hscaled, roundDiv_mul _ _ hpos, magnitude_eq, min_eq_left hfinite]

/-! ### Decimals -/

theorem ratio_eq_scaled (digits : Nat) (exponent : Int) :
    ((digits * Nat.pow 10 exponent.toNat : Nat) : ℚ) / (Nat.pow 10 (-exponent).toNat : Nat)
      = digits * 10 ^ exponent := by
  have hzpow := zpow_eq_div 10 exponent
  rw [Nat.cast_ofNat] at hzpow
  rw [hzpow, Nat.cast_mul, mul_div_assoc]
  rfl

/-- A decimal that is a double is read as it, if it is not so far outside the range that it is not
looked at. -/
theorem ofScaled_of_eq {m digits : Nat} {exponent : Int} (hfinite : m ≤ infinity)
    (hdigits : 0 < digits) (hexponent : exponent ≤ 0)
    (hlog : -3 * exponent < digits.log2 + 1076)
    (h : (digits : ℚ) * 10 ^ exponent = significand m * 2 ^ lastPlace m) :
    ofScaled digits exponent = m := by
  have hratio := (ratio_eq_scaled digits exponent).trans h
  unfold ofScaled
  rw [if_neg hdigits.ne', if_neg (by omega), if_neg (by omega)]
  exact ofRatio_of_eq hfinite (Nat.mul_pos hdigits (Nat.pow_pos (by decide)))
    (Nat.pow_pos (by decide)) hratio

theorem ofScaled_allDigits {m : Nat} (hm : 0 < m) (hfinite : m ≤ infinity) :
    ofScaled (allDigits m).1 (allDigits m).2 = m := by
  have hsignificand := significand_pos hm
  have hleast := leastExponent_le_lastPlace m
  unfold allDigits
  dsimp only
  split
  · next hplace =>
      refine ofScaled_of_eq hfinite (Nat.mul_pos hsignificand (Nat.pow_pos (by decide))) le_rfl
        (by omega) ?_
      obtain ⟨k, hk⟩ := Int.eq_ofNat_of_zero_le hplace
      simp [hk]
  · next hplace =>
      obtain ⟨k, hk⟩ := Int.eq_ofNat_of_zero_le (neg_nonneg.mpr (not_le.mp hplace).le)
      have hplace : lastPlace m = -(k : Int) := by omega
      rw [hk, Int.toNat_natCast, hplace]
      dsimp only
      have hpos : 0 < significand m * Nat.pow 5 k :=
        Nat.mul_pos hsignificand (Nat.pow_pos (by decide))
      -- More than two bits for each factor 5, so the decimal is not taken to be below the range.
      have hlog : 2 * k ≤ (significand m * Nat.pow 5 k).log2 := by
        rw [Nat.le_log2 hpos.ne', Nat.pow_mul]
        calc (2 ^ 2) ^ k ≤ 5 ^ k := Nat.pow_le_pow_left (by decide) k
          _ ≤ significand m * 5 ^ k := Nat.le_mul_of_pos_left _ hsignificand
      refine ofScaled_of_eq hfinite hpos (by omega) ?_ ?_
      · unfold leastExponent at hleast
        omega
      · have hten : (10 : ℚ) ^ k = 5 ^ k * 2 ^ k := by rw [← mul_pow]; norm_num
        rw [hplace, zpow_neg, zpow_neg, zpow_natCast, zpow_natCast, hten, Nat.cast_mul]
        have hfive : ((Nat.pow 5 k : Nat) : ℚ) = 5 ^ k := Nat.cast_pow 5 k
        rw [hfive]
        field_simp

/-- The search ends at a decimal that reads back, on whatever grid it ends. -/
theorem ofScaled_firstGridPoint {m : Nat} (hm : 0 < m) (hfinite : m ≤ infinity) (count : Nat)
    (exponent : Int) :
    ofScaled (firstGridPoint m count exponent).1 (firstGridPoint m count exponent).2 = m := by
  induction count generalizing exponent with
  | zero => exact ofScaled_allDigits hm hfinite
  | succ count ih =>
      unfold firstGridPoint
      split
      · next point hpoint => exact ofScaled_of_gridPoint hpoint
      · exact ih (exponent - 1)

theorem ofScaled_shortest {m : Nat} (hfinite : m ≤ infinity) :
    ofScaled (shortest m).1 (shortest m).2 = m := by
  unfold shortest
  split
  · next h => rw [h, ofScaled_zero]
  · next h => exact ofScaled_firstGridPoint (Nat.pos_of_ne_zero h) hfinite _ _

/-- Zeros in place of a positive exponent do not change the double, if it is finite. -/
theorem ofScaled_mul_pow {digits : Nat} {exponent : Int}
    (hfinite : ofScaled digits exponent < infinity) :
    ofScaled (digits * 10 ^ exponent.toNat) (-((-exponent).toNat : Int))
      = ofScaled digits exponent := by
  rcases le_total exponent 0 with hneg | hpos
  · have hexponent : -((-exponent).toNat : Int) = exponent := by omega
    rw [hexponent, Int.toNat_of_nonpos hneg, Nat.pow_zero, Nat.mul_one]
  · have hzero : -((-exponent).toNat : Int) = 0 := by omega
    rw [hzero]
    by_cases hdigits : digits = 0
    · rw [hdigits, Nat.zero_mul, ofScaled_zero, ofScaled_zero]
    · have hlarge : exponent < 310 := by
        by_contra hlarge
        rw [ofScaled, if_neg hdigits, if_pos (not_lt.mp hlarge)] at hfinite
        exact lt_irrefl _ hfinite
      have hscaled : digits * 10 ^ exponent.toNat ≠ 0 :=
        Nat.mul_ne_zero hdigits (Nat.pow_pos (by decide)).ne'
      unfold ofScaled
      rw [if_neg hdigits, if_neg hscaled, if_neg (by decide), if_neg (by omega),
        if_neg (not_le.mpr hlarge), if_neg (by omega), Int.toNat_of_nonpos (neg_nonpos.mpr hpos)]
      simp

/-! ### Bits -/

theorem withSign_magnitude (x : Float) : withSign (isNegative x) (magnitude x) = x.toBits := by
  have hlt : x.toBits.toNat < 2 * signBit := x.toBits.toNat_lt
  have hbits : (if isNegative x then signBit + magnitude x else magnitude x) = x.toBits.toNat := by
    unfold isNegative magnitude
    by_cases hnegative : signBit ≤ x.toBits.toNat
    · rw [if_pos (decide_eq_true hnegative), Nat.mod_eq_sub_mod hnegative,
        Nat.mod_eq_of_lt (by omega), Nat.add_sub_cancel' hnegative]
    · rw [if_neg (by simpa using hnegative), Nat.mod_eq_of_lt (not_le.mp hnegative)]
  rw [withSign, hbits, UInt64.ofNat_toNat]

end Binary64

/-- The decimal that is written for a finite double is read as that double. -/
theorem readsBack_float : NumberText.ReadsBack Float := by
  intro x hx
  have hfinite : Binary64.magnitude x < Binary64.infinity := of_decide_eq_true hx
  have hshortest := Binary64.ofScaled_shortest hfinite.le
  obtain ⟨p, hbody, hdecimal⟩ := Decimal.exists_plain_positional (Binary64.isNegative x)
    (Binary64.shortest (Binary64.magnitude x)).1 (Binary64.shortest (Binary64.magnitude x)).2
  refine ⟨p, ?_, ?_⟩
  · have hnegative : p.negative = Binary64.isNegative x := congrArg Decimal.negative hdecimal
    show (Binary64.text x).toList = _
    unfold Binary64.text Binary64.spell
    dsimp only
    rw [if_neg (not_lt.mpr hfinite.le), if_neg hfinite.ne, String.toList_ofList,
      Decimal.Plain.text, hnegative, hbody]
  · have hshort : Binary64.ofScaled (Binary64.shortest (Binary64.magnitude x)).1
        (Binary64.shortest (Binary64.magnitude x)).2 < Binary64.infinity := by
      rw [hshortest]
      exact hfinite
    show p.decimal.toFloat = x
    rw [hdecimal, Decimal.toFloat, Binary64.ofScaled_mul_pow hshort, hshortest,
      Binary64.withSign_magnitude, Float.ofBits_toBits]

end LinProg
