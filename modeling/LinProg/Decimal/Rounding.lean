/-!
Rounding of a quotient of natural numbers to a whole number.
-/

namespace LinProg

/-- `n / d` rounded to the nearest whole number, a half going to the even neighbour. -/
def roundDiv (n d : Nat) : Nat :=
  let low := n / d
  let rest := n % d
  if 2 * rest < d then low
  else if d < 2 * rest then low + 1
  else if low % 2 = 0 then low
  else low + 1

theorem roundDiv_mul (k d : Nat) (hd : 0 < d) : roundDiv (k * d) d = k := by
  have hdiv : k * d / d = k := Nat.mul_div_cancel k hd
  simp [roundDiv, hdiv, hd]

/-- The exact quotient is at most half a unit above the rounded one. -/
theorem two_mul_le_roundDiv (n d : Nat) (hd : 0 < d) : 2 * n ≤ 2 * (d * roundDiv n d) + d := by
  have hn : d * (n / d) + n % d = n := Nat.div_add_mod n d
  have hr : n % d < d := Nat.mod_lt n hd
  have hsucc : d * (n / d + 1) = d * (n / d) + d := Nat.mul_succ d (n / d)
  unfold roundDiv
  dsimp only
  split
  · omega
  · split
    · rw [hsucc]; omega
    · split
      · omega
      · rw [hsucc]; omega

/-- The exact quotient is at most half a unit below the rounded one. -/
theorem roundDiv_le_two_mul (n d : Nat) : 2 * (d * roundDiv n d) ≤ 2 * n + d := by
  have hn : d * (n / d) + n % d = n := Nat.div_add_mod n d
  have hsucc : d * (n / d + 1) = d * (n / d) + d := Nat.mul_succ d (n / d)
  unfold roundDiv
  dsimp only
  split
  · omega
  · split
    · rw [hsucc]; omega
    · split
      · omega
      · rw [hsucc]; omega

end LinProg
