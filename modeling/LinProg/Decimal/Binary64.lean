import LinProg.Decimal.Basic
import LinProg.Decimal.Rounding

/-!
Doubles as magnitudes: the 63 bits below the sign. A magnitude below `infinity` is the number
`significand · 2 ^ lastPlace`, and magnitudes are ordered like the numbers that they stand for.
The rounding of a ratio to the nearest double is exact arithmetic on natural numbers.
-/

namespace LinProg.Binary64

def fractionBits : Nat := 52

/-- The least significand of a double that is not among the smallest ones. -/
def hiddenBit : Nat := Nat.pow 2 fractionBits

/-- The exponent of the last place of the smallest doubles. -/
def leastExponent : Int := -1074

/-- The magnitude of the infinities. The magnitudes above it are not numbers. -/
def infinity : Nat := 2047 * hiddenBit

def signBit : Nat := Nat.pow 2 63

/-- The `k` with `2 ^ k ≤ n / d < 2 ^ (k + 1)`, for positive `n` and `d`. -/
def floorLog2 (n d : Nat) : Int :=
  let k : Int := n.log2 - d.log2
  if d * Nat.pow 2 k.toNat ≤ n * Nat.pow 2 (-k).toNat then k else k - 1

/-- The magnitude of the double nearest to `n / d`, a tie going to the even significand. -/
def ofRatio (n d : Nat) : Nat :=
  if n = 0 then 0
  else
    let place := max (floorLog2 n d - fractionBits) leastExponent
    let significand := roundDiv (n * Nat.pow 2 (-place).toNat) (d * Nat.pow 2 place.toNat)
    min ((place - leastExponent).toNat * hiddenBit + significand) infinity

theorem ofRatio_le_infinity (n d : Nat) : ofRatio n d ≤ infinity := by
  unfold ofRatio
  split
  · exact Nat.zero_le _
  · exact Nat.min_le_right _ _

/-- The magnitude of the double nearest to `digits · 10 ^ exponent`. The two tests on the exponent
decide numbers that are far outside the range without forming the power. -/
def ofScaled (digits : Nat) (exponent : Int) : Nat :=
  if digits = 0 then 0
  else if 310 ≤ exponent then infinity
  else if (digits.log2 : Int) + 1076 ≤ -3 * exponent then 0
  else ofRatio (digits * Nat.pow 10 exponent.toNat) (Nat.pow 10 (-exponent).toNat)

theorem ofScaled_zero (exponent : Int) : ofScaled 0 exponent = 0 := rfl

theorem ofScaled_le_infinity (digits : Nat) (exponent : Int) : ofScaled digits exponent ≤ infinity := by
  unfold ofScaled
  split
  · exact Nat.zero_le _
  · split
    · exact Nat.le_refl _
    · split
      · exact Nat.zero_le _
      · exact ofRatio_le_infinity _ _

/-- The bits of a double with the given sign and magnitude. -/
def withSign (negative : Bool) (magnitude : Nat) : UInt64 :=
  UInt64.ofNat (if negative then signBit + magnitude else magnitude)

def magnitude (x : Float) : Nat := x.toBits.toNat % signBit

def isNegative (x : Float) : Bool := signBit ≤ x.toBits.toNat

def significand (magnitude : Nat) : Nat :=
  if magnitude < hiddenBit then magnitude else hiddenBit + magnitude % hiddenBit

/-- The exponent of the last place of a finite magnitude. -/
def lastPlace (magnitude : Nat) : Int :=
  leastExponent + (magnitude / hiddenBit - 1 : Nat)

/-- The number that a finite magnitude stands for, as a ratio. -/
def ratio (magnitude : Nat) : Nat × Nat :=
  let place := lastPlace magnitude
  (significand magnitude * Nat.pow 2 place.toNat, Nat.pow 2 (-place).toNat)

end LinProg.Binary64

namespace LinProg

/-- The double nearest to a decimal. A decimal beyond the range becomes an infinity, and a zero
keeps its sign. -/
def Decimal.toFloat (d : Decimal) : Float :=
  Float.ofBits (Binary64.withSign d.negative (Binary64.ofScaled d.digits d.exponent))

end LinProg
