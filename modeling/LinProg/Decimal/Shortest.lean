import LinProg.Decimal.Binary64

/-!
The shortest decimal that reads back as a given double.

The multiples of `10 ^ k` form a grid. The search goes from coarse grids to fine ones and stops at
the first that has a point which rounds to the double. Only the two points around the double need
a test, since a grid that has a point in the rounding interval has one of these two in it.
-/

namespace LinProg.Binary64

/-- The multiple of `10 ^ exponent` next to the magnitude that reads back as it, the nearer one if
both neighbours do. A tie goes away from zero. -/
def gridPoint (magnitude : Nat) (exponent : Int) : Option Nat :=
  let (n, d) := ratio magnitude
  let n := n * Nat.pow 10 (-exponent).toNat
  let d := d * Nat.pow 10 exponent.toNat
  let low := n / d
  match ofScaled low exponent == magnitude, ofScaled (low + 1) exponent == magnitude with
  | true, true => if 2 * (n % d) < d then some low else some (low + 1)
  | true, false => some low
  | false, true => some (low + 1)
  | false, false => none

theorem ofScaled_of_gridPoint {magnitude point : Nat} {exponent : Int}
    (h : gridPoint magnitude exponent = some point) : ofScaled point exponent = magnitude := by
  unfold gridPoint at h
  dsimp only at h
  split at h
  · rename_i hlow hhigh
    split at h
    · obtain rfl := Option.some.inj h
      exact eq_of_beq hlow
    · obtain rfl := Option.some.inj h
      exact eq_of_beq hhigh
  · rename_i hlow _
    obtain rfl := Option.some.inj h
    exact eq_of_beq hlow
  · rename_i _ hhigh
    obtain rfl := Option.some.inj h
    exact eq_of_beq hhigh
  · exact absurd h nofun

/-- All digits of a finite magnitude, with the exponent of the last one. -/
def allDigits (magnitude : Nat) : Nat × Int :=
  let place := lastPlace magnitude
  if 0 ≤ place then (significand magnitude * Nat.pow 2 place.toNat, 0)
  else (significand magnitude * Nat.pow 5 (-place).toNat, place)

/-- The first grid with a point that reads back, among `count` grids from `exponent` downward. -/
def firstGridPoint (magnitude : Nat) : Nat → Int → Nat × Int
  | 0, _ => allDigits magnitude
  | count + 1, exponent =>
    match gridPoint magnitude exponent with
    | some point => (point, exponent)
    | none => firstGridPoint magnitude count (exponent - 1)

/-- A power of ten above the magnitude. The factor is `log 2 / log 10`, rounded up. -/
def exponentAbove (magnitude : Nat) : Int :=
  (floorLog2 (ratio magnitude).1 (ratio magnitude).2 + 1) * 30103 / 100000 + 1

/-- The digits and the exponent of the shortest decimal that reads back as the magnitude. Seventeen
digits always do, so twenty grids are enough. -/
def shortest (magnitude : Nat) : Nat × Int :=
  if magnitude = 0 then (0, 0) else firstGridPoint magnitude 20 (exponentAbove magnitude)

end LinProg.Binary64

namespace LinProg.Decimal

/-- The text of `digits · 10 ^ exponent` without an exponent. -/
def positional (digits : Nat) (exponent : Int) : List Char :=
  let run := Nat.toDigits 10 digits
  let places := (-exponent).toNat
  if places = 0 then run ++ List.replicate exponent.toNat '0'
  else if places < run.length then
    run.take (run.length - places) ++ '.' :: run.drop (run.length - places)
  else '0' :: '.' :: List.replicate (places - run.length) '0' ++ run

end LinProg.Decimal

namespace LinProg.Binary64

/-- Puts a sign before the text of a magnitude and names the magnitudes that are not finite. -/
def spell (finite : Nat → List Char) (x : Float) : String :=
  let body := magnitude x
  if infinity < body then "NaN"
  else
    let text := if body = infinity then "inf".toList else finite body
    String.ofList (if isNegative x then '-' :: text else text)

def isFinite (x : Float) : Bool := magnitude x < infinity

/-- The fewest digits that read back, without an exponent: `0.1`, `-0`, `1000000`. -/
def text (x : Float) : String :=
  spell (fun m => let (digits, exponent) := shortest m; Decimal.positional digits exponent) x

end LinProg.Binary64
