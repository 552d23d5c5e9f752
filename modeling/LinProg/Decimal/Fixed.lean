import LinProg.Decimal.Shortest

/-!
Doubles with a fixed number of places after the point.
-/

namespace LinProg.Binary64

/-- The exact value rounded to `places` digits after the point, a half going to the even digit. -/
def roundedTo (places magnitude : Nat) : List Char :=
  let (n, d) := ratio magnitude
  Decimal.positional (roundDiv (n * Nat.pow 10 places) d) (-places)

def fixedText (places : Nat) (x : Float) : String := spell (roundedTo places) x

end LinProg.Binary64
