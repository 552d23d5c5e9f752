import LinProg.Decimal.Binary64

/-!
The arithmetic that programs and tableaux are built on.

Everything that is said about a program holds for one type of scalars. `Float` is the arithmetic
that the command line runs on, and `Rat` is exact. The class asks for operations only and for no
law, so a fact proved for every `Scalar` also holds of the not-a-numbers of floating point.
-/

namespace LinProg

class Scalar (α : Type) extends
    Zero α, One α, Neg α, Add α, Sub α, Mul α, Div α, LT α, LE α, BEq α where
  abs : α → α
  ofDecimal : Decimal → α
  decidableLT : DecidableLT α
  decidableLE : DecidableLE α

attribute [reducible, instance] Scalar.decidableLT Scalar.decidableLE

namespace Scalar

variable {α : Type} [Scalar α]

/-- The sum from left to right. It starts from the negative zero, which is neutral for signed zeros. -/
def sum (xs : List α) : α := xs.foldl (· + ·) (-0)

/-- The sum of the products of entries in the same place. -/
def dot (xs ys : List α) : α := sum (List.zipWith (· * ·) xs ys)

end Scalar

/-- The exact value of a decimal. -/
def Decimal.toRat (d : Decimal) : Rat :=
  let size := (d.digits : Rat) * (10 : Rat) ^ d.exponent
  if d.negative then -size else size

instance : Scalar Float where
  zero := 0
  one := 1
  abs := Float.abs
  ofDecimal := Decimal.toFloat
  decidableLT := inferInstance
  decidableLE := inferInstance

instance : Scalar Rat where
  zero := 0
  one := 1
  abs := Rat.abs
  ofDecimal := Decimal.toRat
  decidableLT := inferInstance
  decidableLE := inferInstance

end LinProg
