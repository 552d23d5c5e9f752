import LinProg.Decimal.Fixed

/-!
Scalars that can be written down.
-/

namespace LinProg

class NumberText (α : Type) where
  /-- A number that is not finite has a name but no decimal. -/
  isFinite : α → Bool
  /-- The shortest decimal that reads back as the number. -/
  text : α → String
  /-- The number rounded to a count of places after the point. -/
  fixed : Nat → α → String

instance : NumberText Float where
  isFinite := Binary64.isFinite
  text := Binary64.text
  fixed := Binary64.fixedText

end LinProg
