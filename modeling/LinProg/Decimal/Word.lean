import LinProg.Decimal.Binary64

/-!
The words that a double can be given by: a decimal, or the name of an infinity or of a not-a-number.
-/

namespace LinProg.Binary64

/-- A quiet not-a-number. -/
def notANumber : Nat := infinity + hiddenBit / 2

/-- The magnitude with the given name, in any case of its letters. -/
def ofName? (name : List Char) : Option Nat :=
  match String.ofList (name.map Char.toLower) with
  | "inf" => some infinity
  | "infinity" => some infinity
  | "nan" => some notANumber
  | _ => none

/-- Reads a decimal or a name with an optional sign. -/
def ofText? (text : String) : Option Float :=
  match Decimal.ofText? text with
  | some d => some d.toFloat
  | none =>
    let (negative, n) := Decimal.scanSign text.toList
    (ofName? (text.toList.drop n)).map fun m => Float.ofBits (withSign negative m)

end LinProg.Binary64
