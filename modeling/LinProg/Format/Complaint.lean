import LinProg.Format.Rule

/-!
The faults of LP texts, each with its message.
-/

namespace LinProg.Format

/-- What is wrong with an LP text at the line where it is wrong. -/
inductive Complaint where
  | unexpected (allowed : List Rule)
  | notADimension (numeral : String)
  | columnLabels (expected found : Nat)
  | constraintRows (expected found : Nat)
  | coefficients (expected found : Nat)
  | objectiveCoefficients (expected found : Nat)
  deriving DecidableEq, Repr

def Complaint.message : Complaint → String
  | unexpected allowed => "expected " ++ alternatives (allowed.map Rule.name)
  | notADimension numeral => numeral ++ " is not a dimension"
  | columnLabels expected found => s!"expected {expected} column labels, found {found}"
  | constraintRows expected found => s!"expected {expected} constraint rows, found {found}"
  | coefficients expected found => s!"expected {expected} coefficients, found {found}"
  | objectiveCoefficients expected found =>
    s!"expected {expected} objective coefficients, found {found}"

end LinProg.Format
