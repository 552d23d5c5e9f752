import LinProg.Decimal.Basic
import LinProg.Direction
import LinProg.Relation

/-!
What an LP text says, record by record, before the records are compared with each other.
-/

namespace LinProg.Format

/-- A whole number as it was written. -/
structure Numeral where
  text : String
  value : Int
  deriving DecidableEq, Repr

/-- The record with the counts of rows and columns. -/
structure Header where
  line : Nat
  rows : Numeral
  columns : Numeral
  deriving DecidableEq, Repr

structure ConstraintRecord where
  line : Nat
  label : String
  coefficients : List Decimal
  relation : Relation
  rhs : Decimal
  deriving DecidableEq, Repr

structure ObjectiveRecord where
  line : Nat
  label : String
  costs : List Decimal
  deriving DecidableEq, Repr

structure Document where
  direction : Direction
  header : Header
  columnLabels : List String
  constraints : List ConstraintRecord
  objective : ObjectiveRecord
  deriving DecidableEq, Repr

end LinProg.Format
