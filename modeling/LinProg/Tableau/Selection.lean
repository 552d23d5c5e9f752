import LinProg.Tableau.Basic

/-!
The choice of the next pivot: the column of the most negative reduced cost, then the row of the
least ratio. Both choices take the first of several equals.
-/

namespace LinProg.Tableau

variable {α : Type} [Scalar α]

/-- One step of the search for the lowest cost below a bound. The state is the column found last,
and the bound that the next cost has to undercut. -/
def lower (best : Option Nat × α) (candidate : α × Nat) : Option Nat × α :=
  if candidate.1 < best.2 then (some candidate.2, candidate.1) else best

/-- The first column with the lowest reduced cost, if that is below `-tolerance`. Without one the
basic solution is optimal. -/
def enteringColumn (tolerance : α) (t : Tableau α) : Option Nat :=
  (t.cost.zipIdx.foldl lower (none, -tolerance)).1

/-- The rows whose entry in the column exceeds the tolerance, each with its ratio. -/
def ratios (column : Nat) (tolerance : α) (t : Tableau α) : List (Nat × α) :=
  t.equations.zipIdx.filterMap fun (e, i) =>
    if e.entry column ≤ tolerance then none else some (i, e.rhs / e.entry column)

/-- One step of the search for the least ratio. An equal ratio further down does not count. -/
def lesser (best : Option (Nat × α)) (candidate : Nat × α) : Option (Nat × α) :=
  match best with
  | some b => if b.2 ≤ candidate.2 then some b else some candidate
  | none => some candidate

/-- The first row with the least ratio. Without one nothing bounds the column. -/
def leavingRow (column : Nat) (tolerance : α) (t : Tableau α) : Option Nat :=
  ((t.ratios column tolerance).foldl lesser none).map (·.1)

/-- The row to leave for a column that the tableau has. -/
def leavingRow? (column : Nat) (tolerance : α) (t : Tableau α) :
    Except Misplaced (Option Nat) :=
  if column < t.width then .ok (t.leavingRow column tolerance) else .error (t.misplaced 0 column)

/-- What a tableau asks for next. -/
inductive Choice where
  | optimal
  /-- No entry of the column exceeds the tolerance. -/
  | unbounded (column : Nat)
  | pivot (row column : Nat)
  deriving DecidableEq, Repr

def choose (tolerance : α) (t : Tableau α) : Choice :=
  match t.enteringColumn tolerance with
  | none => .optimal
  | some column =>
    match t.leavingRow column tolerance with
    | none => .unbounded column
    | some row => .pivot row column

end LinProg.Tableau
