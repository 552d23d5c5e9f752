import LinProg.Tableau.Basic

/-!
Gauss–Jordan elimination around one entry.
-/

namespace LinProg

variable {α : Type} [Scalar α]

/-- `row - factor · pivotRow`, entry by entry. -/
def subtractMultiple (factor : α) (pivotRow row : List α) : List α :=
  row.zipWith (fun v p => v - factor * p) pivotRow

namespace Equation

/-- Both sides divided by a number. -/
def divide (e : Equation α) (pivot : α) : Equation α :=
  { e with entries := e.entries.map (· / pivot), rhs := e.rhs / pivot }

/-- Removes a column from an equation by a multiple of the pivot equation. An equation without the
column stays as it is. -/
def eliminate (e : Equation α) (column : Nat) (pivotRow : Equation α) : Equation α :=
  let factor := e.entry column
  if factor == 0 then e
  else
    { e with
      entries := subtractMultiple factor pivotRow.entries e.entries
      rhs := e.rhs - factor * pivotRow.rhs }

end Equation

namespace Tableau

/-- The count of artificial basic variables after one variable has taken the place of another. -/
def recount (count : Nat) (leaving entering : Variable) : Nat :=
  match leaving.isArtificial, entering.isArtificial with
  | true, false => count - 1
  | false, true => count + 1
  | _, _ => count

/-- Makes the column's variable basic in the row. Outside the tableau nothing changes. -/
def pivot (t : Tableau α) (row column : Nat) : Tableau α :=
  match t.equations[row]?, t.columns[column]? with
  | some e, some entering =>
    let pivotRow := e.divide (e.entry column)
    { t with
      equations := t.equations.mapIdx fun i other =>
        if i = row then { pivotRow with basic := entering } else other.eliminate column pivotRow
      cost := subtractMultiple (t.cost.getD column 0) pivotRow.entries t.cost
      artificialCount := recount t.artificialCount e.basic entering }
  | _, _ => t

@[simp] theorem columns_pivot (t : Tableau α) (row column : Nat) :
    (t.pivot row column).columns = t.columns := by
  unfold pivot
  split <;> rfl

@[simp] theorem decisionCount_pivot (t : Tableau α) (row column : Nat) :
    (t.pivot row column).decisionCount = t.decisionCount := by
  unfold pivot
  split <;> rfl

@[simp] theorem bigM_pivot (t : Tableau α) (row column : Nat) :
    (t.pivot row column).bigM = t.bigM := by
  unfold pivot
  split <;> rfl

@[simp] theorem height_pivot (t : Tableau α) (row column : Nat) :
    (t.pivot row column).height = t.height := by
  unfold height pivot
  split
  · exact List.length_mapIdx
  · rfl

/-- A pivot at a place that the tableau has. -/
def pivot? (t : Tableau α) (row column : Nat) : Except Misplaced (Tableau α) :=
  if row < t.height ∧ column < t.width then .ok (t.pivot row column)
  else .error (t.misplaced row column)

end Tableau

end LinProg
