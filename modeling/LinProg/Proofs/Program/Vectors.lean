import LinProg.Format.Writer
import LinProg.Program.Display
import LinProg.Program.Edit
import LinProg.Proofs.Tableau.Access

/-!
# A program in separate vectors

In memory a program is two counts and seven vectors that nothing but the code keeps at one length.
Here that form is written down, and what reads it does so by index, each index checked first where
the library checks it. An index that is out of range all the same gives no value at all. On a
well-formed program this never happens, and what is read is what the program has there.
-/

namespace LinProg

structure Vectors (α : Type) where
  direction : Direction
  rowCount : Nat
  columnCount : Nat
  coefficients : List (List α)
  rhs : List α
  relations : List Relation
  costs : List α
  solution : List α
  objectiveValue : α
  rowLabels : List (Option String)
  columnLabels : List (Option String)
  objectiveLabel : Option String

def Program.vectors {α : Type} (p : Program α) : Vectors α where
  direction := p.direction
  rowCount := p.height
  columnCount := p.width
  coefficients := p.coefficients
  rhs := p.rhs
  relations := p.relations
  costs := p.costs
  solution := p.solution
  objectiveValue := p.objectiveValue
  rowLabels := p.rowLabels
  columnLabels := p.columnLabels
  objectiveLabel := p.objectiveLabel

namespace Vectors

variable {α β : Type}

/-- All lengths are those that the two counts say. -/
structure Fits (v : Vectors α) : Prop where
  rowCount_pos : 0 < v.rowCount
  columnCount_pos : 0 < v.columnCount
  coefficients_length : v.coefficients.length = v.rowCount
  row_length : ∀ row ∈ v.coefficients, row.length = v.columnCount
  rhs_length : v.rhs.length = v.rowCount
  relations_length : v.relations.length = v.rowCount
  rowLabels_length : v.rowLabels.length = v.rowCount
  costs_length : v.costs.length = v.columnCount
  solution_length : v.solution.length = v.columnCount
  columnLabels_length : v.columnLabels.length = v.columnCount

theorem fits_vectors_iff {p : Program α} : p.vectors.Fits ↔ p.WellFormed := by
  constructor
  · intro h
    exact ⟨h.rowCount_pos, h.columnCount_pos,
      fun r hr => h.row_length _ (List.mem_map_of_mem hr), h.solution_length⟩
  · intro h
    refine
      { rowCount_pos := h.height_pos
        columnCount_pos := h.width_pos
        coefficients_length := List.length_map _
        row_length := ?_
        rhs_length := List.length_map _
        relations_length := List.length_map _
        rowLabels_length := List.length_map _
        costs_length := List.length_map _
        solution_length := h.solution_length
        columnLabels_length := List.length_map _ }
    intro row hrow
    obtain ⟨r, hr, rfl⟩ := List.mem_map.mp hrow
    exact h.row_length r hr

/-! ### Reading by index -/

/-- A value behind a check. The outer `none` is an index out of range that the check let through. -/
def guarded (check : Except Error Unit) (value : Option β) : Option (Except Error β) :=
  match check with
  | .ok _ => value.map .ok
  | .error error => some (.error error)

def atRow (v : Vectors α) (xs : List β) (i : Nat) : Option (Except Error β) :=
  guarded (checkIndex .row i v.rowCount) xs[i]?

def atColumn (v : Vectors α) (xs : List β) (j : Nat) : Option (Except Error β) :=
  guarded (checkIndex .column j v.columnCount) xs[j]?

def coefficient (v : Vectors α) (i j : Nat) : Option (Except Error α) :=
  guarded (checkIndex .row i v.rowCount *> checkIndex .column j v.columnCount) do
    let row ← v.coefficients[i]?
    row[j]?

/-- A label for a text. An index out of range would pass for a missing label. -/
def shownLabel : Except Error (Option String) → Option String
  | .ok label => label
  | .error _ => none

/-- All of a row as the writer reads it. -/
def constraint (v : Vectors α) (i : Nat) : Option (Constraint α) := do
  let label ← v.atRow v.rowLabels i
  let coefficients ← v.coefficients[i]?
  let relation ← v.relations[i]?
  let rhs ← v.rhs[i]?
  return ⟨coefficients, relation, rhs, shownLabel label⟩

/-- All of a row as the table reads it. -/
def shownRow (v : Vectors α) (i : Nat) : Option (Constraint α) := do
  let label ← v.rowLabels[i]?
  let coefficients ← v.coefficients[i]?
  let relation ← v.relations[i]?
  let rhs ← v.rhs[i]?
  return ⟨coefficients, relation, rhs, label⟩

def columnTexts (v : Vectors α) : Option (List String) :=
  (List.range v.columnCount).mapM fun j =>
    (v.atColumn v.columnLabels j).map fun label => Program.quoted (shownLabel label)

def lines (v : Vectors α) (read : Nat → Option (Constraint α)) (line : Constraint α → String) :
    Option (List String) := (List.range v.rowCount).mapM fun i => (read i).map line

def toText [NumberText α] (v : Vectors α) : Option (Except Error String) :=
  match (v.coefficients.flatten ++ v.rhs ++ v.costs).find? (!NumberText.isFinite ·) with
  | some x => some (.error (.fault (.notFinite (NumberText.text x))))
  | none => do
    let labels ← v.columnTexts
    let lines ← v.lines v.constraint Program.constraintLine
    return .ok (v.direction.text ++ "\n"
      ++ toString v.rowCount ++ "," ++ toString v.columnCount ++ "\n"
      ++ ",".intercalate labels ++ "\n"
      ++ String.join lines
      ++ Program.quoted v.objectiveLabel ++ Program.commaNumbers v.costs ++ "\n")

def display [NumberText α] (v : Vectors α) : Option String := do
  let lines ← v.lines v.shownRow Program.rowLine
  return v.direction.text ++ "\n"
    ++ Text.alignRight 10 "" ++ Program.spaced (v.columnLabels.map Program.labelCell) ++ "\n"
    ++ String.join lines
    ++ Program.labelCell v.objectiveLabel ++ Program.spaced (v.costs.map Program.numberCell)
    ++ "\n"

section Reads

variable {p : Program α}

theorem atRow_vectors (p : Program α) (f : Constraint α → β) (i : Nat) :
    p.vectors.atRow (p.rows.map f) i = some ((p.row i).map f) := by
  unfold atRow guarded checkIndex Program.row
  rw [List.getElem?_map]
  by_cases hi : i < p.rows.length
  · simp [Program.vectors, Program.height, hi, Except.map]
  · simp [Program.vectors, Program.height, hi, Except.map]

theorem atColumn_vectors (p : Program α) (f : Decision α → β) (j : Nat) :
    p.vectors.atColumn (p.decisions.map f) j = some ((p.decision j).map f) := by
  unfold atColumn guarded checkIndex Program.decision
  rw [List.getElem?_map]
  by_cases hj : j < p.decisions.length
  · simp [Program.vectors, Program.width, hj, Except.map]
  · simp [Program.vectors, Program.width, hj, Except.map]

theorem coefficient_vectors (h : p.WellFormed) (i j : Nat) :
    p.vectors.coefficient i j = some (p.coefficient i j) := by
  unfold coefficient Program.coefficient Program.row checkIndex
  cases hrow : p.rows[i]? with
  | none =>
      have hi : ¬ i < p.vectors.rowCount := Nat.not_lt.mpr (List.getElem?_eq_none_iff.mp hrow)
      rw [if_neg hi]
      rfl
  | some r =>
      have hi : i < p.vectors.rowCount := (List.getElem?_eq_some_iff.mp hrow).1
      have hlength : r.coefficients.length = p.vectors.columnCount :=
        h.row_length r (List.mem_of_getElem? hrow)
      have hcoefficients : p.vectors.coefficients[i]? = some r.coefficients := by
        simp [Program.vectors, Program.coefficients, hrow]
      rw [if_pos hi, hcoefficients]
      simp only [Option.bind_some, bind, Except.bind]
      by_cases hj : j < p.vectors.columnCount
      · rw [if_pos hj, List.getElem?_eq_getElem (hlength ▸ hj)]
        rfl
      · rw [if_neg hj, List.getElem?_eq_none (hlength ▸ Nat.not_lt.mp hj)]
        rfl

theorem shownRow_vectors {i : Nat} {r : Constraint α} (hr : p.rows[i]? = some r) :
    p.vectors.shownRow i = some r := by
  simp [shownRow, Program.vectors, Program.rowLabels, Program.coefficients, Program.relations,
    Program.rhs, hr]

theorem constraint_vectors {i : Nat} {r : Constraint α} (hr : p.rows[i]? = some r) :
    p.vectors.constraint i = some r := by
  have hlabel : p.vectors.atRow p.vectors.rowLabels i = some (.ok r.label) := by
    show p.vectors.atRow (p.rows.map (·.label)) i = _
    rw [atRow_vectors, Program.row, hr]
    rfl
  unfold constraint
  rw [hlabel]
  simp [shownLabel, Program.vectors, Program.coefficients, Program.relations, Program.rhs, hr]

theorem lines_vectors {read : Nat → Option (Constraint α)} (line : Constraint α → String)
    (hread : ∀ i r, p.rows[i]? = some r → read i = some r) :
    p.vectors.lines read line = some (p.rows.map line) := by
  have hlength : p.vectors.rowCount = (p.rows.map line).length := (List.length_map _).symm
  unfold lines
  rw [hlength]
  apply mapM_range_eq_some
  intro i x hi
  rw [List.getElem?_map] at hi
  obtain ⟨r, hr, rfl⟩ := Option.map_eq_some_iff.mp hi
  rw [hread i r hr]
  rfl

theorem columnTexts_vectors (p : Program α) :
    p.vectors.columnTexts = some (p.columnLabels.map Program.quoted) := by
  have hlength : p.vectors.columnCount = (p.columnLabels.map Program.quoted).length := by
    rw [List.length_map, Program.columnLabels, List.length_map]
    rfl
  unfold columnTexts
  rw [hlength]
  apply mapM_range_eq_some
  intro j x hj
  rw [Program.columnLabels, List.map_map, List.getElem?_map] at hj
  obtain ⟨d, hd, rfl⟩ := Option.map_eq_some_iff.mp hj
  show (p.vectors.atColumn (p.decisions.map (·.label)) j).map _ = _
  rw [atColumn_vectors, Program.decision, hd]
  rfl

theorem toText_vectors [NumberText α] (p : Program α) : p.vectors.toText = some p.toText := by
  unfold toText Program.toText
  rw [columnTexts_vectors, lines_vectors _ fun _ _ => constraint_vectors]
  show (match p.numbers.find? _ with | some _ => _ | none => _) = _
  cases p.numbers.find? (!NumberText.isFinite ·) with
  | some x => rfl
  | none => rfl

theorem display_vectors [NumberText α] (p : Program α) : p.vectors.display = some p.display := by
  unfold display
  rw [lines_vectors _ fun _ _ => shownRow_vectors]
  rfl

end Reads

end Vectors

end LinProg
