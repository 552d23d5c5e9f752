import LinProg.Direction
import LinProg.Error
import LinProg.Relation
import LinProg.Scalar

/-!
Linear programs: optimise `c · x` subject to `a · x {≤, =, ≥} b` and `x ≥ 0`.

A program keeps each row and each decision variable whole, and its size is the count of them. What
holds of every program that the library makes is `Program.WellFormed`: both counts are positive,
and each row and the solution have an entry for each variable.
-/

namespace LinProg

structure Constraint (α : Type) where
  coefficients : List α
  relation : Relation
  rhs : α
  label : Option String
  deriving BEq

/-- A decision variable with its cost in the objective. -/
structure Decision (α : Type) where
  cost : α
  label : Option String
  deriving BEq

/-- A decision variable together with its coefficients in all the rows. -/
structure Column (α : Type) where
  coefficients : List α
  cost : α
  label : Option String

structure Program (α : Type) where
  direction : Direction
  rows : List (Constraint α)
  decisions : List (Decision α)
  objectiveLabel : Option String
  /-- The values that were found last, all zero before that. -/
  solution : List α
  objectiveValue : α
  deriving BEq

namespace Program

variable {α : Type}

def height (p : Program α) : Nat := p.rows.length

def width (p : Program α) : Nat := p.decisions.length

def coefficients (p : Program α) : List (List α) := p.rows.map (·.coefficients)

def rhs (p : Program α) : List α := p.rows.map (·.rhs)

def relations (p : Program α) : List Relation := p.rows.map (·.relation)

def rowLabels (p : Program α) : List (Option String) := p.rows.map (·.label)

def costs (p : Program α) : List α := p.decisions.map (·.cost)

def columnLabels (p : Program α) : List (Option String) := p.decisions.map (·.label)

structure WellFormed (p : Program α) : Prop where
  height_pos : 0 < p.height
  width_pos : 0 < p.width
  row_length : ∀ r ∈ p.rows, r.coefficients.length = p.width
  solution_length : p.solution.length = p.width

theorem WellFormed.withDecisions {p : Program α} (h : p.WellFormed)
    {decisions : List (Decision α)} (hlength : decisions.length = p.width) :
    { p with decisions }.WellFormed := by
  have hwidth : { p with decisions }.width = p.width := hlength
  refine ⟨h.height_pos, ?_, ?_, ?_⟩
  · rw [hwidth]
    exact h.width_pos
  · rw [hwidth]
    exact h.row_length
  · rw [hwidth]
    exact h.solution_length

variable [Scalar α]

def clearSolution (p : Program α) : Program α :=
  { p with solution := List.replicate p.width 0, objectiveValue := 0 }

theorem WellFormed.clearSolution {p : Program α} (h : p.WellFormed) : p.clearSolution.WellFormed where
  height_pos := h.height_pos
  width_pos := h.width_pos
  row_length := h.row_length
  solution_length := List.length_replicate

def storeSolution (p : Program α) (x : List α) : Program α :=
  { p with solution := x, objectiveValue := Scalar.dot p.costs x }

/-- A count of rows or columns as a signed word of 64 bits. -/
def signedWord (n : Nat) : Int := Int.bmod n (Nat.pow 2 64)

/-- Both counts have to be positive. -/
def checkDimensions (rows columns : Nat) : Except Error Unit :=
  if rows = 0 ∨ columns = 0 then .error (.invalidDimensions (signedWord rows) (signedWord columns))
  else .ok ()

/-- A program from whole rows and variables, not solved yet. -/
def ofRows (rows : List (Constraint α)) (decisions : List (Decision α)) : Program α :=
  clearSolution
    { direction := default, rows, decisions, objectiveLabel := none, solution := [],
      objectiveValue := 0 }

/-- A program of the given size with zeros everywhere and no labels. -/
def blank (rows columns : Nat) : Except Error (Program α) := do
  checkDimensions rows columns
  let row : Constraint α := ⟨List.replicate columns 0, default, 0, none⟩
  return ofRows (List.replicate rows row) (List.replicate columns ⟨0, none⟩)

/-- A program without labels from its matrix and its vectors. -/
def ofParts (a : List (List α)) (b : List α) (relations : List Relation) (c : List α) :
    Except Error (Program α) := do
  checkDimensions a.length c.length
  checkLength .rightHandSide a.length b.length
  checkLength .relations a.length relations.length
  a.forM fun row => checkLength .constraintRow c.length row.length
  let rows := (a.zip (relations.zip b)).map fun (row, relation, rhs) =>
    (⟨row, relation, rhs, none⟩ : Constraint α)
  return ofRows rows (c.map fun cost => ⟨cost, none⟩)

end Program

end LinProg
