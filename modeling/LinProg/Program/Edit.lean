import LinProg.Program.Basic

/-!
Reading and changing single parts of a program. Each index and each length is checked first, a row
before a column. A change that returns a value returns what stood there before.
-/

namespace LinProg.Program

variable {α : Type}

/-- The row at an index. -/
def row (p : Program α) (i : Nat) : Except Error (Constraint α) :=
  match p.rows[i]? with
  | some r => .ok r
  | none => .error (.indexOutOfRange .row i p.height)

/-- The decision variable at an index. -/
def decision (p : Program α) (j : Nat) : Except Error (Decision α) :=
  match p.decisions[j]? with
  | some d => .ok d
  | none => .error (.indexOutOfRange .column j p.width)

def coefficient (p : Program α) (i j : Nat) : Except Error α := do
  let r ← p.row i
  match r.coefficients[j]? with
  | some v => .ok v
  | none => .error (.indexOutOfRange .column j p.width)

def modifyRow (p : Program α) (i : Nat) (f : Constraint α → Constraint α) : Program α :=
  { p with rows := p.rows.modify i f }

def modifyDecision (p : Program α) (j : Nat) (f : Decision α → Decision α) : Program α :=
  { p with decisions := p.decisions.modify j f }

@[simp] theorem height_modifyRow (p : Program α) (i : Nat) (f : Constraint α → Constraint α) :
    (p.modifyRow i f).height = p.height := List.length_modify ..

@[simp] theorem width_modifyDecision (p : Program α) (j : Nat) (f : Decision α → Decision α) :
    (p.modifyDecision j f).width = p.width := List.length_modify ..

def setDirection (p : Program α) (direction : Direction) : Direction × Program α :=
  (p.direction, { p with direction })

def setCoefficient (p : Program α) (i j : Nat) (value : α) : Except Error (α × Program α) := do
  let old ← p.coefficient i j
  return (old, p.modifyRow i fun r => { r with coefficients := r.coefficients.set j value })

def setRhs (p : Program α) (i : Nat) (value : α) : Except Error (α × Program α) := do
  let old ← p.row i
  return (old.rhs, p.modifyRow i fun r => { r with rhs := value })

def setCost (p : Program α) (j : Nat) (value : α) : Except Error (α × Program α) := do
  let old ← p.decision j
  return (old.cost, p.modifyDecision j fun d => { d with cost := value })

def setRelation (p : Program α) (i : Nat) (relation : Relation) :
    Except Error (Relation × Program α) := do
  let old ← p.row i
  return (old.relation, p.modifyRow i fun r => { r with relation })

/-- Replaces all of a row but its label. -/
def setRow (p : Program α) (i : Nat) (coefficients : List α) (relation : Relation) (rhs : α) :
    Except Error (Program α) := do
  let _ ← p.row i
  checkLength .constraintRow p.width coefficients.length
  return p.modifyRow i fun r => { r with coefficients, relation, rhs }

/-- Replaces all the costs. -/
def setObjective (p : Program α) (costs : List α) : Except Error (Program α) := do
  checkLength .objective p.width costs.length
  return { p with decisions := p.decisions.zipWith (fun d cost => { d with cost }) costs }

def setRowLabel (p : Program α) (i : Nat) (label : String) :
    Except Error (Option String × Program α) := do
  let old ← p.row i
  return (old.label, p.modifyRow i fun r => { r with label := some label })

def setColumnLabel (p : Program α) (j : Nat) (label : String) :
    Except Error (Option String × Program α) := do
  let old ← p.decision j
  return (old.label, p.modifyDecision j fun d => { d with label := some label })

def setObjectiveLabel (p : Program α) (label : String) : Option String × Program α :=
  (p.objectiveLabel, { p with objectiveLabel := some label })

variable [Scalar α]

/-- Puts a row in so that it ends up at the index. The solution is cleared. -/
def insertRow (p : Program α) (i : Nat) (row : Constraint α) : Except Error (Program α) := do
  checkIndex .row i (p.height + 1)
  checkLength .constraintRow p.width row.coefficients.length
  return clearSolution { p with rows := p.rows.insertIdx i row }

/-- Puts a variable in so that it ends up at the index. The solution is cleared. -/
def insertColumn (p : Program α) (j : Nat) (column : Column α) : Except Error (Program α) := do
  checkIndex .column j (p.width + 1)
  checkLength .column p.height column.coefficients.length
  let rows := p.rows.zipWith
    (fun r value => { r with coefficients := r.coefficients.insertIdx j value })
    column.coefficients
  return clearSolution
    { p with rows, decisions := p.decisions.insertIdx j ⟨column.cost, column.label⟩ }

end LinProg.Program
