import LinProg.Scalar

/-!
Simplex tableaux: equations over decision variables and extra columns, each with a basic variable,
and a row of reduced costs that is to be minimized.
-/

namespace LinProg

/-- What a column of a tableau stands for. -/
inductive Role where
  | decision
  | slack
  | surplus
  | artificial
  deriving DecidableEq, Repr

def Role.letter : Role → Char
  | decision => 'x'
  | slack => 's'
  | surplus => 'e'
  | artificial => 'a'

/-- A column of a tableau together with its role. -/
structure Variable where
  role : Role
  column : Nat
  deriving DecidableEq, Repr

/-- The letter of the role and the column counted from one. -/
def Variable.name (v : Variable) : String := v.role.letter.toString ++ toString (v.column + 1)

def Variable.isArtificial (v : Variable) : Bool := v.role = .artificial

/-- One row of a tableau. With all other variables at zero the basic variable is `rhs`. -/
structure Equation (α : Type) where
  entries : List α
  rhs : α
  basic : Variable
  deriving BEq

structure Tableau (α : Type) where
  decisionCount : Nat
  columns : List Variable
  equations : List (Equation α)
  /-- The reduced cost of each column. -/
  cost : List α
  /-- The count of equations whose basic variable is artificial, kept up to date by each pivot. -/
  artificialCount : Nat
  /-- The cost of one unit of an artificial variable. -/
  bigM : α
  deriving BEq

namespace Tableau

variable {α : Type}

def height (t : Tableau α) : Nat := t.equations.length

def width (t : Tableau α) : Nat := t.columns.length

def rhs (t : Tableau α) : List α := t.equations.map (·.rhs)

def basis (t : Tableau α) : List Variable := t.equations.map (·.basic)

def entry? (t : Tableau α) (row column : Nat) : Option α := do
  let e ← t.equations[row]?
  e.entries[column]?

/-- An access to a place that a tableau does not have. -/
structure Misplaced where
  row : Nat
  column : Nat
  height : Nat
  width : Nat
  deriving DecidableEq, Repr

def Misplaced.message (m : Misplaced) : String :=
  s!"tableau index ({m.row}, {m.column}) out of range for {m.height}x{m.width}"

def misplaced (t : Tableau α) (row column : Nat) : Misplaced := ⟨row, column, t.height, t.width⟩

/-- The entry at a place, or the reason why there is none. -/
def entry (t : Tableau α) (row column : Nat) : Except Misplaced α :=
  match t.entry? row column with
  | some x => .ok x
  | none => .error (t.misplaced row column)

def entries? (t : Tableau α) (row : Nat) : Option (List α) := t.equations[row]?.map (·.entries)

/-- An artificial variable that is basic above the tolerance shows that its row is not satisfied. -/
def hasPositiveArtificial [Scalar α] (tolerance : α) (t : Tableau α) : Bool :=
  t.equations.any fun e => e.basic.isArtificial && tolerance < e.rhs

end Tableau

/-- The entry of an equation in a column, zero beyond its end. -/
def Equation.entry {α : Type} [Scalar α] (e : Equation α) (column : Nat) : α :=
  e.entries.getD column 0

end LinProg
