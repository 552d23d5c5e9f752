import LinProg.Program.Basic
import LinProg.Tableau.Basic

/-!
The starting tableau of a program.

A row with a negative right side is negated first. Then each row gets its own columns, the last of
which is basic: a slack for `≤`, an artificial variable for `=`, a surplus and an artificial variable
for `≥`. One unit of an artificial variable costs `M`, and the cost row is reduced to the basis.
-/

namespace LinProg

variable {α : Type} [Scalar α]

/-- The same row with a right side that is not negative. -/
def Constraint.normalised (r : Constraint α) : Constraint α :=
  if r.rhs < 0 then
    { r with coefficients := r.coefficients.map (-·), relation := r.relation.flipped, rhs := -r.rhs }
  else r

@[simp] theorem Constraint.length_normalised (r : Constraint α) :
    r.normalised.coefficients.length = r.coefficients.length := by
  unfold normalised
  split
  · exact List.length_map _
  · rfl

namespace Relation

/-- The roles of the columns that a row adds. -/
def extraRoles : Relation → List Role
  | lessEq => [.slack]
  | equal => [.artificial]
  | greaterEq => [.surplus, .artificial]

/-- The entries of a row in its own columns. -/
def extraEntries : Relation → List α
  | lessEq => [1]
  | equal => [1]
  | greaterEq => [-1, 1]

/-- The reduced costs of a row's own columns. -/
def extraCosts (bigM : α) : Relation → List α
  | lessEq => [0]
  | equal => [0]
  | greaterEq => [bigM, 0]

@[simp] theorem length_extraRoles (r : Relation) : r.extraRoles.length = r.extraColumns := by
  cases r <;> rfl

@[simp] theorem length_extraEntries (r : Relation) :
    (r.extraEntries : List α).length = r.extraColumns := by
  cases r <;> rfl

@[simp] theorem length_extraCosts (bigM : α) (r : Relation) :
    (r.extraCosts bigM).length = r.extraColumns := by
  cases r <;> rfl

/-- The role of the variable that starts as basic. -/
def basicRole : Relation → Role
  | lessEq => .slack
  | equal => .artificial
  | greaterEq => .artificial

end Relation

namespace Tableau

/-- The count of columns that the rows add together. -/
def extraCount : List (Constraint α) → Nat
  | [] => 0
  | r :: rows => r.relation.extraColumns + extraCount rows

/-- Twice the largest absolute value of a coefficient, a right side or a cost, and at least two. -/
def penalty (rows : List (Constraint α)) (costs : List α) : α :=
  let values := (rows.map (·.coefficients)).flatten ++ rows.map (·.rhs) ++ costs
  (1 + 1) * values.foldl (fun largest v => if largest < Scalar.abs v then Scalar.abs v else largest) 1

/-- The penalty where some row needs an artificial variable, else zero. -/
def bigMOf (rows : List (Constraint α)) (costs : List α) : α :=
  if rows.any (·.relation.needsArtificial) then penalty rows costs else 0

/-- The equation of a row that has `before` extra columns of other rows on its left and `after` on
its right. -/
def startEquation (before after : Nat) (r : Constraint α) : Equation α :=
  { entries := r.coefficients ++ List.replicate before 0 ++ r.relation.extraEntries
      ++ List.replicate after 0
    rhs := r.rhs
    basic :=
      ⟨r.relation.basicRole, r.coefficients.length + before + r.relation.extraColumns - 1⟩ }

/-- The equations of the rows from top to bottom, with `before` extra columns already given away. -/
def startEquations (before : Nat) : List (Constraint α) → List (Equation α)
  | [] => []
  | r :: rows =>
    startEquation before (extraCount rows) r
      :: startEquations (before + r.relation.extraColumns) rows

@[simp] theorem length_startEquations (before : Nat) (rows : List (Constraint α)) :
    (startEquations before rows).length = rows.length := by
  induction rows generalizing before with
  | nil => rfl
  | cons r rows ih => exact congrArg (· + 1) (ih _)

/-- Takes a row whose basic variable costs `M` out of the cost row. -/
def reduceCost (bigM : α) (cost : List α) (r : Constraint α) : List α :=
  if r.relation.needsArtificial then cost.zipWith (fun c v => c - v * bigM) r.coefficients
  else cost

/-- The cost of each decision variable in a problem that is to be minimized. -/
def signedCosts (direction : Direction) (costs : List α) : List α :=
  match direction with
  | .minimize => costs
  | .maximize => costs.map (-·)

/-- The variables with the given roles, in columns that count up from `first`. -/
def numbered (first : Nat) (roles : List Role) : List Variable :=
  roles.mapIdx fun i role => ⟨role, first + i⟩

def augment (p : Program α) (direction : Direction) : Tableau α :=
  let rows := p.rows.map Constraint.normalised
  let bigM := bigMOf rows p.costs
  { decisionCount := p.width
    columns := numbered 0
      (List.replicate p.width .decision ++ (rows.map (·.relation.extraRoles)).flatten)
    equations := startEquations 0 rows
    cost := rows.foldl (reduceCost bigM) (signedCosts direction p.costs)
      ++ (rows.map (·.relation.extraCosts bigM)).flatten
    artificialCount := rows.countP (·.relation.needsArtificial)
    bigM }

theorem height_augment (p : Program α) (direction : Direction) :
    (augment p direction).height = p.height := by
  unfold height augment Program.height
  rw [length_startEquations, List.length_map]

end Tableau

end LinProg
