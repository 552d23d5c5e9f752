import LinProg.Proofs.WeightedSum
import LinProg.Tableau.Augment

/-!
# What the answers mean

A point is feasible if it satisfies all rows and has no negative entry. A solution is a feasible
point that no other one beats, and a program is unbounded if its feasible points beat every number.

The tableau works on a relaxed program, in which every normalised row but `≤` may fall short of its
right side at a price of `M` for each unit. A feasible point is a relaxed one without shortfalls.
-/

namespace LinProg

def Relation.Holds : Relation → ℚ → ℚ → Prop
  | lessEq, left, right => left ≤ right
  | equal, left, right => left = right
  | greaterEq, left, right => right ≤ left

theorem Relation.holds_flipped_neg (r : Relation) (left right : ℚ) :
    r.flipped.Holds (-left) (-right) ↔ r.Holds left right := by
  cases r with
  | lessEq => exact neg_le_neg_iff
  | equal => exact neg_inj
  | greaterEq => exact neg_le_neg_iff

namespace Direction

/-- The first objective value is at least as good as the second. -/
def NoWorse : Direction → ℚ → ℚ → Prop
  | minimize, v, w => v ≤ w
  | maximize, v, w => w ≤ v

def Better : Direction → ℚ → ℚ → Prop
  | minimize, v, w => v < w
  | maximize, v, w => w < v

/-- An objective value as a cost, which is to be small. -/
def costOf : Direction → ℚ → ℚ
  | minimize, v => v
  | maximize, v => -v

theorem noWorse_iff (d : Direction) (v w : ℚ) : d.NoWorse v w ↔ d.costOf v ≤ d.costOf w := by
  cases d with
  | minimize => exact Iff.rfl
  | maximize => exact neg_le_neg_iff.symm

theorem better_iff (d : Direction) (v w : ℚ) : d.Better v w ↔ d.costOf v < d.costOf w := by
  cases d with
  | minimize => exact Iff.rfl
  | maximize => exact neg_lt_neg_iff.symm

theorem costOf_costOf (d : Direction) (v : ℚ) : d.costOf (d.costOf v) = v := by
  cases d with
  | minimize => rfl
  | maximize => exact neg_neg v

end Direction

namespace Constraint

def Satisfied (r : Constraint ℚ) (x : List ℚ) : Prop :=
  r.relation.Holds (Scalar.dot r.coefficients x) r.rhs

/-- A property of rows that does not change if both sides are negated and the relation is flipped
does not change if the row is normalised. -/
theorem normalised_iff {Q : Relation → ℚ → ℚ → Prop}
    (hflip : ∀ relation left right, Q relation.flipped (-left) (-right) ↔ Q relation left right)
    (r : Constraint ℚ) (x : List ℚ) :
    Q r.normalised.relation (Scalar.dot r.normalised.coefficients x) r.normalised.rhs
      ↔ Q r.relation (Scalar.dot r.coefficients x) r.rhs := by
  unfold normalised
  split
  · have hdot : Scalar.dot (r.coefficients.map (-·)) x = -Scalar.dot r.coefficients x := by
      rw [dot_eq_weigh_listed, dot_eq_weigh_listed]
      exact weigh_map_neg r.coefficients (listed x)
    rw [hdot]
    exact hflip r.relation _ _
  · exact Iff.rfl

theorem satisfied_normalised (r : Constraint ℚ) (x : List ℚ) :
    r.normalised.Satisfied x ↔ r.Satisfied x :=
  normalised_iff Relation.holds_flipped_neg r x

theorem rhs_normalised_nonneg (r : Constraint ℚ) : 0 ≤ r.normalised.rhs := by
  unfold normalised
  split
  · next hneg => exact neg_nonneg.mpr (le_of_lt hneg)
  · next hneg => exact not_lt.mp hneg

/-- The row holds once the shortfall is added to its left side. -/
structure HoldsShort (r : Constraint ℚ) (x : List ℚ) (shortfall : ℚ) : Prop where
  nonneg : 0 ≤ shortfall
  eq_zero : r.relation = .lessEq → shortfall = 0
  holds : r.relation.Holds (Scalar.dot r.coefficients x + shortfall) r.rhs

theorem holdsShort_zero_iff (r : Constraint ℚ) (x : List ℚ) :
    r.HoldsShort x 0 ↔ r.Satisfied x := by
  constructor
  · intro h
    have hholds := h.holds
    rwa [add_zero] at hholds
  · intro h
    refine ⟨le_refl 0, fun _ => rfl, ?_⟩
    rwa [add_zero]

end Constraint

namespace Program

structure Feasible (p : Program ℚ) (x : List ℚ) : Prop where
  length_eq : x.length = p.width
  nonneg : ∀ v ∈ x, 0 ≤ v
  satisfied : ∀ r ∈ p.rows, r.Satisfied x

def Infeasible (p : Program ℚ) : Prop := ∀ x, ¬ p.Feasible x

def objective (p : Program ℚ) (x : List ℚ) : ℚ := Scalar.dot p.costs x

theorem objective_zeros (p : Program ℚ) : p.objective (List.replicate p.width 0) = 0 := by
  have hzeros : listed (List.replicate p.width 0) = fun _ => 0 := by
    funext j
    exact getD_replicate_zero _ j
  unfold objective
  rw [dot_eq_weigh_listed, hzeros, weigh_zero]

structure Optimal (p : Program ℚ) (direction : Direction) (x : List ℚ) : Prop
    extends p.Feasible x where
  noWorse : ∀ y, p.Feasible y → direction.NoWorse (p.objective x) (p.objective y)

def Unbounded (p : Program ℚ) (direction : Direction) : Prop :=
  ∀ bound, ∃ y, p.Feasible y ∧ direction.Better (p.objective y) bound

/-! ### The relaxed program -/

def normalisedRows (p : Program ℚ) : List (Constraint ℚ) := p.rows.map Constraint.normalised

/-- A point with no negative entry, and what each normalised row falls short by there. -/
structure Relaxed (p : Program ℚ) (x shortfalls : List ℚ) : Prop where
  length_eq : x.length = p.width
  nonneg : ∀ v ∈ x, 0 ≤ v
  holdsShort : List.Forall₂ (fun r s => r.HoldsShort x s) p.normalisedRows shortfalls

/-- The cost of a point and a price for each unit that its rows fall short by. -/
def penalisedCost (p : Program ℚ) (direction : Direction) (x shortfalls : List ℚ) : ℚ :=
  direction.costOf (p.objective x) + Tableau.bigMOf p.normalisedRows p.costs * shortfalls.sum

theorem Relaxed.shortfall_nonneg {p : Program ℚ} {x shortfalls : List ℚ}
    (h : p.Relaxed x shortfalls) : ∀ s ∈ shortfalls, 0 ≤ s := by
  intro s hs
  obtain ⟨i, hi, rfl⟩ := List.mem_iff_getElem.mp hs
  have hlength := h.holdsShort.length_eq
  exact (h.holdsShort.get (by omega) hi).nonneg

theorem Feasible.relaxed {p : Program ℚ} {x : List ℚ} (h : p.Feasible x) :
    p.Relaxed x (List.replicate p.height 0) where
  length_eq := h.length_eq
  nonneg := h.nonneg
  holdsShort := by
    unfold normalisedRows height
    rw [List.forall₂_map_left_iff]
    refine List.forall₂_iff_get.mpr ⟨List.length_replicate.symm, fun i hi hi' => ?_⟩
    rw [List.get_eq_getElem, List.get_eq_getElem, List.getElem_replicate,
      Constraint.holdsShort_zero_iff, Constraint.satisfied_normalised]
    exact h.satisfied _ (List.getElem_mem hi)

theorem Relaxed.feasible {p : Program ℚ} {x shortfalls : List ℚ} (h : p.Relaxed x shortfalls)
    (hsum : shortfalls.sum = 0) : p.Feasible x where
  length_eq := h.length_eq
  nonneg := h.nonneg
  satisfied := by
    intro r hr
    have hzero : ∀ s ∈ shortfalls, s = 0 := fun s hs =>
      List.all_zero_of_le_zero_le_of_sum_eq_zero h.shortfall_nonneg hsum hs
    obtain ⟨i, hi, rfl⟩ := List.mem_iff_getElem.mp hr
    have hrows : i < p.normalisedRows.length := by simpa [normalisedRows] using hi
    have hshortfalls : i < shortfalls.length := h.holdsShort.length_eq ▸ hrows
    have hshort := h.holdsShort.get hrows hshortfalls
    rw [List.get_eq_getElem, List.get_eq_getElem, hzero _ (List.getElem_mem hshortfalls),
      Constraint.holdsShort_zero_iff] at hshort
    have hrow : p.normalisedRows[i] = p.rows[i].normalised := by simp [normalisedRows]
    rwa [hrow, Constraint.satisfied_normalised] at hshort

end Program

end LinProg
