import LinProg.Proofs.Engine.Outcome
import LinProg.Proofs.Engine.Soundness

/-!
# Maximize by minimizing

To maximize a program is to minimize the one with all costs negated, pivot by pivot. The cost row is
the same, and `M` only looks at absolute values. Of the numbers this takes two laws and no more: a
number negated twice is itself, and a number has the absolute value of its negation.

The objective value is computed from the costs as they stand. It is negated wherever negation also
goes through sums and products.
-/

namespace LinProg

/-- The laws of a sign. -/
structure Signed (α : Type) [Scalar α] : Prop where
  negated_twice : ∀ v : α, - -v = v
  abs_negated : ∀ v : α, Scalar.abs (-v) = Scalar.abs v

/-- Negation goes through sums and products. -/
structure NegatesSums (α : Type) [Scalar α] : Prop where
  negated_zero : (-0 : α) = 0
  negated_sum : ∀ v w : α, -(v + w) = -v + -w
  negated_product : ∀ v w : α, -v * w = -(v * w)

theorem signed_rat : Signed ℚ where
  negated_twice := Rat.neg_neg
  abs_negated _ := Rat.abs_neg

theorem negatesSums_rat : NegatesSums ℚ where
  negated_zero := Rat.neg_zero
  negated_sum _ _ := Rat.neg_add
  negated_product := Rat.neg_mul

def Direction.opposite : Direction → Direction
  | minimize => maximize
  | maximize => minimize

section Negation

variable {α : Type} [Scalar α]

theorem sum_map_neg (hnegates : NegatesSums α) (xs : List α) :
    Scalar.sum (xs.map (-·)) = -Scalar.sum xs := by
  have hfold : ∀ start : α, (xs.map (-·)).foldl (· + ·) (-start) = -xs.foldl (· + ·) start := by
    induction xs with
    | nil => exact fun _ => rfl
    | cons x xs ih =>
        intro start
        rw [List.map_cons, List.foldl_cons, List.foldl_cons, ← hnegates.negated_sum]
        exact ih (start + x)
  have hstart := hfold 0
  unfold Scalar.sum
  rwa [hnegates.negated_zero] at hstart ⊢

theorem dot_map_neg (hnegates : NegatesSums α) (costs xs : List α) :
    Scalar.dot (costs.map (-·)) xs = -Scalar.dot costs xs := by
  unfold Scalar.dot
  rw [← sum_map_neg hnegates, List.map_zipWith, List.zipWith_map_left]
  simp only [hnegates.negated_product]

/-- The search for the largest absolute value does not see a sign. -/
theorem foldl_largest_map_neg (hsigned : Signed α) (xs : List α) (start : α) :
    (xs.map (-·)).foldl
        (fun largest v => if largest < Scalar.abs v then Scalar.abs v else largest) start
      = xs.foldl (fun largest v => if largest < Scalar.abs v then Scalar.abs v else largest)
          start := by
  rw [List.foldl_map]
  simp only [hsigned.abs_negated]

end Negation

namespace Program

variable {α : Type} [Scalar α]

def negateCosts (p : Program α) : Program α :=
  { p with decisions := p.decisions.map fun d => { d with cost := -d.cost } }

theorem costs_negateCosts (p : Program α) : p.negateCosts.costs = p.costs.map (-·) := by
  unfold negateCosts costs
  rw [List.map_map, List.map_map]
  rfl

theorem width_negateCosts (p : Program α) : p.negateCosts.width = p.width := List.length_map _

theorem WellFormed.negateCosts {p : Program α} (hwf : p.WellFormed) :
    p.negateCosts.WellFormed := hwf.withDecisions (List.length_map _)

end Program

namespace Tableau

variable {α : Type} [Scalar α]

theorem signedCosts_opposite (hsigned : Signed α) (direction : Direction) (costs : List α) :
    signedCosts direction.opposite (costs.map (-·)) = signedCosts direction costs := by
  cases direction with
  | minimize =>
      show (costs.map (-·)).map (-·) = costs
      rw [List.map_map]
      exact (List.map_congr_left fun v _ => hsigned.negated_twice v).trans (List.map_id _)
  | maximize => rfl

theorem bigMOf_map_neg (hsigned : Signed α) (rows : List (Constraint α)) (costs : List α) :
    bigMOf rows (costs.map (-·)) = bigMOf rows costs := by
  unfold bigMOf penalty
  dsimp only
  rw [List.foldl_append, foldl_largest_map_neg hsigned, ← List.foldl_append]

/-- Both programs start from one tableau. -/
theorem augment_negateCosts (hsigned : Signed α) (p : Program α) (direction : Direction) :
    augment p.negateCosts direction.opposite = augment p direction := by
  have hrows : p.negateCosts.rows = p.rows := rfl
  unfold augment
  dsimp only
  rw [p.costs_negateCosts, p.width_negateCosts, hrows, signedCosts_opposite hsigned,
    bigMOf_map_neg hsigned]

end Tableau

namespace Engine

section Runs

variable {α : Type} [Scalar α] {e e' : Engine α} {direction : Direction}

theorem freshRun_opposite (hsigned : Signed α) (hprogram : e'.program = e.program.negateCosts)
    (hsettings : e'.settings = e.settings) (fuel : Nat) (direction : Direction) :
    e'.freshRun fuel direction.opposite = e.freshRun fuel direction := by
  unfold freshRun
  rw [hprogram, hsettings, Tableau.augment_negateCosts hsigned]

theorem objectiveValue_opposite (hsigned : Signed α) (hnegates : NegatesSums α)
    (hwf : e.program.WellFormed) (hprogram : e'.program = e.program.negateCosts)
    (hsettings : e'.settings = e.settings) (fuel : Nat) (direction : Direction) :
    (e'.optimize fuel direction.opposite).2.program.objectiveValue
      = -(e.optimize fuel direction).2.program.objectiveValue := by
  have hrun := freshRun_opposite hsigned hprogram hsettings fuel direction
  have hwf' : e'.program.WellFormed := hprogram ▸ hwf.negateCosts
  have hwidth : e'.program.width = e.program.width := hprogram ▸ e.program.width_negateCosts
  have hcosts : e'.program.costs = e.program.costs.map (-·) :=
    hprogram ▸ e.program.costs_negateCosts
  rw [optimize_program hwf, optimize_program hwf', answer_eq_of_freshRun_eq hsettings hrun,
    storedPoint_eq_of_freshRun_eq hwidth hsettings hrun]
  have hstored : Scalar.dot e'.program.costs (e.storedPoint fuel direction)
      = -Scalar.dot e.program.costs (e.storedPoint fuel direction) := by
    rw [hcosts]
    exact dot_map_neg hnegates _ _
  cases e.answer fuel direction with
  | error _ => exact hnegates.negated_zero.symm
  | ok status =>
      cases status with
      | solution => exact hstored
      | unbounded => exact hstored
      | noSolution => exact hnegates.negated_zero.symm

/-- After any count of pivots both are at the same tableau, and both calls come to the same end. -/
theorem optimize_opposite (hsigned : Signed α) (hwf : e.program.WellFormed)
    (hprogram : e'.program = e.program.negateCosts) (hsettings : e'.settings = e.settings)
    (fuel : Nat) (direction : Direction) :
    (∀ pivots, Tableau.run e'.settings.tolerance pivots
          (Tableau.augment e'.program direction.opposite)
        = Tableau.run e.settings.tolerance pivots (Tableau.augment e.program direction)) ∧
      SameOutcome (e.optimize fuel direction) (e'.optimize fuel direction.opposite) ∧
      (NegatesSums α → (e'.optimize fuel direction.opposite).2.program.objectiveValue
        = -(e.optimize fuel direction).2.program.objectiveValue) := by
  refine ⟨?_, ?_, ?_⟩
  · intro pivots
    rw [hprogram, hsettings, Tableau.augment_negateCosts hsigned]
  · exact sameOutcome_of_freshRun_eq hwf (hprogram ▸ hwf.negateCosts)
      (hprogram ▸ e.program.width_negateCosts) hsettings
      (freshRun_opposite hsigned hprogram hsettings fuel direction)
  · intro hnegates
    exact objectiveValue_opposite hsigned hnegates hwf hprogram hsettings fuel direction

end Runs

/-- `mixedRows` with its costs negated. -/
def mixedProfits : Engine ℚ := { mixedRows with program := mixedRows.program.negateCosts }

theorem optimize_mixedProfits :
    (mixedProfits.optimize 9 .maximize).1 = .ok .solution ∧
      (mixedProfits.optimize 9 .maximize).2.program.solution = [2, 1] ∧
      (mixedRows.optimize 9 .minimize).2.program.objectiveValue = 4 ∧
      (mixedProfits.optimize 9 .maximize).2.program.objectiveValue = -4 := by
  have hanswer : (mixedRows.optimize 9 .minimize).1 = .ok .solution := by decide +kernel
  have hsolution : (mixedRows.optimize 9 .minimize).2.program.solution = [2, 1] := by
    decide +kernel
  have hvalue : (mixedRows.optimize 9 .minimize).2.program.objectiveValue = 4 := by decide +kernel
  obtain ⟨-, hsame, hnegated⟩ := optimize_opposite signed_rat wellFormed_mixedRows
    (rfl : mixedProfits.program = _) (rfl : mixedProfits.settings = _) 9 .minimize
  refine ⟨hsame.answer_eq.trans hanswer, hsame.solution_eq.trans hsolution, hvalue, ?_⟩
  rw [← hvalue]
  exact hnegated negatesSums_rat

end Engine

end LinProg
