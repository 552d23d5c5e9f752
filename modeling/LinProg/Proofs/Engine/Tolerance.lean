import LinProg.Proofs.Engine.Verdict
import LinProg.Proofs.Tableau.Slack

/-!
# Solutions with a tolerance

The ratio test passes over each row whose entry in the column is positive but no larger than the
tolerance, however far the pivot goes. Such a row then loses its entry times the step, which has no
bound, and the solution may break it by any amount. It does not where each pivot would also have been
chosen without the tolerance, and in general the last right sides tell.
-/

namespace LinProg

namespace Tableau

/-- Each pivot from here on leaves a row of the least ratio, out of all the rows with a positive
entry and not only those that the tolerance lets through. -/
def LeastRatios (tolerance : ℚ) (s : Tableau ℚ) : Prop :=
  ∀ t row column e, Relation.ReflTransGen (Step tolerance) s t →
    t.choose tolerance = .pivot row column → t.equations[row]? = some e →
      ∀ f ∈ t.equations, 0 < f.entry column → ratio column e ≤ ratio column f

theorem rhs_nonneg_of_leastRatios {tolerance : ℚ} (htolerance : 0 ≤ tolerance) {s t : Tableau ℚ}
    (hleast : s.LeastRatios tolerance) (hshaped : s.Shaped) (hrhs : ∀ e ∈ s.equations, 0 ≤ e.rhs)
    (hsteps : Relation.ReflTransGen (Step tolerance) s t) : ∀ e ∈ t.equations, 0 ≤ e.rhs := by
  induction hsteps with
  | refl => exact hrhs
  | @tail t u hsteps hstep ih =>
      have htshaped := (regularPivots_of_steps htolerance hshaped hsteps).2
      obtain ⟨row, column, hchoose, rfl⟩ := hstep
      obtain ⟨-, e, hrow, hentry, -⟩ := ratio_of_choose_pivot hchoose
      have hcolumn := List.getElem?_eq_getElem (column_lt_of_choose htshaped hchoose)
      exact rhs_nonneg_pivot hrow hcolumn (lt_of_le_of_lt htolerance hentry)
        (hleast t row column e hsteps hchoose hrow) ih

end Tableau

namespace Engine

variable {e : Engine ℚ} {fuel : Nat} {direction : Direction} {slack : ℚ}

theorem derived_freshRun (hwf : e.program.WellFormed) (htolerance : 0 ≤ e.settings.tolerance)
    (fuel : Nat) (direction : Direction) :
    (Tableau.augment e.program direction).Derived (e.freshRun fuel direction).final :=
  Tableau.derived_augment hwf
    (Tableau.regularPivots_run htolerance (Tableau.shaped_augment hwf direction) _)

theorem solution_eq_firstValues (hwf : e.program.WellFormed)
    (htolerance : 0 ≤ e.settings.tolerance)
    (hok : (e.optimize fuel direction).1 = .ok .solution) :
    (e.optimize fuel direction).2.program.solution
      = firstValues e.program.width (e.freshRun fuel direction).final.vertex := by
  obtain ⟨found, -, -, hprogram⟩ := optimize_ok hwf hok
  rw [hprogram, if_neg (by decide)]
  exact Tableau.decisionValues_of_derived (derived_freshRun hwf htolerance fuel direction)

theorem rhs_artificial_le (hwf : e.program.WellFormed)
    (hok : (e.optimize fuel direction).1 = .ok .solution) :
    ∀ f ∈ (e.freshRun fuel direction).final.equations, f.basic.isArtificial →
      f.rhs ≤ e.settings.tolerance := by
  obtain ⟨found, -, hstatus, -⟩ := optimize_ok hwf hok
  intro f hf hartificial
  by_contra hlt
  have hpositive : (e.freshRun fuel direction).final.hasPositiveArtificial e.settings.tolerance
      = true := by
    refine List.any_eq_true.mpr ⟨f, hf, ?_⟩
    simp [hartificial, not_le.mp hlt]
  rw [if_pos hpositive] at hstatus
  cases hstatus

theorem feasibleWithin_iff_rhsAtLeast (hwf : e.program.WellFormed)
    (htolerance : 0 ≤ e.settings.tolerance) (hslack : e.settings.tolerance ≤ slack)
    (hok : (e.optimize fuel direction).1 = .ok .solution) :
    e.program.FeasibleWithin slack (e.optimize fuel direction).2.program.solution
      ↔ (e.freshRun fuel direction).final.RhsAtLeast (-slack) := by
  rw [solution_eq_firstValues hwf htolerance hok]
  refine Tableau.feasibleWithin_vertex_iff hwf (derived_freshRun hwf htolerance fuel direction)
    (htolerance.trans hslack) fun f hf hartificial => ?_
  exact (rhs_artificial_le hwf hok f hf hartificial).trans hslack

theorem rhsAtLeast_of_leastRatios (hwf : e.program.WellFormed)
    (htolerance : 0 ≤ e.settings.tolerance) (hslack : 0 ≤ slack) (fuel : Nat)
    (hleast : (Tableau.augment e.program direction).LeastRatios e.settings.tolerance) :
    (e.freshRun fuel direction).final.RhsAtLeast (-slack) := by
  intro f hf
  have hrhs := Tableau.rhs_nonneg_of_leastRatios htolerance hleast
    (Tableau.shaped_augment hwf direction) (Tableau.rhs_nonneg_augment e.program direction)
    (Tableau.steps_run e.settings.tolerance (e.settings.maxIterations.getD fuel) _)
  exact .inl ((neg_nonpos.mpr hslack).trans (hrhs f hf))

theorem defaultTolerance_eq : (Settings.defaultTolerance : ℚ) = 1 / 1000000000 := by
  decide +kernel

/-- With the standard tolerance a solution is feasible up to a millionth exactly if the last right
sides are, and it is wherever no row that was passed over had a smaller ratio. -/
theorem feasible_to_millionth_iff (hwf : e.program.WellFormed)
    (hstandard : e.settings.tolerance = Settings.defaultTolerance)
    (hok : (e.optimize fuel direction).1 = .ok .solution) :
    (∃ t, (e.optimize fuel direction).2.tableau = some t ∧
      (e.program.FeasibleWithin (1 / 1000000) (e.optimize fuel direction).2.program.solution
        ↔ t.RhsAtLeast (-(1 / 1000000)))) ∧
      ((Tableau.augment e.program direction).LeastRatios e.settings.tolerance →
        e.program.FeasibleWithin (1 / 1000000)
          (e.optimize fuel direction).2.program.solution) := by
  have htolerance : 0 ≤ e.settings.tolerance := by
    rw [hstandard, defaultTolerance_eq]
    norm_num
  have hslack : e.settings.tolerance ≤ 1 / 1000000 := by
    rw [hstandard, defaultTolerance_eq]
    norm_num
  have hiff := feasibleWithin_iff_rhsAtLeast hwf htolerance hslack hok
  refine ⟨⟨_, tableau_optimize hwf hok, hiff⟩, ?_⟩
  intro hleast
  exact hiff.mpr (rhsAtLeast_of_leastRatios hwf htolerance (by norm_num) fuel hleast)

/-- An engine with the standard settings, for rows and costs. -/
def standard (rows : List (Constraint ℚ)) (costs : List ℚ) : Engine ℚ :=
  ofProgram (.ofRows rows (costs.map fun cost => ⟨cost, none⟩)) .standard

/-- `x + y` where `x / 10^10 ≤ 1`, `x ≤ 5` and `y = 2`. The first row is passed over, and the second
one bounds the step before the first would have. -/
def slackRow : Engine ℚ :=
  standard [⟨[1 / 10000000000, 0], .lessEq, 1, none⟩, ⟨[1, 0], .lessEq, 5, none⟩,
    ⟨[0, 1], .equal, 2, none⟩] [1, 1]

theorem feasible_slackRow :
    (slackRow.optimize 9 .maximize).1 = .ok .solution ∧
      (slackRow.optimize 9 .maximize).2.program.solution = [5, 2] ∧
      slackRow.program.FeasibleWithin (1 / 1000000) [5, 2] := by
  have hok : (slackRow.optimize 9 .maximize).1 = .ok .solution := by decide +kernel
  have hsolution : (slackRow.optimize 9 .maximize).2.program.solution = [5, 2] := by
    decide +kernel
  have hvalues : (slackRow.optimize 9 .maximize).2.tableau.map (·.rhs)
      = some [1999999999 / 2000000000, 5, 2] := by decide +kernel
  have hwf : slackRow.program.WellFormed := ⟨by decide, by decide, by decide, by decide⟩
  obtain ⟨⟨t, ht, hiff⟩, -⟩ := feasible_to_millionth_iff hwf rfl hok
  rw [ht] at hvalues
  rw [hsolution] at hiff
  refine ⟨hok, hsolution, hiff.mpr fun f hf => .inl ?_⟩
  have hmem : f.rhs ∈ t.rhs := List.mem_map_of_mem hf
  have hrhs : t.rhs = [1999999999 / 2000000000, 5, 2] := Option.some.inj hvalues
  have hall : ∀ v ∈ [1999999999 / 2000000000, 5, (2 : ℚ)], -(1 / 1000000) ≤ v := by
    decide +kernel
  rw [hrhs] at hmem
  exact hall _ hmem

/-- `x` where `x / 10^10 ≤ 1` and `x ≤ 10^11`. The entry of the first row is below the tolerance, so
that only the second row bounds the step. -/
def flatRow : Engine ℚ :=
  standard [⟨[1 / 10000000000], .lessEq, 1, none⟩, ⟨[1], .lessEq, 100000000000, none⟩] [1]

theorem infeasible_flatRow :
    flatRow.program.WellFormed ∧ flatRow.settings = .standard ∧
      (flatRow.optimize 9 .maximize).1 = .ok .solution ∧
      (flatRow.optimize 9 .maximize).2.program.solution = [100000000000] ∧
      ¬ flatRow.program.FeasibleWithin (1 / 1000000)
        (flatRow.optimize 9 .maximize).2.program.solution := by
  have hsolution : (flatRow.optimize 9 .maximize).2.program.solution = [100000000000] := by
    decide +kernel
  refine ⟨⟨by decide, by decide, by decide, by decide⟩, rfl, by decide +kernel, hsolution, ?_⟩
  intro hfeasible
  rw [hsolution] at hfeasible
  have hrow : Scalar.dot [1 / 10000000000] [100000000000] ≤ (1 : ℚ) + 1 / 1000000 :=
    hfeasible.satisfied ⟨[1 / 10000000000], .lessEq, 1, none⟩ List.mem_cons_self
  exact absurd hrow (by decide +kernel)

end Engine

end LinProg
