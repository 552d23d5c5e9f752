import LinProg.Proofs.Engine.Solve
import LinProg.Proofs.Engine.Soundness
import LinProg.Proofs.Tableau.Basis
import LinProg.Proofs.Tableau.Directions

/-!
# What the pivot loop solves

In exact arithmetic and without a tolerance the loop solves the problem that the start sets up: the
least penalised cost of a solution of the augmented equations without negative values. The cost row
of a tableau says the penalised cost up to a constant, so a row without negative entries certifies
the vertex, and a column that nothing bounds is a direction along which the penalised cost falls.

Where no row needs an artificial variable there is no penalty, and the augmented problem is the
program itself.
-/

namespace LinProg

theorem Direction.costOf_add (d : Direction) (v w : ℚ) :
    d.costOf (v + w) = d.costOf v + d.costOf w := by
  cases d with
  | minimize => rfl
  | maximize => exact neg_add v w

namespace Program

variable {p : Program ℚ} {direction : Direction}

/-- The cost of values for all columns: that of the decision variables, and `M` for each unit of an
artificial variable. -/
def augmentedCost (p : Program ℚ) (direction : Direction) (z : Assignment) : ℚ :=
  direction.costOf (weigh p.costs z)
    + (Tableau.augment p direction).bigM * (Tableau.augment p direction).shortage z

theorem augmentedCost_add (p : Program ℚ) (direction : Direction) (y z : Assignment) :
    (p.augmentedCost direction fun j => y j + z j)
      = p.augmentedCost direction y + p.augmentedCost direction z := by
  unfold augmentedCost Tableau.shortage
  rw [weigh_add, weigh_add, direction.costOf_add]
  ring

theorem penalisedCost_eq_augmentedCost (p : Program ℚ) (direction : Direction) (z : Assignment) :
    p.penalisedCost direction (firstValues p.width z) (Tableau.shortfallsAt p z)
      = p.augmentedCost direction z := by
  have hcosts : p.costs.length = p.width := List.length_map _
  unfold penalisedCost augmentedCost objective
  rw [dot_firstValues hcosts, Tableau.shortage_augment]
  rfl

end Program

namespace Tableau

variable {p : Program ℚ} {direction : Direction} {t : Tableau ℚ} {z d : Assignment}

theorem weigh_cost_eq_augmentedCost_sub (hwf : p.WellFormed)
    (hsolves : (augment p direction).Solves z) :
    weigh (augment p direction).cost z = p.augmentedCost direction z
      - takenOut (bigMOf p.normalisedRows p.costs) p.normalisedRows := by
  rw [weigh_cost_augment hwf hsolves, p.penalisedCost_eq_augmentedCost]

/-- Along a direction the constant that was taken out of the cost row does not matter. -/
theorem weigh_cost_eq_augmentedCost (hwf : p.WellFormed) (hz : (augment p direction).Solves z)
    (hd : (augment p direction).Homogeneous d) :
    weigh (augment p direction).cost d = p.augmentedCost direction d := by
  have hfoot := weigh_cost_eq_augmentedCost_sub hwf hz
  have hmoved := weigh_cost_eq_augmentedCost_sub hwf ((hz.add_iff d).mpr hd)
  rw [weigh_add, p.augmentedCost_add] at hmoved
  linarith

theorem augmentedCost_vertex_le (hwf : p.WellFormed) (h : (augment p direction).Reached t)
    (hoptimal : t.choose 0 = .optimal) (hz : (augment p direction).Solves z)
    (hnonneg : ∀ j, 0 ≤ z j) :
    p.augmentedCost direction t.vertex ≤ p.augmentedCost direction z := by
  have hle := h.cost_vertex_le hoptimal hz hnonneg
  rw [weigh_cost_eq_augmentedCost_sub hwf h.solves_vertex,
    weigh_cost_eq_augmentedCost_sub hwf hz] at hle
  exact (sub_le_sub_iff_right _).mp hle

/-- The ray of a column that nothing bounds. -/
theorem descending_ray (hwf : p.WellFormed) (h : (augment p direction).Reached t) {column : Nat}
    (hunbounded : t.choose 0 = .unbounded column) :
    (∀ j, 0 ≤ t.ray column j) ∧ (augment p direction).Homogeneous (t.ray column) ∧
      p.augmentedCost direction (t.ray column) < 0 := by
  obtain ⟨⟨v, hv, hnegative⟩, hentries⟩ := entry_le_of_choose_unbounded hunbounded
  have hray : (augment p direction).Homogeneous (t.ray column) :=
    (h.homogeneous_iff h.solves_vertex).mp (h.canonical.homogeneous_ray column)
  refine ⟨ray_nonneg hentries, hray, ?_⟩
  calc p.augmentedCost direction (t.ray column)
      = weigh (augment p direction).cost (t.ray column) :=
        (weigh_cost_eq_augmentedCost hwf h.solves_vertex hray).symm
    _ = weigh t.cost (t.ray column) := (h.weigh_cost_eq h.solves_vertex hray).symm
    _ = v := by rw [h.canonical.weigh_cost_ray, List.getD_eq_getElem?_getD, hv, Option.getD_some]
    _ < 0 := by rwa [neg_zero] at hnegative

theorem exists_augmentedCost_lt (hwf : p.WellFormed) (h : (augment p direction).Reached t)
    {column : Nat} (hunbounded : t.choose 0 = .unbounded column) (bound : ℚ) :
    ∃ z, (augment p direction).Solves z ∧ (∀ j, 0 ≤ z j) ∧ p.augmentedCost direction z < bound := by
  obtain ⟨z, hsolves, hnonneg, hcost, -⟩ := h.exists_cost_lt hunbounded
    (bound - takenOut (bigMOf p.normalisedRows p.costs) p.normalisedRows)
  rw [weigh_cost_eq_augmentedCost_sub hwf hsolves] at hcost
  exact ⟨z, hsolves, hnonneg, (sub_lt_sub_iff_right _).mp hcost⟩

end Tableau

/-! ### Programs without shortfalls -/

theorem Program.Verdict.ne_noSolution {p : Program ℚ} {direction : Direction} {status : Status}
    {x : List ℚ} (h : p.Verdict direction status x)
    (hrows : ∀ r ∈ p.normalisedRows, r.relation = .lessEq) : status ≠ .noSolution := by
  rintro rfl
  cases h with
  | noSolution hsum hend =>
      rcases hend with hcheapest | hbottomless
      · exact hsum.ne' (hcheapest.toRelaxed.sum_eq_zero hrows)
      · obtain ⟨y, s, hrelaxed, hshortage, -⟩ := hbottomless 0
        rw [hrelaxed.sum_eq_zero hrows] at hshortage
        exact absurd hsum (not_lt.mpr hshortage)

namespace Engine

variable {e : Engine ℚ} {direction : Direction}

theorem free_setup (hwf : e.program.WellFormed) (direction : Direction) :
    (e.setup direction).currentTableau.height < (e.setup direction).currentTableau.width :=
  (Tableau.shaped_augment hwf direction).height_lt_width

theorem loop_setup (hexact : e.settings.tolerance = 0) (fuel : Nat) (direction : Direction) :
    (e.setup direction).loop fuel
      = (Tableau.augment e.program direction).run 0 (e.settings.maxIterations.getD fuel) := by
  rw [← hexact]
  rfl

theorem reached_loop_setup (hwf : e.program.WellFormed) (hexact : e.settings.tolerance = 0)
    (fuel : Nat) (direction : Direction) :
    (Tableau.augment e.program direction).Reached ((e.setup direction).loop fuel).final := by
  rw [loop_setup hexact]
  exact (Tableau.reached_augment hwf direction).run _

theorem choose_of_solution (hwf : e.program.WellFormed) (hexact : e.settings.tolerance = 0)
    {fuel : Nat} (hok : ((e.setup direction).solve fuel).1 = .ok .solution) :
    ((e.setup direction).loop fuel).final.choose 0 = .optimal := by
  have hstop := Tableau.Stop.status?_eq_solution_iff.mp
    ((solve_eq_ok_iff (free_setup hwf direction) fuel).mp hok)
  rw [loop_setup hexact] at hstop ⊢
  exact (Tableau.choose_final _ _ _).1 hstop

theorem choose_of_unbounded (hwf : e.program.WellFormed) (hexact : e.settings.tolerance = 0)
    {fuel : Nat} (hok : ((e.setup direction).solve fuel).1 = .ok .unbounded) :
    ∃ column, ((e.setup direction).loop fuel).final.choose 0 = .unbounded column := by
  obtain ⟨column, hstop⟩ := Tableau.Stop.status?_eq_unbounded_iff.mp
    ((solve_eq_ok_iff (free_setup hwf direction) fuel).mp hok)
  rw [loop_setup hexact] at hstop ⊢
  exact ⟨column, (Tableau.choose_final _ _ _).2 column hstop⟩

/-- The loop ends at a cheapest nonnegative solution of the augmented equations, or it has found a
direction along which the penalised cost falls without end. Where no row needs an artificial
variable, the answer is about the program itself. -/
theorem penalised_of_solve (hwf : e.program.WellFormed) (hexact : e.settings.tolerance = 0)
    (fuel : Nat) (direction : Direction) :
    (((e.setup direction).solve fuel).1 = .ok .solution →
        ∃ t z, ((e.setup direction).solve fuel).2.tableau = some t ∧ t.IsBasicPoint z ∧
          (Tableau.augment e.program direction).Solves z ∧ (∀ j, 0 ≤ z j) ∧
          ∀ y, (Tableau.augment e.program direction).Solves y → (∀ j, 0 ≤ y j) →
            e.program.augmentedCost direction z ≤ e.program.augmentedCost direction y) ∧
      (((e.setup direction).solve fuel).1 = .ok .unbounded →
        (∃ d, (∀ j, 0 ≤ d j) ∧ (Tableau.augment e.program direction).Homogeneous d ∧
          e.program.augmentedCost direction d < 0) ∧
        ∀ bound, ∃ y, (Tableau.augment e.program direction).Solves y ∧ (∀ j, 0 ≤ y j) ∧
          e.program.augmentedCost direction y < bound) ∧
      ((∀ r ∈ e.program.normalisedRows, r.relation = .lessEq) →
        (e.optimize fuel direction).1 ≠ .ok .noSolution ∧
          ((e.optimize fuel direction).1 = .ok .unbounded → e.program.Unbounded direction)) := by
  have hreached := reached_loop_setup hwf hexact fuel direction
  refine ⟨?_, ?_, ?_⟩
  · intro hok
    have hoptimal := choose_of_solution hwf hexact hok
    refine ⟨_, _, solve_tableau (free_setup hwf direction) fuel,
      hreached.canonical.isBasicPoint_vertex, hreached.solves_vertex, hreached.vertex_nonneg, ?_⟩
    intro y hsolves hnonneg
    exact Tableau.augmentedCost_vertex_le hwf hreached hoptimal hsolves hnonneg
  · intro hok
    obtain ⟨column, hunbounded⟩ := choose_of_unbounded hwf hexact hok
    exact ⟨⟨_, Tableau.descending_ray hwf hreached hunbounded⟩,
      Tableau.exists_augmentedCost_lt hwf hreached hunbounded⟩
  · intro hrows
    constructor
    · intro hok
      exact (verdict_of_optimize hwf hexact hok).ne_noSolution hrows rfl
    · intro hok
      exact (verdict_of_optimize hwf hexact hok).unbounded_iff.mpr
        (Program.shortfallNeverPays_of_lessEq hrows direction)

/-- All three parts take place: `mixedRows` has a cheapest point, the penalty of `shallowRow` does
not keep the cost up, and `openRow` needs no artificial variable. -/
theorem penalised_shallowRow :
    (∃ t z, ((mixedRows.setup .minimize).solve 9).2.tableau = some t ∧ t.IsBasicPoint z ∧
        ∀ y, (Tableau.augment mixedRows.program .minimize).Solves y → (∀ j, 0 ≤ y j) →
          mixedRows.program.augmentedCost .minimize z
            ≤ mixedRows.program.augmentedCost .minimize y) ∧
      (∃ d, (∀ j, 0 ≤ d j) ∧ (Tableau.augment shallowRow.program .maximize).Homogeneous d ∧
        shallowRow.program.augmentedCost .maximize d < 0) ∧
      (openRow.optimize 9 .maximize).1 ≠ .ok .noSolution ∧
      openRow.program.Unbounded .maximize := by
  have hsolution : ((mixedRows.setup .minimize).solve 9).1 = .ok .solution := by decide +kernel
  have hunbounded : ((shallowRow.setup .maximize).solve 9).1 = .ok .unbounded := by
    decide +kernel
  have hopen : (openRow.optimize 9 .maximize).1 = .ok .unbounded := by decide +kernel
  have hrows : ∀ r ∈ openRow.program.normalisedRows, r.relation = .lessEq := by decide +kernel
  obtain ⟨t, z, htableau, hpoint, -, -, hleast⟩ :=
    (penalised_of_solve wellFormed_mixedRows rfl 9 .minimize).1 hsolution
  have hshallow : shallowRow.program.WellFormed :=
    ⟨by decide, by decide, by decide, by decide⟩
  have hray := (penalised_of_solve hshallow rfl 9 .maximize).2.1 hunbounded
  have hwf : openRow.program.WellFormed := ⟨by decide, by decide, by decide, by decide⟩
  have hverdict := (penalised_of_solve hwf rfl 9 .maximize).2.2 hrows
  exact ⟨⟨t, z, htableau, hpoint, hleast⟩, hray.1, hverdict.1, hverdict.2 hopen⟩

end Engine

end LinProg
