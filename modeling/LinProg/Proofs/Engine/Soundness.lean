import LinProg.Proofs.Engine.Verdict

/-!
# When the answers are right

In exact arithmetic a `solution` is always an optimum, and every point that is stored with an answer
other than `noSolution` is feasible. The other two answers are right under conditions on the penalty,
and these conditions are sharp: `noSolution` is right where some feasible point is cheaper than all
points that fall short, and `unbounded` is right where no shortfall is cheaper than all feasible
points. Both fail for programs of one row with a coefficient below one.
-/

namespace LinProg

namespace Program

variable {p : Program ℚ} {direction : Direction} {x s : List ℚ}

theorem penalisedCost_of_sum_eq_zero (hsum : s.sum = 0) :
    p.penalisedCost direction x s = direction.costOf (p.objective x) := by
  unfold penalisedCost
  rw [hsum, mul_zero, add_zero]

theorem penalisedCost_feasible (p : Program ℚ) (direction : Direction) (y : List ℚ) :
    p.penalisedCost direction y (List.replicate p.height 0) = direction.costOf (p.objective y) :=
  penalisedCost_of_sum_eq_zero (by simp)

theorem Cheapest.optimal (h : p.Cheapest direction x s) (hsum : s.sum = 0) :
    p.Optimal direction x where
  toFeasible := h.toRelaxed.feasible hsum
  noWorse := by
    intro y hy
    have hle := h.le y _ hy.relaxed
    rw [penalisedCost_of_sum_eq_zero hsum, penalisedCost_feasible] at hle
    exact (direction.noWorse_iff _ _).mpr hle

theorem Verdict.optimal (h : p.Verdict direction .solution x) : p.Optimal direction x := by
  cases h with
  | solution hcheapest hsum => exact hcheapest.optimal hsum

theorem Verdict.feasible {status : Status} (h : p.Verdict direction status x)
    (hstatus : status ≠ .noSolution) : p.Feasible x := by
  cases h with
  | solution hcheapest hsum => exact hcheapest.toRelaxed.feasible hsum
  | unbounded hrelaxed hsum _ => exact hrelaxed.feasible hsum
  | noSolution _ _ => exact absurd rfl hstatus

theorem Verdict.eq_zeros (h : p.Verdict direction .noSolution x) :
    x = List.replicate p.width 0 := by
  cases h with
  | noSolution _ _ => rfl

/-! ### The conditions on the penalty -/

/-- If there are feasible points, then one of them is cheaper than all points that fall short. -/
def PenaltyDominates (p : Program ℚ) (direction : Direction) : Prop :=
  (∃ y, p.Feasible y) → ∃ y, p.Feasible y ∧ ∀ x s, p.Relaxed x s → 0 < s.sum →
    direction.costOf (p.objective y) < p.penalisedCost direction x s

/-- For each point that falls short there is a feasible point that costs no more. -/
def ShortfallNeverPays (p : Program ℚ) (direction : Direction) : Prop :=
  ∀ x s, p.Relaxed x s → 0 < s.sum →
    ∃ y, p.Feasible y ∧ direction.costOf (p.objective y) ≤ p.penalisedCost direction x s

theorem Relaxed.sum_eq_zero (h : p.Relaxed x s)
    (hrows : ∀ r ∈ p.normalisedRows, r.relation = .lessEq) : s.sum = 0 := by
  apply List.sum_eq_zero
  intro v hv
  obtain ⟨i, hi, rfl⟩ := List.mem_iff_getElem.mp hv
  have hlength := h.holdsShort.length_eq
  have hshort := h.holdsShort.get (by omega) hi
  exact hshort.eq_zero (hrows _ (List.getElem_mem _))

/-- Where the origin is feasible nothing falls short, and the penalty does not matter. -/
theorem penaltyDominates_of_lessEq (hrows : ∀ r ∈ p.normalisedRows, r.relation = .lessEq)
    (direction : Direction) : p.PenaltyDominates direction := by
  rintro ⟨y, hy⟩
  refine ⟨y, hy, ?_⟩
  intro x s hrelaxed hshort
  exact absurd (hrelaxed.sum_eq_zero hrows) hshort.ne'

theorem shortfallNeverPays_of_lessEq (hrows : ∀ r ∈ p.normalisedRows, r.relation = .lessEq)
    (direction : Direction) : p.ShortfallNeverPays direction := by
  intro x s hrelaxed hshort
  exact absurd (hrelaxed.sum_eq_zero hrows) hshort.ne'

/-- A point that falls short and is at least as cheap as a feasible one. A cheapest point is such a
point at once, and in the other case the cost passes below the one of the feasible point. -/
theorem Verdict.exists_short_le {y : List ℚ} (h : p.Verdict direction .noSolution x)
    (hy : p.Feasible y) : ∃ z s, p.Relaxed z s ∧ 0 < s.sum ∧
      p.penalisedCost direction z s ≤ direction.costOf (p.objective y) := by
  cases h with
  | @noSolution z s hsum hend =>
      rcases hend with hcheapest | hbottomless
      · have hle := hcheapest.le y _ hy.relaxed
        rw [penalisedCost_feasible] at hle
        exact ⟨z, s, hcheapest.toRelaxed, hsum, hle⟩
      · obtain ⟨z', s', hrelaxed, hshortage, hcost⟩ :=
          hbottomless (direction.costOf (p.objective y))
        exact ⟨z', s', hrelaxed, lt_of_lt_of_le hsum hshortage, hcost.le⟩

theorem Verdict.infeasible_iff (h : p.Verdict direction .noSolution x) :
    p.Infeasible ↔ p.PenaltyDominates direction := by
  constructor
  · rintro hinfeasible ⟨y, hy⟩
    exact absurd hy (hinfeasible y)
  · intro hdominates y hy
    obtain ⟨best, hbest, hcheaper⟩ := hdominates ⟨y, hy⟩
    obtain ⟨z, s, hrelaxed, hshort, hle⟩ := h.exists_short_le hbest
    exact absurd (hcheaper z s hrelaxed hshort) (not_lt.mpr hle)

theorem Verdict.unbounded_iff (h : p.Verdict direction .unbounded x) :
    p.Unbounded direction ↔ p.ShortfallNeverPays direction := by
  cases h with
  | unbounded _ _ hbottomless =>
      constructor
      · intro hunbounded z s _ _
        obtain ⟨y, hy, hbetter⟩ :=
          hunbounded (direction.costOf (p.penalisedCost direction z s))
        rw [direction.better_iff, direction.costOf_costOf] at hbetter
        exact ⟨y, hy, hbetter.le⟩
      · intro hmatched bound
        obtain ⟨z, s, hrelaxed, hnonneg, hcost⟩ := hbottomless (direction.costOf bound)
        rcases hnonneg.eq_or_lt with hzero | hshort
        · rw [penalisedCost_of_sum_eq_zero hzero.symm] at hcost
          exact ⟨z, hrelaxed.feasible hzero.symm, (direction.better_iff _ _).mpr hcost⟩
        · obtain ⟨y, hy, hle⟩ := hmatched z s hrelaxed hshort
          exact ⟨y, hy, (direction.better_iff _ _).mpr (lt_of_le_of_lt hle hcost)⟩

end Program

namespace Engine

variable {e : Engine ℚ} {fuel : Nat} {direction : Direction}

/-- An engine without a tolerance and without a limit, for rows and costs. -/
def ideal (rows : List (Constraint ℚ)) (costs : List ℚ) : Engine ℚ :=
  ofProgram (.ofRows rows (costs.map fun cost => ⟨cost, none⟩)) ⟨none, 0⟩

theorem optimal_of_solution (hwf : e.program.WellFormed) (hexact : e.settings.tolerance = 0)
    (hok : (e.optimize fuel direction).1 = .ok .solution) :
    e.program.Optimal direction (e.optimize fuel direction).2.program.solution ∧
      (e.optimize fuel direction).2.program.objectiveValue
        = e.program.objective (e.optimize fuel direction).2.program.solution :=
  ⟨(verdict_of_optimize hwf hexact hok).optimal, objectiveValue_optimize hwf hok⟩

/-- `x + 2y` where `x + y = 3`, `-x ≤ -1` and `x ≤ 2`. -/
def mixedRows : Engine ℚ :=
  ideal [⟨[1, 1], .equal, 3, none⟩, ⟨[-1, 0], .lessEq, -1, none⟩, ⟨[1, 0], .lessEq, 2, none⟩] [1, 2]

theorem wellFormed_mixedRows : mixedRows.program.WellFormed :=
  ⟨by decide, by decide, by decide, by decide⟩

theorem optimal_mixedRows :
    (mixedRows.optimize 9 .minimize).1 = .ok .solution ∧
      (mixedRows.optimize 9 .minimize).2.program.solution = [2, 1] ∧
      mixedRows.program.Optimal .minimize [2, 1] := by
  have hok : (mixedRows.optimize 9 .minimize).1 = .ok .solution := by decide +kernel
  have hsolution : (mixedRows.optimize 9 .minimize).2.program.solution = [2, 1] := by
    decide +kernel
  have hoptimal := optimal_of_solution wellFormed_mixedRows rfl hok
  rw [hsolution] at hoptimal
  exact ⟨hok, hsolution, hoptimal.1⟩

/-- The stored point is feasible unless the answer is `noSolution`. So for an infeasible program this
is the only answer, and zeros are stored with it. -/
theorem feasible_of_status {status : Status} (hwf : e.program.WellFormed)
    (hexact : e.settings.tolerance = 0) (hok : (e.optimize fuel direction).1 = .ok status) :
    (status ≠ .noSolution →
        e.program.Feasible (e.optimize fuel direction).2.program.solution) ∧
      (e.program.Infeasible → status = .noSolution ∧
        (e.optimize fuel direction).2.program.solution = List.replicate e.program.width 0 ∧
        (e.optimize fuel direction).2.program.objectiveValue = 0) := by
  have hverdict := verdict_of_optimize hwf hexact hok
  refine ⟨hverdict.feasible, ?_⟩
  intro hinfeasible
  have hstatus : status = .noSolution := by
    by_contra hne
    exact hinfeasible _ (hverdict.feasible hne)
  subst hstatus
  have hzeros := hverdict.eq_zeros
  have hvalue := objectiveValue_optimize hwf hok
  rw [hzeros, e.program.objective_zeros] at hvalue
  exact ⟨rfl, hzeros, hvalue⟩

/-- `x` where `x ≤ 1` and `x ≥ 2`. -/
def contradictoryRows : Engine ℚ :=
  ideal [⟨[1], .lessEq, 1, none⟩, ⟨[1], .greaterEq, 2, none⟩] [1]

theorem wellFormed_contradictoryRows : contradictoryRows.program.WellFormed :=
  ⟨by decide, by decide, by decide, by decide⟩

theorem infeasible_contradictoryRows : contradictoryRows.program.Infeasible := by
  intro y hy
  have hle : Scalar.dot [1] y ≤ 1 := hy.satisfied ⟨[1], .lessEq, 1, none⟩ List.mem_cons_self
  have hge : 2 ≤ Scalar.dot [1] y :=
    hy.satisfied ⟨[1], .greaterEq, 2, none⟩ (List.mem_cons_of_mem _ List.mem_cons_self)
  linarith

theorem zeros_contradictoryRows :
    (contradictoryRows.optimize 9 .minimize).1 = .ok .noSolution ∧
      contradictoryRows.program.Infeasible ∧
      (contradictoryRows.optimize 9 .minimize).2.program.solution = [0] ∧
      (contradictoryRows.optimize 9 .minimize).2.program.objectiveValue = 0 := by
  have hok : (contradictoryRows.optimize 9 .minimize).1 = .ok .noSolution := by decide +kernel
  have hzeros := (feasible_of_status wellFormed_contradictoryRows rfl hok).2
    infeasible_contradictoryRows
  exact ⟨hok, infeasible_contradictoryRows, hzeros.2⟩

/-- The answer `noSolution` is right exactly where the penalty dominates. -/
theorem infeasible_iff_penaltyDominates (hwf : e.program.WellFormed)
    (hexact : e.settings.tolerance = 0)
    (hok : (e.optimize fuel direction).1 = .ok .noSolution) :
    e.program.Infeasible ↔ e.program.PenaltyDominates direction :=
  (verdict_of_optimize hwf hexact hok).infeasible_iff

theorem penaltyDominates_contradictoryRows :
    (contradictoryRows.optimize 9 .maximize).1 = .ok .noSolution ∧
      contradictoryRows.program.PenaltyDominates .maximize := by
  have hok : (contradictoryRows.optimize 9 .maximize).1 = .ok .noSolution := by decide +kernel
  exact ⟨hok, (infeasible_iff_penaltyDominates wellFormed_contradictoryRows rfl hok).mp
    infeasible_contradictoryRows⟩

/-- `x` where `x / 4 ≥ 1`. The penalty is two, so that to be short of the whole right side costs two
and the feasible point costs four. -/
def steepRow : Engine ℚ := ideal [⟨[1 / 4], .greaterEq, 1, none⟩] [1]

theorem noSolution_steepRow :
    steepRow.program.WellFormed ∧ steepRow.settings.tolerance = 0 ∧
      (steepRow.optimize 9 .minimize).1 = .ok .noSolution ∧ steepRow.program.Feasible [4] := by
  refine ⟨⟨by decide, by decide, by decide, by decide⟩, rfl, by decide +kernel, rfl, ?_, ?_⟩
  · intro v hv
    obtain rfl := List.mem_singleton.mp hv
    norm_num
  · intro r hr
    obtain rfl := List.mem_singleton.mp hr
    show 1 ≤ Scalar.dot [1 / 4] [4]
    decide +kernel

/-- The answer `unbounded` is right exactly where no shortfall pays. A feasible point exists anyway. -/
theorem unbounded_iff_shortfallNeverPays (hwf : e.program.WellFormed)
    (hexact : e.settings.tolerance = 0)
    (hok : (e.optimize fuel direction).1 = .ok .unbounded) :
    (∃ y, e.program.Feasible y) ∧
      (e.program.Unbounded direction ↔ e.program.ShortfallNeverPays direction) := by
  have hverdict := verdict_of_optimize hwf hexact hok
  exact ⟨⟨_, hverdict.feasible (by decide)⟩, hverdict.unbounded_iff⟩

def openRow : Engine ℚ := ideal [⟨[1, -1], .lessEq, 1, none⟩] [1, 0]

theorem unbounded_openRow :
    (openRow.optimize 9 .maximize).1 = .ok .unbounded ∧ openRow.program.Unbounded .maximize := by
  have hok : (openRow.optimize 9 .maximize).1 = .ok .unbounded := by decide +kernel
  have hwf : openRow.program.WellFormed := ⟨by decide, by decide, by decide, by decide⟩
  have hrows : ∀ r ∈ openRow.program.normalisedRows, r.relation = .lessEq := by decide +kernel
  exact ⟨hok, (unbounded_iff_shortfallNeverPays hwf rfl hok).2.mpr
    (Program.shortfallNeverPays_of_lessEq hrows .maximize)⟩

/-- `x` where `-x / 4 = 0`. Along the ray of `x` the row falls short by a quarter for each unit, at a
price of a half, and the objective gains one. -/
def shallowRow : Engine ℚ := ideal [⟨[-1 / 4], .equal, 0, none⟩] [1]

theorem unbounded_shallowRow :
    shallowRow.program.WellFormed ∧ shallowRow.settings.tolerance = 0 ∧
      (shallowRow.optimize 9 .maximize).1 = .ok .unbounded ∧
      ¬ shallowRow.program.Unbounded .maximize := by
  refine ⟨⟨by decide, by decide, by decide, by decide⟩, rfl, by decide +kernel, ?_⟩
  intro hunbounded
  obtain ⟨y, hy, hbetter⟩ := hunbounded 0
  have hrow : Scalar.dot [-1 / 4] y = 0 :=
    hy.satisfied ⟨[-1 / 4], .equal, 0, none⟩ List.mem_cons_self
  have hpositive : 0 < Scalar.dot [1] y := hbetter
  rw [dot_eq_weigh_listed, weigh_cons, weigh_nil] at hrow hpositive
  linarith

end Engine

end LinProg
