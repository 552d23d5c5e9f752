import LinProg.Proofs.Engine.Soundness
import LinProg.Proofs.Program.Reorder

/-!
# Answers in another order of the variables

Ties between columns go to the first one, so a program and the same program with its columns in
another order can go through different tableaux. Both answers are statements on the same relaxed
program all the same. A cheapest relaxed point excludes a cost that falls forever, so `solution` and
`unbounded` never stand for the same program, and two solutions cost the same.

Only `noSolution` depends on the order: it stands where the run has ended at a point that falls
short. Such a point can cost as little as the best feasible one if `M` is too small.
-/

namespace LinProg

namespace Program

variable {p : Program ℚ} {direction : Direction} {status status' : Status} {x x' s : List ℚ}

/-! ### Two answers to one program -/

theorem Cheapest.not_bottomless (h : p.Cheapest direction x s) (shortage : ℚ) :
    ¬ p.Bottomless direction shortage := by
  intro hbottomless
  obtain ⟨y, t, hrelaxed, -, hlt⟩ := hbottomless (p.penalisedCost direction x s)
  exact absurd (h.le y t hrelaxed) (not_le.mpr hlt)

theorem Verdict.status_eq (h : p.Verdict direction status x) (h' : p.Verdict direction status' x')
    (hboth : status = .noSolution ↔ status' = .noSolution) : status = status' := by
  cases h with
  | solution hcheapest _ =>
      cases h' with
      | solution _ _ => rfl
      | unbounded _ _ hbottomless => exact absurd hbottomless (hcheapest.not_bottomless 0)
      | noSolution _ _ => exact hboth.mpr rfl
  | unbounded _ _ hbottomless =>
      cases h' with
      | solution hcheapest _ => exact absurd hbottomless (hcheapest.not_bottomless 0)
      | unbounded _ _ _ => rfl
      | noSolution _ _ => exact hboth.mpr rfl
  | noSolution _ _ => exact (hboth.mp rfl).symm

theorem Optimal.objective_eq (h : p.Optimal direction x) (h' : p.Optimal direction x') :
    p.objective x = p.objective x' := by
  have hle := (direction.noWorse_iff _ _).mp (h.noWorse x' h'.toFeasible)
  have hge := (direction.noWorse_iff _ _).mp (h'.noWorse x h.toFeasible)
  rw [← direction.costOf_costOf (p.objective x), le_antisymm hle hge, direction.costOf_costOf]

/-- If one answer is `noSolution` and rightly so, then no other answer has a feasible point to give. -/
theorem Verdict.noSolution_of_penaltyDominates (h : p.Verdict direction .noSolution x)
    (h' : p.Verdict direction status' x') (hdominates : p.PenaltyDominates direction) :
    status' = .noSolution := by
  by_contra hne
  exact h.infeasible_iff.mpr hdominates x' (h'.feasible hne)

/-! ### The answer to a reordered program -/

section Reorder

variable {order : List Nat} (hwf : p.WellFormed) (horder : order.Perm (List.range p.width))

include hwf horder in
theorem Cheapest.of_reorder (hlength : x.length = p.width)
    (h : (p.reorder order).Cheapest direction (pick order x) s) : p.Cheapest direction x s where
  toRelaxed := (relaxed_reorder_iff hwf horder hlength).mp h.toRelaxed
  le := by
    intro y t hy
    have hle := h.le _ t ((relaxed_reorder_iff hwf horder hy.length_eq).mpr hy)
    rwa [penalisedCost_reorder hwf horder direction hlength,
      penalisedCost_reorder hwf horder direction hy.length_eq] at hle

include hwf horder in
theorem Bottomless.of_reorder {shortage : ℚ} (h : (p.reorder order).Bottomless direction shortage) :
    p.Bottomless direction shortage := by
  intro bound
  obtain ⟨y, t, hrelaxed, hshortage, hcost⟩ := h bound
  obtain ⟨x, hx, rfl⟩ := exists_relaxed_of_reorder hwf horder hrelaxed
  rw [penalisedCost_reorder hwf horder direction hx.length_eq] at hcost
  exact ⟨x, t, hx, hshortage, hcost⟩

include hwf horder in
theorem Verdict.of_reorder {y : List ℚ} (h : (p.reorder order).Verdict direction status y) :
    ∃ x, x.length = p.width ∧ pick order x = y ∧ p.Verdict direction status x := by
  cases h with
  | solution hcheapest hsum =>
      obtain ⟨x, hx, rfl⟩ := exists_relaxed_of_reorder hwf horder hcheapest.toRelaxed
      exact ⟨x, hx.length_eq, rfl, .solution (hcheapest.of_reorder hwf horder hx.length_eq) hsum⟩
  | unbounded hrelaxed hsum hbottomless =>
      obtain ⟨x, hx, rfl⟩ := exists_relaxed_of_reorder hwf horder hrelaxed
      exact ⟨x, hx.length_eq, rfl, .unbounded hx hsum (hbottomless.of_reorder hwf horder)⟩
  | @noSolution y s hsum hend =>
      have hend' : ∃ x, p.Cheapest direction x s ∨ p.Bottomless direction s.sum := by
        rcases hend with hcheapest | hbottomless
        · obtain ⟨x, hx, rfl⟩ := exists_relaxed_of_reorder hwf horder hcheapest.toRelaxed
          exact ⟨x, .inl (hcheapest.of_reorder hwf horder hx.length_eq)⟩
        · exact ⟨[], .inr (hbottomless.of_reorder hwf horder)⟩
      obtain ⟨x, hx⟩ := hend'
      have hzeros : pick order (List.replicate p.width (0 : ℚ))
          = List.replicate (p.reorder order).width 0 := by
        rw [width_reorder horder]
        exact pick_replicate horder 0
      exact ⟨_, List.length_replicate, hzeros, .noSolution hsum hx⟩

end Reorder

theorem WellFormed.reorder {order : List Nat} (hwf : p.WellFormed)
    (horder : order.Perm (List.range p.width)) : (p.reorder order).WellFormed := by
  have hheight : (p.reorder order).height = p.height := List.length_map _
  have hwidth := width_reorder horder
  refine ⟨?_, ?_, ?_, ?_⟩
  · rw [hheight]
    exact hwf.height_pos
  · rw [hwidth]
    exact hwf.width_pos
  · intro r hr
    obtain ⟨r, hmem, rfl⟩ := List.mem_map.mp hr
    rw [hwidth]
    exact length_pick horder (hwf.row_length r hmem)
  · rw [hwidth]
    exact hwf.solution_length

end Program

namespace Engine

variable {e e' : Engine ℚ} {fuel fuel' : Nat} {direction : Direction} {status status' : Status}

/-- Two answers to a program, the second one with its columns in another order, differ only if just
one of them is `noSolution`. They never do where the penalty dominates, and two solutions have the
same objective value in any case. -/
theorem status_reorder {order : List Nat} (hwf : e.program.WellFormed)
    (horder : order.Perm (List.range e.program.width))
    (hprogram : e'.program = e.program.reorder order) (hexact : e.settings.tolerance = 0)
    (hexact' : e'.settings.tolerance = 0) (hok : (e.optimize fuel direction).1 = .ok status)
    (hok' : (e'.optimize fuel' direction).1 = .ok status') :
    (status = status' ↔ (status = .noSolution ↔ status' = .noSolution)) ∧
      ((status = .noSolution ∨ status' = .noSolution → e.program.PenaltyDominates direction) →
        status = status') ∧
      (status = .solution → status' = .solution →
        (e.optimize fuel direction).2.program.objectiveValue
          = (e'.optimize fuel' direction).2.program.objectiveValue) := by
  have hwf' : e'.program.WellFormed := by
    rw [hprogram]
    exact hwf.reorder horder
  have hverdict := verdict_of_optimize hwf hexact hok
  have hreordered := verdict_of_optimize hwf' hexact' hok'
  rw [hprogram] at hreordered
  obtain ⟨x, hx, hpick, hverdict'⟩ := hreordered.of_reorder hwf horder
  refine ⟨⟨?_, hverdict.status_eq hverdict'⟩, ?_, ?_⟩
  · rintro rfl
    exact Iff.rfl
  · intro hdominates
    apply hverdict.status_eq hverdict'
    constructor
    · rintro rfl
      exact hverdict.noSolution_of_penaltyDominates hverdict' (hdominates (.inl rfl))
    · rintro rfl
      exact hverdict'.noSolution_of_penaltyDominates hverdict (hdominates (.inr rfl))
  · rintro rfl rfl
    rw [objectiveValue_optimize hwf hok, objectiveValue_optimize hwf' hok', hprogram, ← hpick,
      Program.objective_reorder horder hx]
    exact hverdict.optimal.objective_eq hverdict'.optimal

def reordered (e : Engine ℚ) (order : List Nat) : Engine ℚ :=
  { e with program := e.program.reorder order }

/-- `x + y` where `x + y ≤ 3`. The first column enters, so the two orders end at different points. -/
def evenCosts : Engine ℚ := ideal [⟨[1, 1], .lessEq, 3, none⟩] [1, 1]

theorem status_evenCosts :
    [1, 0].Perm (List.range evenCosts.program.width) ∧
      (evenCosts.optimize 9 .maximize).1 = .ok .solution ∧
      (evenCosts.optimize 9 .maximize).2.program.solution = [3, 0] ∧
      ((evenCosts.reordered [1, 0]).optimize 9 .maximize).1 = .ok .solution ∧
      ((evenCosts.reordered [1, 0]).optimize 9 .maximize).2.program.solution = pick [1, 0] [0, 3] ∧
      (evenCosts.optimize 9 .maximize).2.program.objectiveValue
        = ((evenCosts.reordered [1, 0]).optimize 9 .maximize).2.program.objectiveValue := by
  have hwf : evenCosts.program.WellFormed := ⟨by decide, by decide, by decide, by decide⟩
  have horder : [1, 0].Perm (List.range evenCosts.program.width) := by decide
  have hok : (evenCosts.optimize 9 .maximize).1 = .ok .solution := by decide +kernel
  have hok' : ((evenCosts.reordered [1, 0]).optimize 9 .maximize).1 = .ok .solution := by
    decide +kernel
  obtain ⟨-, -, hvalue⟩ := status_reorder hwf horder rfl rfl rfl hok hok'
  exact ⟨horder, hok, by decide +kernel, hok', by decide +kernel, hvalue rfl rfl⟩

/-- `x` where `x + y / 2 ≥ 1` and `x + y ≤ 1`. A unit of `x` and a unit of `y` look equally good at
`M = 2`, and so do `x = 1` and `y = 1` with half a unit missing. -/
def evenTrade : Engine ℚ :=
  ideal [⟨[1, 1 / 2], .greaterEq, 1, none⟩, ⟨[1, 1], .lessEq, 1, none⟩] [1, 0]

theorem status_evenTrade :
    evenTrade.program.WellFormed ∧ evenTrade.settings.tolerance = 0 ∧
      [1, 0].Perm (List.range evenTrade.program.width) ∧
      (evenTrade.optimize 9 .minimize).1 = .ok .solution ∧
      ((evenTrade.reordered [1, 0]).optimize 9 .minimize).1 = .ok .noSolution :=
  ⟨⟨by decide, by decide, by decide, by decide⟩, rfl, by decide, by decide +kernel,
    by decide +kernel⟩

end Engine

end LinProg
