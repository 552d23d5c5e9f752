import LinProg.Proofs.Engine.Optimize
import LinProg.Proofs.Tableau.Relaxation

/-!
# What an answer vouches for

In exact arithmetic and without a tolerance, every answer is a statement on the relaxed program. A
run ends at a relaxed point that is the cheapest one, or from which the cost falls forever, and the
answer is `noSolution` exactly if the rows fall short there.

A cheapest relaxed point that does not fall short is an optimum of the program, whatever `M` is. The
other two answers compare feasible points with points that fall short, so they depend on `M`, which
is twice the largest number in the program. That is not always enough: a row `x / 4 ≥ 1` takes four
units of `x` to save one unit of shortfall.
-/

namespace LinProg

namespace Program

/-- No relaxed point costs less. -/
structure Cheapest (p : Program ℚ) (direction : Direction) (x shortfalls : List ℚ) : Prop
    extends p.Relaxed x shortfalls where
  le : ∀ y s, p.Relaxed y s →
    p.penalisedCost direction x shortfalls ≤ p.penalisedCost direction y s

/-- There are relaxed points below every cost that fall short by the given amount or more. -/
def Bottomless (p : Program ℚ) (direction : Direction) (shortage : ℚ) : Prop :=
  ∀ bound, ∃ y s, p.Relaxed y s ∧ shortage ≤ s.sum ∧ p.penalisedCost direction y s < bound

/-- What an answer and the stored point say of the relaxed program. -/
inductive Verdict (p : Program ℚ) (direction : Direction) : Status → List ℚ → Prop
  | solution {x s : List ℚ} (hcheapest : p.Cheapest direction x s) (hsum : s.sum = 0) :
      Verdict p direction .solution x
  | unbounded {x s : List ℚ} (hrelaxed : p.Relaxed x s) (hsum : s.sum = 0)
      (hbottomless : p.Bottomless direction 0) : Verdict p direction .unbounded x
  | noSolution {x s : List ℚ} (hsum : 0 < s.sum)
      (hend : p.Cheapest direction x s ∨ p.Bottomless direction s.sum) :
      Verdict p direction .noSolution (List.replicate p.width 0)

end Program

namespace Tableau

variable {p : Program ℚ} {direction : Direction} {t : Tableau ℚ}

theorem relaxed_vertex (hwf : p.WellFormed) (h : (augment p direction).Reached t) :
    p.Relaxed (firstValues p.width t.vertex) (shortfallsAt p t.vertex) :=
  relaxed_of_solves hwf h.vertex_nonneg h.solves_vertex

theorem sum_shortfalls_vertex_pos_iff (h : (augment p direction).Reached t) :
    0 < (shortfallsAt p t.vertex).sum ↔ t.hasPositiveArtificial 0 = true := by
  rw [← shortage_augment p direction]
  exact h.shortage_vertex_pos_iff

theorem cheapest_vertex (hwf : p.WellFormed) (h : (augment p direction).Reached t)
    (hoptimal : t.choose 0 = .optimal) :
    p.Cheapest direction (firstValues p.width t.vertex) (shortfallsAt p t.vertex) where
  toRelaxed := relaxed_vertex hwf h
  le := by
    intro y s hys
    obtain ⟨z, hsolves, hz, rfl, rfl⟩ := exists_solves_of_relaxed hwf direction hys
    have hle := h.cost_vertex_le hoptimal hsolves hz
    rw [weigh_cost_augment hwf hsolves, weigh_cost_augment hwf h.solves_vertex] at hle
    linarith

theorem bottomless_vertex (hwf : p.WellFormed) (h : (augment p direction).Reached t) {column : Nat}
    (hunbounded : t.choose 0 = .unbounded column) :
    p.Bottomless direction (shortfallsAt p t.vertex).sum := by
  intro bound
  obtain ⟨z, hsolves, hz, hcost, hshortage⟩ := h.exists_cost_lt hunbounded
    (bound - takenOut (bigMOf p.normalisedRows p.costs) p.normalisedRows)
  rw [shortage_augment, shortage_augment] at hshortage
  rw [weigh_cost_augment hwf hsolves] at hcost
  exact ⟨_, _, relaxed_of_solves hwf hz hsolves, hshortage, by linarith⟩

theorem decisionValues_of_derived (h : (augment p direction).Derived t) :
    t.decisionValues p.width = firstValues p.width t.vertex := by
  have hvalues := decisionValues_eq_firstValues h.shaped h.canonical
  have hcount : t.decisionCount = p.width := h.decisionCount_eq
  rwa [hcount] at hvalues

end Tableau

namespace Engine

variable {e : Engine ℚ} {fuel : Nat} {direction : Direction} {status : Status}

theorem reached_freshRun (hwf : e.program.WellFormed) (hexact : e.settings.tolerance = 0)
    (fuel : Nat) (direction : Direction) :
    (Tableau.augment e.program direction).Reached (e.freshRun fuel direction).final := by
  unfold freshRun
  rw [hexact]
  exact (Tableau.reached_augment hwf direction).run _

theorem decisionValues_freshRun (hwf : e.program.WellFormed)
    (hexact : e.settings.tolerance = 0) (fuel : Nat) (direction : Direction) :
    (e.freshRun fuel direction).final.decisionValues e.program.width
      = firstValues e.program.width (e.freshRun fuel direction).final.vertex :=
  Tableau.decisionValues_of_derived (reached_freshRun hwf hexact fuel direction).toDerived

/-- The two ways in which a run ends by itself. -/
theorem cheapest_or_bottomless (hwf : e.program.WellFormed) (hexact : e.settings.tolerance = 0)
    {found : Status} (hfound : (e.freshRun fuel direction).stop.status? = some found) :
    let z := (e.freshRun fuel direction).final.vertex
    let s := Tableau.shortfallsAt e.program z
    (found = .solution ∧ e.program.Cheapest direction (firstValues e.program.width z) s) ∨
      (found = .unbounded ∧ e.program.Bottomless direction s.sum) := by
  intro z s
  have hreached := reached_freshRun hwf hexact fuel direction
  obtain ⟨hoptimal, hunbounded⟩ := Tableau.choose_final e.settings.tolerance
    (e.settings.maxIterations.getD fuel) (Tableau.augment e.program direction)
  cases hstop : (e.freshRun fuel direction).stop with
  | optimal =>
      rw [hstop] at hfound
      have hchoose : (e.freshRun fuel direction).final.choose e.settings.tolerance = .optimal :=
        hoptimal hstop
      rw [hexact] at hchoose
      exact .inl ⟨(Option.some.inj hfound).symm, Tableau.cheapest_vertex hwf hreached hchoose⟩
  | unbounded column =>
      rw [hstop] at hfound
      have hchoose : (e.freshRun fuel direction).final.choose e.settings.tolerance
          = .unbounded column := hunbounded column hstop
      rw [hexact] at hchoose
      exact .inr ⟨(Option.some.inj hfound).symm, Tableau.bottomless_vertex hwf hreached hchoose⟩
  | truncated =>
      rw [hstop] at hfound
      cases hfound

theorem verdict_of_optimize (hwf : e.program.WellFormed) (hexact : e.settings.tolerance = 0)
    (hok : (e.optimize fuel direction).1 = .ok status) :
    e.program.Verdict direction status (e.optimize fuel direction).2.program.solution := by
  obtain ⟨found, hfound, hstatus, hprogram⟩ := optimize_ok hwf hok
  have hreached := reached_freshRun hwf hexact fuel direction
  have hrelaxed := Tableau.relaxed_vertex hwf hreached
  have hsum := Tableau.sum_shortfalls_vertex_pos_iff hreached
  have hend := cheapest_or_bottomless hwf hexact hfound
  rw [hexact] at hstatus
  rw [hprogram]
  by_cases hpositive : (e.freshRun fuel direction).final.hasPositiveArtificial 0 = true
  · rw [if_pos hpositive] at hstatus
    subst hstatus
    exact .noSolution (hsum.mpr hpositive) (hend.imp And.right And.right)
  · rw [if_neg hpositive] at hstatus
    subst hstatus
    have hzero : (Tableau.shortfallsAt e.program
        (e.freshRun fuel direction).final.vertex).sum = 0 :=
      le_antisymm (not_lt.mp (mt hsum.mp hpositive)) (List.sum_nonneg hrelaxed.shortfall_nonneg)
    rcases hend with ⟨rfl, hcheapest⟩ | ⟨rfl, hbottomless⟩
    · rw [if_neg (by decide)]
      show e.program.Verdict direction .solution
        ((e.freshRun fuel direction).final.decisionValues e.program.width)
      rw [decisionValues_freshRun hwf hexact]
      exact .solution hcheapest hzero
    · rw [if_neg (by decide)]
      show e.program.Verdict direction .unbounded
        ((e.freshRun fuel direction).final.decisionValues e.program.width)
      rw [decisionValues_freshRun hwf hexact]
      exact .unbounded hrelaxed hzero (hzero ▸ hbottomless)

/-- The stored objective value is the one of the stored point, also where the two are zeros. -/
theorem objectiveValue_optimize (hwf : e.program.WellFormed)
    (hok : (e.optimize fuel direction).1 = .ok status) :
    (e.optimize fuel direction).2.program.objectiveValue
      = e.program.objective (e.optimize fuel direction).2.program.solution := by
  obtain ⟨found, -, -, hprogram⟩ := optimize_ok hwf hok
  rw [hprogram]
  split
  · exact e.program.objective_zeros.symm
  · rfl

end Engine

end LinProg
