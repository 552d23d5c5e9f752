import LinProg.Proofs.Engine.Optimize

/-!
# One call of the pivot loop

A solve runs from the tableau that the engine holds, whether it is a start or was left behind by
earlier solves. If that tableau has a free column, then the answer is the one the run stands for,
and the engine holds the last tableau of the run afterwards.
-/

namespace LinProg

/-! ### The answers that a run can end with -/

namespace Tableau.Stop

theorem status?_eq_solution_iff {stop : Stop} :
    stop.status? = some .solution ↔ stop = .optimal := by
  cases stop <;> simp [status?]

theorem status?_eq_unbounded_iff {stop : Stop} :
    stop.status? = some .unbounded ↔ ∃ column, stop = .unbounded column := by
  cases stop <;> simp [status?]

theorem status?_ne_noSolution (stop : Stop) : stop.status? ≠ some .noSolution := by
  cases stop <;> simp [status?]

end Tableau.Stop

namespace Engine

variable {α : Type} [Scalar α]

/-- The run of an engine from the tableau that it holds. -/
def loop (fuel : Nat) (e : Engine α) : Tableau.Run α :=
  e.currentTableau.run e.settings.tolerance (e.settings.maxIterations.getD fuel)

theorem solve_program (fuel : Nat) (e : Engine α) : (e.solve fuel).2.program = e.program := by
  unfold solve
  dsimp only
  split <;> rfl

section Loop

variable {e : Engine α} (hfree : e.currentTableau.height < e.currentTableau.width) (fuel : Nat)

include hfree in
theorem solve_eq :
    e.solve fuel =
      ((match (e.loop fuel).stop.status? with
        | some status => .ok status
        | none => .error (e.cutShort fuel)),
        { e with
          tableau := some (e.loop fuel).final
          iterations := (e.loop fuel).exchanges.length }.record (e.loop fuel).events) := by
  unfold solve
  dsimp only
  rw [if_neg (Nat.not_le.mpr hfree)]
  rfl

include hfree in
theorem solve_tableau : (e.solve fuel).2.tableau = some (e.loop fuel).final := by
  rw [solve_eq hfree]
  rfl

include hfree in
theorem solve_settings : (e.solve fuel).2.settings = e.settings := by
  rw [solve_eq hfree]
  rfl

include hfree in
theorem solve_eq_ok_iff {status : Status} :
    (e.solve fuel).1 = .ok status ↔ (e.loop fuel).stop.status? = some status := by
  rw [solve_eq hfree]
  cases (e.loop fuel).stop.status? with
  | none => simp
  | some found => simp

include hfree in
theorem ne_noSolution_of_solve {status : Status} (hok : (e.solve fuel).1 = .ok status) :
    status ≠ .noSolution := by
  rintro rfl
  exact (e.loop fuel).stop.status?_ne_noSolution ((solve_eq_ok_iff hfree fuel).mp hok)

end Loop

end Engine

end LinProg
