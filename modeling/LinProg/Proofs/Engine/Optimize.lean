import LinProg.Proofs.Tableau.Run

/-!
# One solve, end to end

An engine that optimizes runs from the start of its program. Its answer depends on how the run ends
and on whether an artificial variable is left above the tolerance, and it stores the basic solution
of the last tableau unless it has found that there is none.
-/

namespace LinProg

namespace Tableau

variable {α : Type} [Scalar α]

theorem Shaped.run {t : Tableau α} (h : t.Shaped) (tolerance : α) (limit : Nat) :
    (run tolerance limit t).final.Shaped := by
  have hsteps := steps_run tolerance limit t
  generalize (Tableau.run tolerance limit t).final = last at hsteps
  induction hsteps with
  | refl => exact h
  | tail _ hstep ih =>
      obtain ⟨row, column, -, rfl⟩ := hstep
      exact ih.pivot row column

theorem Shaped.count_pos_of_hasPositiveArtificial {t : Tableau α} (h : t.Shaped) {tolerance : α}
    (hpositive : t.hasPositiveArtificial tolerance = true) : 0 < t.artificialCount := by
  obtain ⟨e, he, hartificial⟩ := List.any_eq_true.mp hpositive
  exact h.count_pos_iff.mpr ⟨e, he, (Bool.and_eq_true_iff.mp hartificial).1⟩

end Tableau

namespace Engine

variable {α : Type} [Scalar α]

/-- The run of an engine that starts anew. -/
def freshRun (fuel : Nat) (e : Engine α) (direction : Direction) : Tableau.Run α :=
  (Tableau.augment e.program direction).run e.settings.tolerance (e.settings.maxIterations.getD fuel)

def fresh (e : Engine α) (direction : Direction) : Engine α :=
  { e with program := { e.program with direction } }.setup direction

theorem shaped_freshRun {e : Engine α} (hwf : e.program.WellFormed) (fuel : Nat)
    (direction : Direction) : (e.freshRun fuel direction).final.Shaped :=
  (Tableau.shaped_augment hwf direction).run _ _

def afterRun (fuel : Nat) (e : Engine α) (direction : Direction) : Engine α :=
  { e.fresh direction with
    tableau := some (e.freshRun fuel direction).final
    iterations := (e.freshRun fuel direction).exchanges.length }.record
      (e.freshRun fuel direction).events

/-- The guard against a tableau without a free column never applies to a fresh start. -/
theorem not_width_le_height_augment {p : Program α} (hwf : p.WellFormed) (direction : Direction) :
    ¬ (Tableau.augment p direction).width ≤ (Tableau.augment p direction).height := by
  have hlt := (Tableau.shaped_augment hwf direction).height_lt_width
  omega

theorem currentTableau_fresh (e : Engine α) (direction : Direction) :
    (e.fresh direction).currentTableau = Tableau.augment e.program direction := rfl

theorem run_fresh (fuel : Nat) (e : Engine α) (direction : Direction) :
    (Tableau.augment e.program direction).run (e.fresh direction).settings.tolerance
      ((e.fresh direction).settings.maxIterations.getD fuel) = e.freshRun fuel direction := rfl

section Fresh

variable {e : Engine α} (hwf : e.program.WellFormed) {fuel : Nat} {direction : Direction}

include hwf in
theorem solve_fresh_of_some {found : Status}
    (hfound : (e.freshRun fuel direction).stop.status? = some found) :
    (e.fresh direction).solve fuel = (.ok found, e.afterRun fuel direction) := by
  unfold solve
  rw [currentTableau_fresh]
  dsimp only
  rw [if_neg (not_width_le_height_augment hwf direction), run_fresh, hfound]
  rfl

include hwf in
theorem solve_fresh_of_none (hcut : (e.freshRun fuel direction).stop.status? = none) :
    (e.fresh direction).solve fuel = (.error (e.cutShort fuel), e.afterRun fuel direction) := by
  unfold solve
  rw [currentTableau_fresh]
  dsimp only
  rw [if_neg (not_width_le_height_augment hwf direction), run_fresh, hcut]
  rfl

end Fresh

theorem classify_eq {e : Engine α} {t : Tableau α} (htableau : e.tableau = some t)
    (hshaped : t.Shaped) (status : Status) :
    e.classify status
      = if t.hasPositiveArtificial e.settings.tolerance then .noSolution else status := by
  unfold classify
  rw [htableau]
  by_cases hpositive : t.hasPositiveArtificial e.settings.tolerance = true
  · have hcount := hshaped.count_pos_of_hasPositiveArtificial hpositive
    by_cases hstatus : status = .noSolution
    · simp [hstatus]
    · simp [hstatus, hpositive, hcount]
  · simp [hpositive]

theorem optimize_of_ok {e after : Engine α} {fuel : Nat} {direction : Direction} {found : Status}
    (hsolve : (e.fresh direction).solve fuel = (.ok found, after)) :
    e.optimize fuel direction = (.ok (after.classify found),
      (after.record [.classified (after.classify found) after.iterations]).extract
        (after.classify found)) := by
  unfold fresh at hsolve
  unfold optimize
  dsimp only
  rw [hsolve]

theorem optimize_of_error {e after : Engine α} {fuel : Nat} {direction : Direction} {error : Error}
    (hsolve : (e.fresh direction).solve fuel = (.error error, after)) :
    e.optimize fuel direction = (.error error, after) := by
  unfold fresh at hsolve
  unfold optimize
  dsimp only
  rw [hsolve]

theorem tableau_extract (e : Engine α) (status : Status) : (e.extract status).tableau = e.tableau := by
  unfold extract
  split
  · rfl
  · split <;> rfl

/-- What an engine answers and stores, if the run was not cut short. -/
theorem optimize_ok {e : Engine α} (hwf : e.program.WellFormed) {fuel : Nat}
    {direction : Direction} {status : Status} (hok : (e.optimize fuel direction).1 = .ok status) :
    ∃ found, (e.freshRun fuel direction).stop.status? = some found ∧
      status = (if (e.freshRun fuel direction).final.hasPositiveArtificial e.settings.tolerance
        then .noSolution else found) ∧
      (e.optimize fuel direction).2.program = if status = .noSolution
        then { e.program with direction }.clearSolution
        else { e.program with direction }.storeSolution
          ((e.freshRun fuel direction).final.decisionValues e.program.width) := by
  cases hstop : (e.freshRun fuel direction).stop.status? with
  | none =>
      rw [optimize_of_error (solve_fresh_of_none hwf hstop)] at hok
      cases hok
  | some found =>
      have htableau : (e.afterRun fuel direction).tableau
          = some (e.freshRun fuel direction).final := rfl
      have hclassify := classify_eq htableau (shaped_freshRun hwf fuel direction) found
      have hoptimize := optimize_of_ok (solve_fresh_of_some hwf hstop)
      rw [hclassify] at hoptimize
      rw [hoptimize] at hok
      refine ⟨found, rfl, (Except.ok.inj hok).symm, ?_⟩
      rw [hoptimize, Except.ok.inj hok]
      unfold extract
      split
      · rfl
      · rfl

/-- The tableau that the run has ended at stays in the engine. -/
theorem tableau_optimize {e : Engine α} (hwf : e.program.WellFormed) {fuel : Nat}
    {direction : Direction} {status : Status} (hok : (e.optimize fuel direction).1 = .ok status) :
    (e.optimize fuel direction).2.tableau = some (e.freshRun fuel direction).final := by
  cases hstop : (e.freshRun fuel direction).stop.status? with
  | none =>
      rw [optimize_of_error (solve_fresh_of_none hwf hstop)] at hok
      cases hok
  | some found =>
      rw [optimize_of_ok (solve_fresh_of_some hwf hstop), tableau_extract]
      rfl

end Engine

end LinProg
