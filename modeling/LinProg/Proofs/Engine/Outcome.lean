import LinProg.Proofs.Engine.Optimize

/-!
# All that is left after a call

What `optimize` answers and leaves behind is read off the run from the start of the program: the
answer, the count of pivots, the last tableau and the stored point. Two engines whose runs are the
same are therefore the same to a caller, up to the labels and the costs of their programs.
-/

namespace LinProg.Engine

variable {α : Type} [Scalar α]

/-- The answer that a fresh run stands for. -/
def answer (fuel : Nat) (e : Engine α) (direction : Direction) : Except Error Status :=
  match (e.freshRun fuel direction).stop.status? with
  | none => .error (e.cutShort fuel)
  | some found =>
    .ok (if (e.freshRun fuel direction).final.hasPositiveArtificial e.settings.tolerance
      then .noSolution else found)

/-- The point that is stored with an answer. -/
def storedPoint (fuel : Nat) (e : Engine α) (direction : Direction) : List α :=
  match e.answer fuel direction with
  | .ok .solution | .ok .unbounded =>
    (e.freshRun fuel direction).final.decisionValues e.program.width
  | _ => List.replicate e.program.width 0

theorem length_decisionValues (t : Tableau α) (count : Nat) :
    (t.decisionValues count).length = count := by
  unfold Tableau.decisionValues
  have hstart : (List.replicate count (0 : α)).length = count := List.length_replicate
  generalize List.replicate count (0 : α) = x at hstart
  induction t.equations generalizing x with
  | nil => exact hstart
  | cons e equations ih =>
      apply ih
      dsimp only
      split
      · rwa [List.length_set]
      · exact hstart

theorem length_storedPoint (fuel : Nat) (e : Engine α) (direction : Direction) :
    (e.storedPoint fuel direction).length = e.program.width := by
  unfold storedPoint
  split
  · exact length_decisionValues _ _
  · exact length_decisionValues _ _
  · exact List.length_replicate

section Outcome

variable {e : Engine α} (hwf : e.program.WellFormed) (fuel : Nat) (direction : Direction)

include hwf in
theorem optimize_eq : e.optimize fuel direction =
    (e.answer fuel direction, match e.answer fuel direction with
      | .error _ => e.afterRun fuel direction
      | .ok status => ((e.afterRun fuel direction).record
          [.classified status (e.freshRun fuel direction).exchanges.length]).extract status) := by
  unfold answer
  cases hstop : (e.freshRun fuel direction).stop.status? with
  | none => exact optimize_of_error (solve_fresh_of_none hwf hstop)
  | some found =>
      have htableau : (e.afterRun fuel direction).tableau
          = some (e.freshRun fuel direction).final := rfl
      have hclassify := classify_eq htableau (shaped_freshRun hwf fuel direction) found
      rw [optimize_of_ok (solve_fresh_of_some hwf hstop), hclassify]
      rfl

include hwf in
theorem optimize_answer : (e.optimize fuel direction).1 = e.answer fuel direction := by
  rw [optimize_eq hwf]

theorem iterations_extract (e : Engine α) (status : Status) :
    (e.extract status).iterations = e.iterations := by
  unfold extract
  split
  · rfl
  · split <;> rfl

include hwf in
theorem optimize_tableau :
    (e.optimize fuel direction).2.tableau = some (e.freshRun fuel direction).final := by
  rw [optimize_eq hwf]
  cases e.answer fuel direction with
  | error _ => rfl
  | ok status => exact tableau_extract _ status

include hwf in
theorem optimize_iterations :
    (e.optimize fuel direction).2.iterations = (e.freshRun fuel direction).exchanges.length := by
  rw [optimize_eq hwf]
  cases e.answer fuel direction with
  | error _ => rfl
  | ok status => exact iterations_extract _ status

include hwf in
/-- The program keeps all but its results and its direction. Without an answer, or with `noSolution`,
the results are zeros and not the product of costs and zeros. -/
theorem optimize_program :
    (e.optimize fuel direction).2.program =
      match e.answer fuel direction with
      | .ok .solution | .ok .unbounded =>
        { e.program with direction }.storeSolution (e.storedPoint fuel direction)
      | _ => { e.program with direction }.clearSolution := by
  unfold storedPoint
  rw [optimize_eq hwf]
  cases e.answer fuel direction with
  | error _ => rfl
  | ok status => cases status <;> rfl

include hwf in
theorem optimize_solution :
    (e.optimize fuel direction).2.program.solution = e.storedPoint fuel direction := by
  rw [optimize_program hwf]
  unfold storedPoint
  cases e.answer fuel direction with
  | error _ => rfl
  | ok status => cases status <;> rfl

end Outcome

/-- What a caller sees of two calls of `optimize`, the objective values apart. -/
structure SameOutcome (r r' : Except Error Status × Engine α) : Prop where
  answer_eq : r'.1 = r.1
  iterations_eq : r'.2.iterations = r.2.iterations
  tableau_eq : r'.2.tableau = r.2.tableau
  solution_eq : r'.2.program.solution = r.2.program.solution

section Same

variable {e e' : Engine α} {fuel : Nat} {direction direction' : Direction}

theorem answer_eq_of_freshRun_eq (hsettings : e'.settings = e.settings)
    (hrun : e'.freshRun fuel direction' = e.freshRun fuel direction) :
    e'.answer fuel direction' = e.answer fuel direction := by
  unfold answer cutShort
  rw [hrun, hsettings]

theorem storedPoint_eq_of_freshRun_eq (hwidth : e'.program.width = e.program.width)
    (hsettings : e'.settings = e.settings)
    (hrun : e'.freshRun fuel direction' = e.freshRun fuel direction) :
    e'.storedPoint fuel direction' = e.storedPoint fuel direction := by
  unfold storedPoint
  rw [answer_eq_of_freshRun_eq hsettings hrun, hrun, hwidth]

theorem sameOutcome_of_freshRun_eq (hwf : e.program.WellFormed) (hwf' : e'.program.WellFormed)
    (hwidth : e'.program.width = e.program.width) (hsettings : e'.settings = e.settings)
    (hrun : e'.freshRun fuel direction' = e.freshRun fuel direction) :
    SameOutcome (e.optimize fuel direction) (e'.optimize fuel direction') where
  answer_eq := by
    rw [optimize_answer hwf, optimize_answer hwf', answer_eq_of_freshRun_eq hsettings hrun]
  iterations_eq := by rw [optimize_iterations hwf, optimize_iterations hwf', hrun]
  tableau_eq := by rw [optimize_tableau hwf, optimize_tableau hwf', hrun]
  solution_eq := by
    rw [optimize_solution hwf, optimize_solution hwf',
      storedPoint_eq_of_freshRun_eq hwidth hsettings hrun]

end Same

end LinProg.Engine
