import LinProg.Proofs.Engine.Outcome
import LinProg.Proofs.Engine.Solve
import LinProg.Proofs.Program.Operations
import LinProg.Proofs.Tableau.Basis

/-!
# An engine forgets its history

What `optimize` answers and stores depends on the numbers and relations of the program and on the
settings alone. The start is built without the labels, the direction and the stored results, and the
tableau and the count of pivots that earlier calls have left in the engine are overwritten before
they are read. No call changes more of the program than its direction and its results.
-/

namespace LinProg

namespace Program

variable {α : Type}

/-- The two programs pose the same problem in the same columns. -/
structure SameData (p q : Program α) : Prop where
  coefficients_eq : q.coefficients = p.coefficients
  rhs_eq : q.rhs = p.rhs
  relations_eq : q.relations = p.relations
  costs_eq : q.costs = p.costs

/-- The second program is the first one, but for its direction and its results. -/
def Keeps (p q : Program α) : Prop :=
  q = { p with
    direction := q.direction, solution := q.solution, objectiveValue := q.objectiveValue }

variable {p p' q q' : Program α}

theorem Keeps.refl (p : Program α) : p.Keeps p := rfl

theorem Keeps.trans {r : Program α} (hq : p.Keeps q) (hr : q.Keeps r) : p.Keeps r := by
  unfold Keeps at *
  rw [hr, hq]

theorem Keeps.decisions_eq (h : p.Keeps q) : q.decisions = p.decisions := by rw [h]

theorem SameData.of_keeps (h : p.SameData p') (hq : p.Keeps q) (hq' : p'.Keeps q') :
    q.SameData q' := by
  rw [hq, hq']
  exact ⟨h.coefficients_eq, h.rhs_eq, h.relations_eq, h.costs_eq⟩

theorem SameData.width_eq (h : p.SameData p') : p'.width = p.width := by
  have hcosts := congrArg List.length h.costs_eq
  unfold costs at hcosts
  rwa [List.length_map, List.length_map] at hcosts

end Program

/-! ### The start without the labels -/

section Start

variable {α : Type}

def Constraint.unlabelled (r : Constraint α) : Constraint α := { r with label := none }

theorem Program.SameData.rows_unlabelled {p q : Program α} (h : p.SameData q) :
    q.rows.map Constraint.unlabelled = p.rows.map Constraint.unlabelled := by
  have hrebuilt : ∀ p : Program α, p.rows.map Constraint.unlabelled
      = (p.coefficients.zip (p.relations.zip p.rhs)).map fun entry =>
          ⟨entry.1, entry.2.1, entry.2.2, none⟩ := by
    intro p
    unfold coefficients relations rhs
    rw [List.zip_map', List.zip_map', List.map_map]
    rfl
  rw [hrebuilt, hrebuilt, h.coefficients_eq, h.relations_eq, h.rhs_eq]

variable [Scalar α]

theorem Constraint.normalised_unlabelled (r : Constraint α) :
    r.unlabelled.normalised = r.normalised.unlabelled := by
  show (if r.rhs < 0 then _ else _) = (if r.rhs < 0 then _ else _ : Constraint α).unlabelled
  split <;> rfl

namespace Tableau

omit [Scalar α] in
theorem extraCount_unlabelled (rows : List (Constraint α)) :
    extraCount (rows.map Constraint.unlabelled) = extraCount rows := by
  induction rows with
  | nil => rfl
  | cons r rows ih => exact congrArg (r.relation.extraColumns + ·) ih

theorem startEquations_unlabelled (before : Nat) (rows : List (Constraint α)) :
    startEquations before (rows.map Constraint.unlabelled) = startEquations before rows := by
  induction rows generalizing before with
  | nil => rfl
  | cons r rows ih =>
      rw [List.map_cons, startEquations, startEquations, extraCount_unlabelled]
      exact congrArg _ (ih _)

theorem bigMOf_unlabelled (rows : List (Constraint α)) (costs : List α) :
    bigMOf (rows.map Constraint.unlabelled) costs = bigMOf rows costs := by
  unfold bigMOf penalty
  rw [List.any_map, List.map_map, List.map_map]
  rfl

/-- The start does not see the labels of the rows. -/
theorem augment_unlabelled (p : Program α) (direction : Direction) :
    augment { p with rows := p.rows.map Constraint.unlabelled } direction
      = augment p direction := by
  have hrows : (p.rows.map Constraint.unlabelled).map Constraint.normalised
      = (p.rows.map Constraint.normalised).map Constraint.unlabelled := by
    rw [List.map_map, List.map_map]
    exact List.map_congr_left fun r _ => r.normalised_unlabelled
  have hcosts : { p with rows := p.rows.map Constraint.unlabelled }.costs = p.costs := rfl
  unfold augment
  dsimp only
  rw [hrows, hcosts]
  generalize p.rows.map Constraint.normalised = rows
  rw [bigMOf_unlabelled, startEquations_unlabelled, List.foldl_map, List.countP_map, List.map_map,
    List.map_map]
  rfl

theorem augment_eq_of_sameData {p q : Program α} (h : p.SameData q) (direction : Direction) :
    augment q direction = augment p direction := by
  rw [← augment_unlabelled q, ← augment_unlabelled p, h.rows_unlabelled]
  unfold augment
  dsimp only
  have hcosts : ∀ rows : List (Constraint α), { q with rows }.costs = { p with rows }.costs :=
    fun _ => h.costs_eq
  have hwidth : ∀ rows : List (Constraint α), { q with rows }.width = { p with rows }.width :=
    fun _ => h.width_eq
  rw [hcosts, hwidth]

end Tableau

end Start

namespace Engine

variable {α : Type} [Scalar α]

/-! ### What a call keeps -/

theorem settings_extract (e : Engine α) (status : Status) :
    (e.extract status).settings = e.settings := by
  unfold extract
  split
  · rfl
  · split <;> rfl

section Optimize

variable {e : Engine α} (hwf : e.program.WellFormed) (fuel : Nat) (direction : Direction)

include hwf in
theorem optimize_settings : (e.optimize fuel direction).2.settings = e.settings := by
  rw [optimize_eq hwf]
  cases e.answer fuel direction with
  | error _ => rfl
  | ok status => exact settings_extract _ status

include hwf in
theorem keeps_optimize : e.program.Keeps (e.optimize fuel direction).2.program ∧
    (e.optimize fuel direction).2.program.direction = direction := by
  rw [optimize_program hwf]
  cases e.answer fuel direction with
  | error _ => exact ⟨rfl, rfl⟩
  | ok status => cases status <;> exact ⟨rfl, rfl⟩

include hwf in
/-- Without a point to store, the results are zeros. -/
theorem results_eq_zero
    (hnone : (e.optimize fuel direction).1 = .ok .noSolution ∨
      ∃ error, (e.optimize fuel direction).1 = .error error) :
    (e.optimize fuel direction).2.program.solution = List.replicate e.program.width 0 ∧
      (e.optimize fuel direction).2.program.objectiveValue = 0 := by
  rw [optimize_answer hwf] at hnone
  rw [optimize_program hwf]
  rcases hnone with hnone | ⟨error, herror⟩
  · rw [hnone]
    exact ⟨rfl, rfl⟩
  · rw [herror]
    exact ⟨rfl, rfl⟩

end Optimize

/-- What an engine keeps through all its calls. -/
structure KeptBy (e e' : Engine α) : Prop where
  fits : e'.Fits
  keeps : e.program.Keeps e'.program
  settings_eq : e'.settings = e.settings

theorem Fits.kept_call {e : Engine α} (h : e.Fits) (call : Call) : e.KeptBy (e.call call) where
  fits := h.call call
  keeps := by
    cases call with
    | setup direction => rfl
    | solve fuel =>
        show e.program.Keeps (e.solve fuel).2.program
        rw [solve_program]
        exact .refl _
    | optimize fuel direction => exact (keeps_optimize h.wellFormed fuel direction).1
  settings_eq := by
    cases call with
    | setup direction => rfl
    | solve fuel => exact solve_settings h.shaped.height_lt_width fuel
    | optimize fuel direction => exact optimize_settings h.wellFormed fuel direction

theorem Fits.kept_calls {e : Engine α} (h : e.Fits) (calls : List Call) :
    e.KeptBy (calls.foldl Engine.call e) := by
  induction calls generalizing e with
  | nil => exact ⟨h, .refl _, rfl⟩
  | cons first calls ih =>
      have hfirst := h.kept_call first
      have hrest := ih hfirst.fits
      exact ⟨hrest.fits, hfirst.keeps.trans hrest.keeps,
        hrest.settings_eq.trans hfirst.settings_eq⟩

/-! ### Two engines -/

/-- Engines with the same settings whose programs pose the same problem do the same. -/
theorem sameOutcome_of_sameData {e e' : Engine α} (hwf : e.program.WellFormed)
    (hwf' : e'.program.WellFormed) (hsettings : e'.settings = e.settings)
    (hdata : e.program.SameData e'.program) (fuel : Nat) (direction : Direction) :
    SameOutcome (e.optimize fuel direction) (e'.optimize fuel direction) ∧
      (e'.optimize fuel direction).2.program.objectiveValue
        = (e.optimize fuel direction).2.program.objectiveValue := by
  have hrun : e'.freshRun fuel direction = e.freshRun fuel direction := by
    unfold freshRun
    rw [Tableau.augment_eq_of_sameData hdata, hsettings]
  have hwidth := hdata.width_eq
  refine ⟨sameOutcome_of_freshRun_eq hwf hwf' hwidth hsettings hrun, ?_⟩
  have hpoint := storedPoint_eq_of_freshRun_eq hwidth hsettings hrun
  have hvalue : Scalar.dot e'.program.costs (e'.storedPoint fuel direction)
      = Scalar.dot e.program.costs (e.storedPoint fuel direction) := by
    rw [hdata.costs_eq, hpoint]
  rw [optimize_program hwf, optimize_program hwf', answer_eq_of_freshRun_eq hsettings hrun]
  cases e.answer fuel direction with
  | error _ => rfl
  | ok status =>
      cases status with
      | noSolution => rfl
      | solution => exact hvalue
      | unbounded => exact hvalue

/-- What `optimize` does to two programs that pose the same problem, whatever they and their engines
have been through. -/
theorem optimize_forgets {p p' : Program α} (hwf : p.WellFormed) (hwf' : p'.WellFormed)
    (hdata : p.SameData p') (settings : Settings α) (calls calls' : List Call) (fuel : Nat)
    (direction : Direction) :
    SameOutcome ((after p settings calls).optimize fuel direction)
        ((after p' settings calls').optimize fuel direction) ∧
      ((after p' settings calls').optimize fuel direction).2.program.objectiveValue
        = ((after p settings calls).optimize fuel direction).2.program.objectiveValue ∧
      (p.Keeps ((after p settings calls).optimize fuel direction).2.program ∧
        ((after p settings calls).optimize fuel direction).2.program.direction = direction) ∧
      (((after p settings calls).optimize fuel direction).1 = .ok .noSolution ∨
          (∃ error, ((after p settings calls).optimize fuel direction).1 = .error error) →
        ((after p settings calls).optimize fuel direction).2.program.solution
            = List.replicate p.width 0 ∧
          ((after p settings calls).optimize fuel direction).2.program.objectiveValue = 0) := by
  have hkept : (ofProgram p settings).KeptBy (after p settings calls) :=
    (fits_ofProgram hwf settings).kept_calls calls
  have hkept' : (ofProgram p' settings).KeptBy (after p' settings calls') :=
    (fits_ofProgram hwf' settings).kept_calls calls'
  have hcalled := hkept.fits.wellFormed
  have hwidth : (after p settings calls).program.width = p.width :=
    congrArg List.length hkept.keeps.decisions_eq
  obtain ⟨hsame, hvalue⟩ := sameOutcome_of_sameData hcalled hkept'.fits.wellFormed
    (hkept'.settings_eq.trans hkept.settings_eq.symm) (hdata.of_keeps hkept.keeps hkept'.keeps)
    fuel direction
  obtain ⟨hkeeps, hdirection⟩ := keeps_optimize hcalled fuel direction
  refine ⟨hsame, hvalue, ⟨hkept.keeps.trans hkeeps, hdirection⟩, ?_⟩
  rw [← hwidth]
  exact results_eq_zero hcalled fuel direction

/-- `twoRows` with labels, and with results that are not its own. -/
def worn : Program ℚ :=
  { Tableau.twoRows with
    direction := .maximize
    rows := Tableau.twoRows.rows.map fun r => { r with label := some "row" }
    decisions := Tableau.twoRows.decisions.map fun d => { d with label := some "column" }
    solution := [7, 7]
    objectiveValue := 21 }

/-- After calls in the other direction `worn` is solved like `twoRows`, and with too low a limit its
results are zeros. -/
theorem forgets_worn :
    ((after worn ⟨some 2, 0⟩ [.optimize 0 .maximize, .solve 0, .setup .maximize]).optimize 0
        .minimize).2.program.solution = [3, 0] ∧
      ((after worn ⟨some 1, 0⟩ [.optimize 0 .maximize, .solve 0]).optimize 0
        .minimize).2.program.objectiveValue = 0 := by
  have hwf : Tableau.twoRows.WellFormed := ⟨by decide, by decide, by decide, by decide⟩
  have hworn : worn.WellFormed := ⟨by decide, by decide, by decide, by decide⟩
  have hdata : Tableau.twoRows.SameData worn := ⟨rfl, rfl, rfl, rfl⟩
  constructor
  · have hfresh : ((after Tableau.twoRows ⟨some 2, 0⟩ []).optimize 0
        .minimize).2.program.solution = [3, 0] := by decide +kernel
    rw [← hfresh]
    exact (optimize_forgets hwf hworn hdata ⟨some 2, 0⟩ [] _ 0 .minimize).1.solution_eq
  · have hcut : ((after worn ⟨some 1, 0⟩ [.optimize 0 .maximize, .solve 0]).optimize 0
        .minimize).1 = .error (.pivotLimit 1) := by decide +kernel
    exact ((optimize_forgets hworn hworn ⟨rfl, rfl, rfl, rfl⟩ ⟨some 1, 0⟩ _ [] 0
      .minimize).2.2.2 (.inr ⟨_, hcut⟩)).2

end Engine

end LinProg
