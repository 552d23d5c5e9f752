import LinProg.Proofs.Optimality
import LinProg.Proofs.Program.EditSteps

/-!
# What the stored objective value is the value of

A program keeps its results beside the data that they were computed from. They are written when it
is made, when it grows, and when an engine starts or ends a search, and each time the objective
value is that of the solution at the costs of the time. A cost that is set later does not touch
them. So a stamp is carried along with the program: the costs as they were when the results were
written last, and whether one has been set since.
-/

namespace LinProg

/-- The edits that set the results back to zero. -/
def Edit.clears {α : Type} : Edit α → Bool
  | insertRow _ _ | insertColumn _ _ => true
  | _ => false

def Edit.reprices {α : Type} : Edit α → Bool
  | setCost _ _ | setObjective _ => true
  | _ => false

/-- The calls that write the results, if only zeros. -/
def Engine.Call.writes : Call → Bool
  | .setup _ | .optimize _ _ => true
  | .solve _ => false

structure Stamp where
  /-- The costs when the results were written last. -/
  prices : List ℚ
  /-- Whether costs have been set since. -/
  repriced : Bool
  deriving DecidableEq

namespace Program

def nextStamp (p : Program ℚ) (s : Stamp) : Operation ℚ → Stamp
  | .edit edit =>
    match edit.apply p with
    | .error _ => s
    | .ok q =>
      if edit.clears then ⟨q.costs, false⟩
      else if edit.reprices then { s with repriced := true }
      else s
  | .engine _ calls => if calls.any (·.writes) then ⟨p.costs, false⟩ else s

/-- The programs that can be reached, with a stamp for the way that led to them. -/
inductive Stamped : Program ℚ → Stamp → Prop
  | made {p : Program ℚ} (h : p.Made) : Stamped p ⟨p.costs, false⟩
  | perform {p : Program ℚ} {s : Stamp} (h : Stamped p s) (operation : Operation ℚ) :
      Stamped (p.perform operation).2 (p.nextStamp s operation)

theorem Stamped.reachable {p : Program ℚ} {s : Stamp} (h : p.Stamped s) : p.Reachable := by
  induction h with
  | made h => exact .made h
  | perform _ operation ih => exact .perform ih operation

theorem Reachable.exists_stamped {p : Program ℚ} (h : p.Reachable) : ∃ s, p.Stamped s := by
  induction h with
  | made h => exact ⟨_, .made h⟩
  | perform _ operation ih =>
      obtain ⟨s, hs⟩ := ih
      exact ⟨_, .perform hs operation⟩

/-- The stored value is that of the stored solution at the present costs. -/
def Consistent (p : Program ℚ) : Prop := p.objectiveValue = p.objective p.solution

theorem consistent_clearSolution (p : Program ℚ) : p.clearSolution.Consistent :=
  p.objective_zeros.symm

theorem consistent_storeSolution (p : Program ℚ) (x : List ℚ) : (p.storeSolution x).Consistent :=
  rfl

theorem Made.consistent {p : Program ℚ} (h : p.Made) : p.Consistent := by
  have hcleared : p.clearSolution = p := by
    cases h with
    | blank h =>
        obtain ⟨_, -, hp⟩ := bind_eq_ok_iff.mp h
        obtain rfl := Except.ok.inj hp
        rfl
    | ofParts h =>
        unfold Program.ofParts at h
        simp only [bind_eq_ok_iff] at h
        obtain ⟨_, -, _, -, _, -, _, -, hp⟩ := h
        obtain rfl := Except.ok.inj hp
        rfl
    | ofText h =>
        obtain ⟨d, _, -, -, rfl⟩ := ofText_eq_ok_iff.mp h
        rfl
  rw [← hcleared]
  exact consistent_clearSolution p

end Program

/-! ### Engines -/

namespace Engine

variable {e : Engine ℚ}

/-- A call leaves the costs, and it leaves the results alone or writes them at these costs. -/
theorem Fits.call_results (h : e.Fits) (call : Call) :
    (e.call call).program.costs = e.program.costs ∧
      (call.writes = true → (e.call call).program.Consistent) ∧
      (call.writes = false → (e.call call).program = e.program) := by
  cases call with
  | setup direction => exact ⟨rfl, fun _ => Program.consistent_clearSolution _, nofun⟩
  | solve fuel =>
      have hprogram := solve_program fuel e
      exact ⟨congrArg Program.costs hprogram, nofun, fun _ => hprogram⟩
  | optimize fuel direction =>
      have hprogram := optimize_program h.wellFormed fuel direction
      have hcosts : (e.optimize fuel direction).2.program.costs = e.program.costs := by
        rw [hprogram]
        split <;> rfl
      have hwritten : (e.optimize fuel direction).2.program.Consistent := by
        rw [hprogram]
        split
        · exact Program.consistent_storeSolution _ _
        · exact Program.consistent_storeSolution _ _
        · exact Program.consistent_clearSolution _
      exact ⟨hcosts, fun _ => hwritten, nofun⟩

theorem Fits.calls_results (h : e.Fits) (calls : List Call) :
    (calls.foldl Engine.call e).program.costs = e.program.costs ∧
      (calls.any (·.writes) = true → (calls.foldl Engine.call e).program.Consistent) ∧
      (calls.any (·.writes) = false → (calls.foldl Engine.call e).program = e.program) := by
  induction calls generalizing e with
  | nil => exact ⟨rfl, nofun, fun _ => rfl⟩
  | cons first calls ih =>
      obtain ⟨hcosts, hwritten, hkept⟩ := h.call_results first
      obtain ⟨hcosts', hwritten', hkept'⟩ := ih (h.call first)
      rw [List.foldl_cons, List.any_cons]
      refine ⟨hcosts'.trans hcosts, ?_, ?_⟩
      · intro hany
        cases hlater : calls.any (·.writes) with
        | true => exact hwritten' hlater
        | false =>
            -- the first call was the last one to write
            rw [hlater, Bool.or_false] at hany
            rw [hkept' hlater]
            exact hwritten hany
      · intro hnone
        rw [Bool.or_eq_false_iff] at hnone
        rw [hkept' hnone.2, hkept hnone.1]

end Engine

/-! ### The stamp says what the stored value is -/

/-- The stored value is that of the stored solution at the prices of the stamp, and these are still
the costs if none has been set. -/
structure Stamp.Sound (s : Stamp) (p : Program ℚ) : Prop where
  value_eq : p.objectiveValue = Scalar.dot s.prices p.solution
  length_eq : s.prices.length = p.width
  prices_eq : s.repriced = false → s.prices = p.costs

namespace Program

variable {p : Program ℚ} {s : Stamp}

theorem Consistent.sound (h : p.Consistent) : Stamp.Sound ⟨p.costs, false⟩ p :=
  ⟨h, List.length_map _, fun _ => rfl⟩

/-- An edit that does not clear the results leaves them. -/
theorem results_target {edit : Edit ℚ} (hclears : edit.clears = false) :
    (edit.target p).solution = p.solution ∧ (edit.target p).objectiveValue = p.objectiveValue := by
  cases edit with
  | insertRow i row => cases hclears
  | insertColumn j column => cases hclears
  | _ => exact ⟨rfl, rfl⟩

theorem costs_target {edit : Edit ℚ} (hclears : edit.clears = false)
    (hreprices : edit.reprices = false) : (edit.target p).costs = p.costs := by
  cases edit with
  | insertRow i row => cases hclears
  | insertColumn j column => cases hclears
  | setCost j value => cases hreprices
  | setObjective costs => cases hreprices
  | setColumnLabel j label => exact map_modify_of_eq fun _ => rfl
  | _ => rfl

theorem width_target {edit : Edit ℚ} (hclears : edit.clears = false)
    (hcheck : edit.check p = .ok ()) : (edit.target p).width = p.width := by
  cases edit with
  | insertRow i row => cases hclears
  | insertColumn j column => cases hclears
  | setCost j value => exact width_modifyDecision ..
  | setColumnLabel j label => exact width_modifyDecision ..
  | setObjective costs =>
      show (p.decisions.zipWith _ costs).length = _
      rw [List.length_zipWith, ← checkLength_eq_ok_iff.mp hcheck]
      exact Nat.min_self _
  | _ => rfl

theorem consistent_target {edit : Edit ℚ} (hclears : edit.clears = true) :
    (edit.target p).Consistent := by
  cases edit with
  | insertRow i row => exact consistent_clearSolution _
  | insertColumn j column => exact consistent_clearSolution _
  | _ => cases hclears

theorem sound_target (hsound : s.Sound p) {edit : Edit ℚ} (hcheck : edit.check p = .ok ()) :
    Stamp.Sound (if edit.clears then ⟨(edit.target p).costs, false⟩
      else if edit.reprices then { s with repriced := true } else s) (edit.target p) := by
  cases hclears : edit.clears with
  | true =>
      rw [if_pos rfl]
      exact (consistent_target hclears).sound
  | false =>
      obtain ⟨hsolution, hvalue⟩ := results_target (p := p) hclears
      have hkept : (edit.target p).objectiveValue
          = Scalar.dot s.prices (edit.target p).solution := by
        rw [hsolution, hvalue, hsound.value_eq]
      have hlength : s.prices.length = (edit.target p).width := by
        rw [width_target hclears hcheck, hsound.length_eq]
      rw [if_neg Bool.false_ne_true]
      cases hreprices : edit.reprices with
      | true => exact ⟨hkept, hlength, nofun⟩
      | false =>
          refine ⟨hkept, hlength, ?_⟩
          rw [costs_target hclears hreprices]
          exact hsound.prices_eq

theorem Stamped.sound (h : p.Stamped s) : s.Sound p := by
  induction h with
  | made h => exact h.consistent.sound
  | @perform p s h operation ih =>
      have hwf := h.reachable.wellFormed
      cases operation with
      | edit edit =>
          show Stamp.Sound (match edit.apply p with | .error _ => s | .ok q => _)
            (p.outcome (edit.apply p)).2
          cases hq : edit.apply p with
          | error error => exact ih
          | ok q =>
              obtain ⟨hcheck, rfl⟩ := (apply_eq_ok_iff hwf).mp hq
              exact sound_target ih hcheck
      | engine settings calls =>
          have hfits := Engine.fits_ofProgram hwf settings
          obtain ⟨hcosts, hwritten, hkept⟩ := hfits.calls_results calls
          show Stamp.Sound (if calls.any (·.writes) then ⟨p.costs, false⟩ else s)
            (Engine.after p settings calls).program
          cases hany : calls.any (·.writes) with
          | true =>
              have hsound := (hwritten hany).sound
              rw [hcosts] at hsound
              exact hsound
          | false =>
              rw [if_neg Bool.false_ne_true, Engine.after, hkept hany]
              exact ih

/-- The stored value is that of the stored solution at the costs as they were when the results were
written last, and so at the present costs unless one has been set since. -/
theorem objectiveValue_of_reachable (h : p.Reachable) :
    (∃ s, p.Stamped s) ∧ ∀ s, p.Stamped s →
      s.prices.length = p.width ∧ p.objectiveValue = Scalar.dot s.prices p.solution ∧
        (s.repriced = false → p.objectiveValue = p.objective p.solution) := by
  refine ⟨h.exists_stamped, ?_⟩
  intro s hs
  have hsound := hs.sound
  refine ⟨hsound.length_eq, hsound.value_eq, ?_⟩
  intro hrepriced
  rw [objective, ← hsound.prices_eq hrepriced, hsound.value_eq]

/-- `x` where `x ≤ 4`. -/
def stall : Program ℚ := .ofRows [⟨[1], .lessEq, 4, none⟩] [⟨1, none⟩]

/-- The program after a search for its maximum. -/
def sold : Program ℚ := (stall.perform (.engine .standard [.optimize 9 .maximize])).2

def repriced : Program ℚ := (sold.perform (.edit (.setCost 0 2))).2

theorem made_stall : stall.Made := by
  have hparts : ofParts [[1]] [4] [.lessEq] [1] = .ok stall := rfl
  exact .ofParts hparts

theorem stamped_repriced : repriced.Stamped ⟨[1], true⟩ := by
  have hstamp : sold.nextStamp ⟨[1], false⟩ (.edit (.setCost 0 2)) = ⟨[1], true⟩ := by
    decide +kernel
  have hsold : sold.Stamped ⟨[1], false⟩ := (Stamped.made made_stall).perform _
  rw [← hstamp]
  exact hsold.perform _

theorem objectiveValue_repriced :
    repriced.Reachable ∧ repriced.Stamped ⟨[1], true⟩ ∧ repriced.costs = [2] ∧
      repriced.solution = [4] ∧ repriced.objectiveValue = Scalar.dot [1] [4] := by
  have hsolution : repriced.solution = [4] := by decide +kernel
  have hreachable := stamped_repriced.reachable
  obtain ⟨-, hvalue, -⟩ := (objectiveValue_of_reachable hreachable).2 _ stamped_repriced
  refine ⟨hreachable, stamped_repriced, by decide +kernel, hsolution, ?_⟩
  rw [← hsolution]
  exact hvalue

/-- The stored value is 4, and at the new cost the solution is worth 8. -/
theorem not_consistent_repriced : ¬ ∀ p : Program ℚ, p.Reachable →
    p.objectiveValue = p.objective p.solution := by
  intro hall
  have hequal := hall repriced stamped_repriced.reachable
  have hvalue : repriced.objectiveValue = 4 := by decide +kernel
  have hworth : repriced.objective repriced.solution = 8 := by decide +kernel
  rw [hvalue, hworth] at hequal
  revert hequal
  decide

end Program

end LinProg
