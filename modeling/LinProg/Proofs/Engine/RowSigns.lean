import LinProg.Proofs.Decimal.Bits
import LinProg.Proofs.Engine.Opposite

/-!
# The sign of a row

A row may be written with both sides negated and its relation turned round. The starting tableau is
made of the rows after normalisation, which undoes this for any row whose right side is a number other
than zero. So two programs that differ in the signs of such rows have the same tableau at the start,
and all that follows from it is the same too. Of the numbers this takes that a number negated twice
is itself, and that negation reverses a sign.
-/

namespace LinProg

/-- Negation reverses the tests on a sign. The not-a-number, which differs from itself, has none. -/
structure ReversesSigns (α : Type) [Scalar α] : Prop where
  not_neg_of_neg : ∀ v : α, v < 0 → ¬ -v < 0
  neg_of_not_neg : ∀ v : α, (v == v) = true → ¬ (v == 0) = true → ¬ v < 0 → -v < 0

theorem signed_float : Signed Float where
  negated_twice := Binary64.neg_neg
  abs_negated := Binary64.abs_neg

theorem reversesSigns_float : ReversesSigns Float where
  not_neg_of_neg _ := Binary64.not_neg_lt_zero
  neg_of_not_neg _ := Binary64.neg_lt_zero

theorem reversesSigns_rat : ReversesSigns ℚ where
  not_neg_of_neg v h := by
    show ¬ -v < 0
    have hneg : v < 0 := h
    linarith
  neg_of_not_neg v _ hzero h := by
    have hne : v ≠ 0 := fun heq => hzero (beq_iff_eq.mpr heq)
    have hle : 0 ≤ v := not_lt.mp h
    exact neg_neg_of_pos (lt_of_le_of_ne hle hne.symm)

namespace Constraint

variable {α : Type} [Scalar α]

def negated (r : Constraint α) : Constraint α :=
  { r with coefficients := r.coefficients.map (-·), relation := r.relation.flipped, rhs := -r.rhs }

theorem normalised_eq (r : Constraint α) : r.normalised = if r.rhs < 0 then r.negated else r := rfl

theorem length_negated (r : Constraint α) : r.negated.coefficients.length = r.coefficients.length :=
  List.length_map _

theorem negated_negated (hsigned : Signed α) (r : Constraint α) : r.negated.negated = r := by
  have hcoefficients : (r.coefficients.map (-·)).map (-·) = r.coefficients := by
    rw [List.map_map]
    exact (List.map_congr_left fun v _ => hsigned.negated_twice v).trans (List.map_id _)
  unfold negated
  dsimp only
  rw [hcoefficients, Relation.flipped_flipped, hsigned.negated_twice]

theorem normalised_rhs_not_neg (hsigns : ReversesSigns α) (r : Constraint α) :
    ¬ r.normalised.rhs < 0 := by
  rw [normalised_eq]
  split
  · exact hsigns.not_neg_of_neg r.rhs ‹_›
  · assumption

theorem normalised_of_rhs_not_neg {r : Constraint α} (h : ¬ r.rhs < 0) : r.normalised = r :=
  if_neg h

theorem normalised_normalised (hsigns : ReversesSigns α) (r : Constraint α) :
    r.normalised.normalised = r.normalised :=
  normalised_of_rhs_not_neg (r.normalised_rhs_not_neg hsigns)

theorem normalised_negated (hsigned : Signed α) (hsigns : ReversesSigns α) {r : Constraint α}
    (hnumber : (r.rhs == r.rhs) = true) (hzero : ¬ (r.rhs == 0) = true) :
    r.negated.normalised = r.normalised := by
  by_cases h : r.rhs < 0
  · have hnegated : ¬ r.negated.rhs < 0 := hsigns.not_neg_of_neg r.rhs h
    rw [normalised_of_rhs_not_neg hnegated, normalised_eq, if_pos h]
  · have hnegated : r.negated.rhs < 0 := hsigns.neg_of_not_neg r.rhs hnumber hzero h
    rw [normalised_of_rhs_not_neg h, normalised_eq, if_pos hnegated, negated_negated hsigned]

end Constraint

namespace Program

variable {α : Type} [Scalar α]

/-- The program with both sides of the chosen rows negated. -/
def negateRows (chosen : Nat → Bool) (p : Program α) : Program α :=
  { p with rows := p.rows.mapIdx fun i r => if chosen i then r.negated else r }

def normaliseRows (p : Program α) : Program α := { p with rows := p.rows.map Constraint.normalised }

/-- The right sides of the chosen rows have a sign. -/
def SignsChosen (chosen : Nat → Bool) (p : Program α) : Prop :=
  ∀ i r, p.rows[i]? = some r → chosen i = true → (r.rhs == r.rhs) = true ∧ ¬ (r.rhs == 0) = true

theorem height_negateRows (chosen : Nat → Bool) (p : Program α) :
    (p.negateRows chosen).height = p.height := List.length_mapIdx

theorem WellFormed.negateRows {p : Program α} (hwf : p.WellFormed) (chosen : Nat → Bool) :
    (p.negateRows chosen).WellFormed := by
  refine ⟨?_, hwf.width_pos, ?_, hwf.solution_length⟩
  · rw [height_negateRows]
    exact hwf.height_pos
  · intro r hr
    obtain ⟨i, hi, rfl⟩ := List.mem_mapIdx.mp hr
    have hlength := hwf.row_length p.rows[i] (List.getElem_mem hi)
    split
    · exact (Constraint.length_negated _).trans hlength
    · exact hlength

theorem map_normalised_negateRows (hsigned : Signed α) (hsigns : ReversesSigns α)
    {chosen : Nat → Bool} {p : Program α} (hchosen : p.SignsChosen chosen) :
    (p.negateRows chosen).rows.map Constraint.normalised = p.rows.map Constraint.normalised := by
  unfold negateRows
  apply List.ext_getElem?
  intro i
  rw [List.getElem?_map, List.getElem?_map, List.getElem?_mapIdx]
  cases hrow : p.rows[i]? with
  | none => rfl
  | some r =>
      apply congrArg some
      show (if chosen i then r.negated else r).normalised = r.normalised
      by_cases hi : chosen i = true
      · obtain ⟨hnumber, hzero⟩ := hchosen i r hrow hi
        rw [if_pos hi, Constraint.normalised_negated hsigned hsigns hnumber hzero]
      · rw [if_neg hi]

theorem map_normalised_normaliseRows (hsigns : ReversesSigns α) (p : Program α) :
    p.normaliseRows.rows.map Constraint.normalised = p.rows.map Constraint.normalised := by
  unfold normaliseRows
  rw [List.map_map]
  exact List.map_congr_left fun r _ => r.normalised_normalised hsigns

end Program

/-- The starting tableau only sees the rows after normalisation. -/
theorem Tableau.augment_eq_of_normalised {α : Type} [Scalar α] {p q : Program α}
    (hdecisions : q.decisions = p.decisions)
    (hrows : q.rows.map Constraint.normalised = p.rows.map Constraint.normalised)
    (direction : Direction) : augment q direction = augment p direction := by
  unfold augment Program.costs Program.width
  rw [hrows, hdecisions]

namespace Engine

section Runs

variable {α : Type} [Scalar α] {e e' : Engine α}

theorem objectiveValue_eq_of_freshRun_eq {fuel : Nat} {direction : Direction}
    (hwf : e.program.WellFormed) (hwf' : e'.program.WellFormed)
    (hdecisions : e'.program.decisions = e.program.decisions)
    (hsettings : e'.settings = e.settings)
    (hrun : e'.freshRun fuel direction = e.freshRun fuel direction) :
    (e'.optimize fuel direction).2.program.objectiveValue
      = (e.optimize fuel direction).2.program.objectiveValue := by
  have hwidth : e'.program.width = e.program.width := congrArg List.length hdecisions
  have hstored : ({ e'.program with direction }.storeSolution
        (e.storedPoint fuel direction)).objectiveValue
      = ({ e.program with direction }.storeSolution
        (e.storedPoint fuel direction)).objectiveValue := by
    show Scalar.dot e'.program.costs _ = Scalar.dot e.program.costs _
    unfold Program.costs
    rw [hdecisions]
  rw [optimize_program hwf, optimize_program hwf', answer_eq_of_freshRun_eq hsettings hrun,
    storedPoint_eq_of_freshRun_eq hwidth hsettings hrun]
  cases e.answer fuel direction with
  | error _ => rfl
  | ok status =>
      cases status with
      | solution => exact hstored
      | unbounded => exact hstored
      | noSolution => rfl

/-- A program and the one with chosen rows negated start from one tableau and come to one end, and no
row of a normalised program is negated again. -/
theorem optimize_negateRows (hsigned : Signed α) (hsigns : ReversesSigns α)
    (hwf : e.program.WellFormed) {chosen : Nat → Bool} (hchosen : e.program.SignsChosen chosen)
    (hprogram : e'.program = e.program.negateRows chosen) (hsettings : e'.settings = e.settings)
    (fuel : Nat) (direction : Direction) :
    Tableau.augment e'.program direction = Tableau.augment e.program direction ∧
      SameOutcome (e.optimize fuel direction) (e'.optimize fuel direction) ∧
      (e'.optimize fuel direction).2.program.objectiveValue
        = (e.optimize fuel direction).2.program.objectiveValue ∧
      Tableau.augment e.program.normaliseRows direction = Tableau.augment e.program direction ∧
      ∀ r ∈ e.program.normaliseRows.rows, ¬ r.rhs < 0 ∧ r.normalised = r := by
  have hwf' : e'.program.WellFormed := hprogram ▸ hwf.negateRows chosen
  have hdecisions : e'.program.decisions = e.program.decisions := by
    rw [hprogram]
    rfl
  have haugment : Tableau.augment e'.program direction = Tableau.augment e.program direction := by
    apply Tableau.augment_eq_of_normalised hdecisions
    rw [hprogram]
    exact Program.map_normalised_negateRows hsigned hsigns hchosen
  have hrun : e'.freshRun fuel direction = e.freshRun fuel direction := by
    unfold freshRun
    rw [haugment, hsettings]
  refine ⟨haugment, ?_, ?_, ?_, ?_⟩
  · exact sameOutcome_of_freshRun_eq hwf hwf' (congrArg List.length hdecisions) hsettings hrun
  · exact objectiveValue_eq_of_freshRun_eq hwf hwf' hdecisions hsettings hrun
  · have hdecisions : e.program.normaliseRows.decisions = e.program.decisions := rfl
    apply Tableau.augment_eq_of_normalised hdecisions
    exact e.program.map_normalised_normaliseRows hsigns
  · intro r hr
    obtain ⟨r, -, rfl⟩ := List.mem_map.mp hr
    exact ⟨r.normalised_rhs_not_neg hsigns, r.normalised_normalised hsigns⟩

end Runs

/-- `x + 2y` where `x + y = 3`, `-x ≤ -1` and `y ≥ 0`, in doubles. -/
def signedRows : Engine Float :=
  .ofProgram (.ofRows [⟨[1, 1], .equal, 3, none⟩, ⟨[-1, 0], .lessEq, -1, none⟩,
    ⟨[0, 1], .greaterEq, 0, none⟩] [⟨1, none⟩, ⟨2, none⟩]) .standard

/-- The same with `-x - y = -3` and `x ≥ 1`. -/
def reversedRows : Engine Float :=
  { signedRows with program := signedRows.program.negateRows (· < 2) }

theorem optimize_reversedRows :
    (signedRows.optimize 9 .minimize).1 = .ok .solution ∧
      (reversedRows.optimize 9 .minimize).1 = .ok .solution ∧
      reversedRows.program.rhs = [-3, 1, 0] ∧
      Tableau.augment reversedRows.program .minimize
        = Tableau.augment signedRows.program .minimize := by
  have hwf : signedRows.program.WellFormed := ⟨by decide, by decide, by decide, by decide⟩
  have hchosen : signedRows.program.SignsChosen (· < 2) := by
    intro i r hrow hi
    match i, hrow with
    | 0, hrow =>
        obtain rfl := Option.some.inj hrow
        decide +kernel
    | 1, hrow =>
        obtain rfl := Option.some.inj hrow
        decide +kernel
    | i + 2, _ => simp at hi
  have hanswer : (signedRows.optimize 9 .minimize).1 = .ok .solution := by decide +kernel
  obtain ⟨haugment, hsame, -, -, -⟩ := optimize_negateRows signed_float reversesSigns_float hwf
    hchosen (rfl : reversedRows.program = _) (rfl : reversedRows.settings = _) 9 .minimize
  exact ⟨hanswer, hsame.answer_eq.trans hanswer, by decide +kernel, haugment⟩

end Engine

end LinProg
