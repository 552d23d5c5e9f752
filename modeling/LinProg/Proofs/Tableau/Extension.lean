import LinProg.Proofs.Engine.Solve
import LinProg.Proofs.Tableau.Basis
import LinProg.Proofs.Tableau.Relaxation

/-!
# The start represents the program

A list of values for all columns of the start begins with values for the decision variables. If it
solves the equations, has no negative entry and is zero at the artificial variables, then its
beginning is a feasible point of the program, and each feasible point begins such a list. What the
cost row says of a solution is the objective with its sign and `M` for each unit of an artificial
variable, less `M` times the right sides of the rows that have one.
-/

namespace LinProg

/-- The factor that turns an objective value into a cost. -/
def Direction.sign : Direction → ℚ
  | minimize => 1
  | maximize => -1

theorem Direction.costOf_eq_sign_mul (d : Direction) (v : ℚ) : d.costOf v = d.sign * v := by
  cases d with
  | minimize => exact (one_mul v).symm
  | maximize => exact (neg_one_mul v).symm

theorem firstValues_listed_take {n : Nat} {z : List ℚ} (hn : n ≤ z.length) :
    firstValues n (listed z) = z.take n := by
  have hlength : (z.take n).length = n := List.length_take_of_le hn
  have hfirst := firstValues_listed_append (z.take n) (z.drop n)
  rwa [List.take_append_drop, hlength] at hfirst

theorem take_firstValues {m n : Nat} (hmn : m ≤ n) (z : Assignment) :
    (firstValues n z).take m = firstValues m z := by
  unfold firstValues
  rw [← List.map_take, List.take_range, Nat.min_eq_left hmn]

namespace Tableau

/-- One value for each column, such that all equations hold. -/
structure SolvedBy (t : Tableau ℚ) (z : List ℚ) : Prop where
  length_eq : z.length = t.width
  dot_entries : ∀ e ∈ t.equations, Scalar.dot e.entries z = e.rhs

/-- The values in the columns of the artificial variables. -/
def artificialValues (t : Tableau ℚ) (z : List ℚ) : List ℚ :=
  ((t.columns.zip z).filter (·.1.isArtificial)).map (·.2)

/-- The right sides of the rows that have an artificial variable in the basis. -/
def artificialRhs (t : Tableau ℚ) : List ℚ :=
  (t.equations.filter (·.basic.isArtificial)).map (·.rhs)

/-! ### Lists and assignments -/

theorem sum_filter_zip (columns : List Variable) (z : List ℚ) :
    (((columns.zip z).filter (·.1.isArtificial)).map (·.2)).sum
      = Scalar.dot (columns.map fun v => if v.isArtificial then 1 else 0) z := by
  unfold Scalar.dot
  rw [sum_eq_listSum]
  induction columns generalizing z with
  | nil => rfl
  | cons v columns ih =>
      cases z with
      | nil => rfl
      | cons w z =>
          rw [List.zip_cons_cons, List.filter_cons, List.map_cons, List.zipWith_cons_cons,
            List.sum_cons, ← ih]
          by_cases hv : v.isArtificial
          · simp [hv]
          · simp [hv]

theorem sum_artificialValues (t : Tableau ℚ) (z : List ℚ) :
    (t.artificialValues z).sum = t.shortage (listed z) := by
  unfold artificialValues shortage
  rw [sum_filter_zip, dot_eq_weigh_listed]

theorem artificialValues_nonneg (t : Tableau ℚ) {z : List ℚ} (hz : ∀ v ∈ z, 0 ≤ v) :
    ∀ v ∈ t.artificialValues z, 0 ≤ v := by
  intro v hv
  obtain ⟨pair, hpair, rfl⟩ := List.mem_map.mp hv
  exact hz _ (List.of_mem_zip (List.mem_of_mem_filter hpair)).2

theorem SolvedBy.solves {t : Tableau ℚ} {z : List ℚ} (h : t.SolvedBy z) : t.Solves (listed z) := by
  intro e he
  unfold Equation.Holds
  rw [← dot_eq_weigh_listed]
  exact h.dot_entries e he

theorem Shaped.solvedBy_firstValues {t : Tableau ℚ} (h : t.Shaped) {z : Assignment}
    (hsolves : t.Solves z) : t.SolvedBy (firstValues t.width z) where
  length_eq := length_firstValues _ _
  dot_entries := by
    intro e he
    rw [dot_firstValues (h.entries_length e he)]
    exact hsolves e he

theorem sum_artificialValues_firstValues (t : Tableau ℚ) (z : Assignment) :
    (t.artificialValues (firstValues t.width z)).sum = t.shortage z := by
  unfold artificialValues shortage
  rw [sum_filter_zip]
  exact dot_firstValues (List.length_map _) z

theorem takenOut_eq (bigM : ℚ) (before : Nat) (rows : List (Constraint ℚ)) :
    takenOut bigM rows = bigM * (((startEquations before rows).filter (·.basic.isArtificial)).map
      (·.rhs)).sum := by
  induction rows generalizing before with
  | nil => exact (mul_zero bigM).symm
  | cons r rows ih =>
      rw [startEquations, List.filter_cons, isArtificial_basic_startEquation, takenOut_cons,
        ih (before + r.relation.extraColumns)]
      split
      · rw [List.map_cons, List.sum_cons, mul_add]
        rfl
      · rw [zero_add]

/-! ### The start -/

section Start

variable {p : Program ℚ} {direction : Direction}

theorem width_le_width_augment (p : Program ℚ) (direction : Direction) :
    p.width ≤ (augment p direction).width := by
  rw [width_augment]
  exact Nat.le_add_right _ _

theorem SolvedBy.take_eq {z : List ℚ} (h : (augment p direction).SolvedBy z) :
    z.take p.width = firstValues p.width (listed z) := by
  refine (firstValues_listed_take ?_).symm
  rw [h.length_eq]
  exact width_le_width_augment p direction

theorem feasible_of_solvedBy (hwf : p.WellFormed) {z : List ℚ}
    (h : (augment p direction).SolvedBy z) (hnonneg : ∀ v ∈ z, 0 ≤ v)
    (hzero : ∀ v ∈ (augment p direction).artificialValues z, v = 0) :
    p.Feasible (z.take p.width) := by
  have hrelaxed := relaxed_of_solves hwf (listed_nonneg hnonneg) h.solves
  rw [h.take_eq]
  refine hrelaxed.feasible ?_
  rw [← shortage_augment p direction, ← sum_artificialValues]
  exact List.sum_eq_zero hzero

theorem exists_solvedBy_of_feasible (hwf : p.WellFormed) (direction : Direction) {x : List ℚ}
    (h : p.Feasible x) :
    ∃ z, (augment p direction).SolvedBy z ∧ (∀ v ∈ z, 0 ≤ v) ∧
      (∀ v ∈ (augment p direction).artificialValues z, v = 0) ∧ z.take p.width = x := by
  obtain ⟨z, hsolves, hnonneg, hfirst, hshort⟩ := exists_solves_of_relaxed hwf direction h.relaxed
  have hvalues : ∀ v ∈ firstValues (augment p direction).width z, 0 ≤ v :=
    firstValues_nonneg hnonneg _
  have hsum : ((augment p direction).artificialValues
      (firstValues (augment p direction).width z)).sum = 0 := by
    rw [sum_artificialValues_firstValues, shortage_augment, hshort]
    simp
  refine ⟨_, (shaped_augment hwf direction).solvedBy_firstValues hsolves, hvalues, ?_, ?_⟩
  · intro v hv
    exact List.all_zero_of_le_zero_le_of_sum_eq_zero (artificialValues_nonneg _ hvalues) hsum hv
  · rw [take_firstValues (width_le_width_augment p direction), hfirst]

theorem dot_cost_of_solvedBy (hwf : p.WellFormed) {z : List ℚ}
    (h : (augment p direction).SolvedBy z) :
    Scalar.dot (augment p direction).cost z
      = direction.sign * p.objective (z.take p.width)
        + (augment p direction).bigM * ((augment p direction).artificialValues z).sum
        - (augment p direction).bigM * (augment p direction).artificialRhs.sum := by
  have hcost := weigh_cost_augment hwf h.solves
  have htaken := takenOut_eq (augment p direction).bigM 0 p.normalisedRows
  rw [dot_eq_weigh_listed, hcost, h.take_eq, ← direction.costOf_eq_sign_mul, sum_artificialValues,
    shortage_augment]
  exact congrArg _ htaken

end Start

/-- What a tableau has to be in order to stand for a program in a direction. -/
structure Represents (t : Tableau ℚ) (p : Program ℚ) (direction : Direction) : Prop where
  /-- The feasible points are the beginnings of the nonnegative solutions without artificial
  variables. -/
  feasible_iff : ∀ x, p.Feasible x ↔ ∃ z, t.SolvedBy z ∧ (∀ v ∈ z, 0 ≤ v) ∧
    (∀ v ∈ t.artificialValues z, v = 0) ∧ z.take p.width = x
  dot_cost : ∀ z, t.SolvedBy z → Scalar.dot t.cost z
    = direction.sign * p.objective (z.take p.width) + t.bigM * (t.artificialValues z).sum
      - t.bigM * t.artificialRhs.sum
  height_eq : t.height = p.height
  rhs_nonneg : ∀ e ∈ t.equations, 0 ≤ e.rhs
  column_basic : ∀ v ∈ t.basis, t.columns[v.column]? = some v
  entry_basic : ∀ (i k : Nat) e f, t.equations[i]? = some e → t.equations[k]? = some f →
    f.entry e.basic.column = if k = i then 1 else 0
  cost_basic : ∀ e ∈ t.equations, t.cost.getD e.basic.column 0 = 0

/-- The start represents the program, and it is set up next to the program, of which nothing but the
solution of an earlier run is cleared. -/
theorem represents_augment {p : Program ℚ} (hwf : p.WellFormed) (direction : Direction) :
    (augment p direction).Represents p direction ∧
      ∀ (e : Engine ℚ) fuel, e.program = p →
        ((e.setup direction).tableau = some (augment p direction) ∧
          (e.setup direction).program = p.clearSolution) ∧
        (e.tableau = none → e.currentTableau = augment p p.direction ∧
          (e.solve fuel).2.program = p) := by
  have hshaped := shaped_augment hwf direction
  have hcanonical := canonical_augment hwf direction
  refine ⟨?_, ?_⟩
  · constructor
    · intro x
      constructor
      · exact exists_solvedBy_of_feasible hwf direction
      · rintro ⟨z, hsolved, hnonneg, hzero, rfl⟩
        exact feasible_of_solvedBy hwf hsolved hnonneg hzero
    · exact fun _ => dot_cost_of_solvedBy hwf
    · exact height_augment p direction
    · exact rhs_nonneg_augment p direction
    · exact hshaped.column_basic
    · exact fun _ _ _ _ => hcanonical.entry_basic
    · exact hcanonical.cost_basic
  · rintro e fuel rfl
    refine ⟨⟨rfl, rfl⟩, fun hnone => ⟨?_, Engine.solve_program fuel e⟩⟩
    unfold Engine.currentTableau
    rw [hnone, Option.getD_none]

/-- The point `(2, 1)` of `twoRows` extends to all columns, and at the vertex of the start the two
artificial variables make up for the rows. -/
theorem represents_twoRows :
    twoRows.Feasible [2, 1] ∧
      Scalar.dot (augment twoRows .maximize).cost [0, 0, 3, 0, 1] = 0 := by
  have hwf : twoRows.WellFormed := ⟨by decide, by decide, by decide, by decide⟩
  obtain ⟨hrepresents, -⟩ := represents_augment hwf .maximize
  constructor
  · refine (hrepresents.feasible_iff [2, 1]).mpr ⟨[2, 1, 0, 1, 0], ⟨rfl, ?_⟩, ?_, ?_, rfl⟩
    · decide +kernel
    · decide +kernel
    · decide +kernel
  · rw [hrepresents.dot_cost [0, 0, 3, 0, 1] ⟨rfl, by decide +kernel⟩]
    decide +kernel

end Tableau

end LinProg
