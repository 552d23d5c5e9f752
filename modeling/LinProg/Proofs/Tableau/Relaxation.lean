import LinProg.Proofs.Tableau.Start

/-!
# The solutions of the start

The nonnegative solutions of the starting equations are the relaxed points of the program: the
first columns hold the point, and the artificial variables hold what the rows fall short by. Up to
a constant their cost is the penalised one, since `M` times the right sides of the artificial rows
has been taken out of the cost row.
-/

namespace LinProg

namespace Relation

/-- What a row falls short by, from the values of its own columns. -/
def shortfall : Relation → Assignment → ℚ
  | lessEq, _ => 0
  | equal, y => y 0
  | greaterEq, y => y 1

/-- Values for a row's own columns, if the left side is `missing` away from the right side and falls
short by `shortfall`. -/
def ownValues : Relation → ℚ → ℚ → List ℚ
  | lessEq, missing, _ => [missing]
  | equal, _, shortfall => [shortfall]
  | greaterEq, missing, shortfall => [shortfall - missing, shortfall]

@[simp]
theorem length_ownValues (r : Relation) (missing shortfall : ℚ) :
    (r.ownValues missing shortfall).length = r.extraColumns := by
  cases r <;> rfl

theorem shortfall_ownValues (r : Relation) {missing shortfall : ℚ} (rest : List ℚ)
    (hlessEq : r = .lessEq → shortfall = 0) :
    r.shortfall (listed (r.ownValues missing shortfall ++ rest)) = shortfall := by
  cases r with
  | lessEq => exact (hlessEq rfl).symm
  | equal => rfl
  | greaterEq => rfl

end Relation

namespace Constraint

variable {r : Constraint ℚ} {x : List ℚ}

theorem holdsShort_shortfall {y : Assignment} (hy : ∀ j, 0 ≤ y j)
    (hequation : Scalar.dot r.coefficients x + weigh r.relation.extraEntries y = r.rhs) :
    r.HoldsShort x (r.relation.shortfall y) := by
  have hzero := hy 0
  have hone := hy 1
  cases hrelation : r.relation with
  | lessEq =>
      rw [hrelation] at hequation
      simp only [Relation.extraEntries, weigh_cons, weigh_nil] at hequation
      refine ⟨le_refl 0, fun _ => rfl, ?_⟩
      rw [hrelation]
      show Scalar.dot r.coefficients x + 0 ≤ r.rhs
      linarith
  | equal =>
      rw [hrelation] at hequation
      simp only [Relation.extraEntries, weigh_cons, weigh_nil] at hequation
      refine ⟨hzero, fun hlessEq => by simp [hrelation] at hlessEq, ?_⟩
      rw [hrelation]
      show Scalar.dot r.coefficients x + y 0 = r.rhs
      linarith
  | greaterEq =>
      rw [hrelation] at hequation
      simp only [Relation.extraEntries, weigh_cons, weigh_nil] at hequation
      refine ⟨hone, fun hlessEq => by simp [hrelation] at hlessEq, ?_⟩
      rw [hrelation]
      show r.rhs ≤ Scalar.dot r.coefficients x + y 1
      simp only [zero_add] at hequation
      linarith

theorem ownValues_nonneg {s : ℚ} (h : r.HoldsShort x s) :
    ∀ v ∈ r.relation.ownValues (r.rhs - Scalar.dot r.coefficients x) s, 0 ≤ v := by
  obtain ⟨hnonneg, hlessEq, hholds⟩ := h
  cases hrelation : r.relation with
  | lessEq =>
      rw [hrelation, hlessEq hrelation, add_zero] at hholds
      have hle : Scalar.dot r.coefficients x ≤ r.rhs := hholds
      simpa [Relation.ownValues] using hle
  | equal => simpa [Relation.ownValues] using hnonneg
  | greaterEq =>
      rw [hrelation] at hholds
      have hle : r.rhs ≤ Scalar.dot r.coefficients x + s := hholds
      simp only [Relation.ownValues, List.mem_cons, List.not_mem_nil, or_false, forall_eq_or_imp,
        forall_eq]
      exact ⟨by linarith, hnonneg⟩

theorem weigh_ownValues {s : ℚ} (h : r.HoldsShort x s) (rest : List ℚ) :
    weigh r.relation.extraEntries
        (listed (r.relation.ownValues (r.rhs - Scalar.dot r.coefficients x) s ++ rest))
      = r.rhs - Scalar.dot r.coefficients x := by
  have hholds := h.holds
  cases hrelation : r.relation with
  | lessEq => simp [Relation.extraEntries, Relation.ownValues, listed]
  | equal =>
      rw [hrelation] at hholds
      have heq : Scalar.dot r.coefficients x + s = r.rhs := hholds
      have hvalue : weigh Relation.equal.extraEntries (listed (Relation.equal.ownValues
          (r.rhs - Scalar.dot r.coefficients x) s ++ rest)) = s := by
        simp [Relation.extraEntries, Relation.ownValues, listed]
      rw [hvalue]
      exact eq_sub_of_add_eq' heq
  | greaterEq => simp [Relation.extraEntries, Relation.ownValues, listed]

end Constraint

namespace Tableau

/-- What each row falls short by, from the values of the extra columns. -/
def shortfalls : List (Constraint ℚ) → Assignment → List ℚ
  | [], _ => []
  | r :: rows, y =>
    r.relation.shortfall y :: shortfalls rows fun j => y (r.relation.extraColumns + j)

theorem holds_startEquation (before after : Nat) (r : Constraint ℚ) (z : Assignment) :
    (startEquation before after r).Holds z ↔
      weigh r.coefficients z
        + weigh r.relation.extraEntries (fun j => z (r.coefficients.length + before + j))
          = r.rhs := by
  unfold Equation.Holds startEquation
  simp only [weigh_append, weigh_replicate_zero, List.length_append, List.length_replicate,
    add_zero]

/-- The columns after a row's own ones are those of the rows below. -/
theorem values_after_own (n before own : Nat) (z : Assignment) :
    (fun j => z (n + before + (own + j))) = fun j => z (n + (before + own) + j) := by
  funext j
  congr 1
  omega

section Rows

variable {n : Nat} {rows : List (Constraint ℚ)}

theorem holdsShort_of_solves (before : Nat) (hrows : ∀ r ∈ rows, r.coefficients.length = n)
    {z : Assignment} (hz : ∀ j, 0 ≤ z j) (hsolves : ∀ e ∈ startEquations before rows, e.Holds z) :
    List.Forall₂ (fun r s => r.HoldsShort (firstValues n z) s) rows
      (shortfalls rows fun j => z (n + before + j)) := by
  induction rows generalizing before with
  | nil => exact .nil
  | cons r rows ih =>
      obtain ⟨hr, hrows⟩ := List.forall_mem_cons.mp hrows
      rw [startEquations] at hsolves
      obtain ⟨hhead, htail⟩ := List.forall_mem_cons.mp hsolves
      rw [holds_startEquation, hr, ← dot_firstValues hr z] at hhead
      rw [shortfalls, values_after_own]
      exact .cons (Constraint.holdsShort_shortfall (fun j => hz _) hhead) (ih _ hrows htail)

/-- Any shortfalls that the rows allow come from some values of the extra columns. -/
theorem exists_values_of_holdsShort {x s : List ℚ}
    (hrows : ∀ r ∈ rows, r.coefficients.length = n)
    (hshort : List.Forall₂ (fun r s => r.HoldsShort x s) rows s) :
    ∃ ys : List ℚ, (∀ y ∈ ys, 0 ≤ y) ∧ shortfalls rows (listed ys) = s ∧
      ∀ before z, firstValues n z = x → (∀ j, z (n + before + j) = listed ys j) →
        ∀ e ∈ startEquations before rows, e.Holds z := by
  induction hshort with
  | nil => exact ⟨[], by simp, rfl, fun _ _ _ _ e he => by simp [startEquations] at he⟩
  | @cons r s rows ss hhead _ ih =>
      obtain ⟨hr, hrows⟩ := List.forall_mem_cons.mp hrows
      obtain ⟨ys, hys, hshortfalls, hsolves⟩ := ih hrows
      let own := r.relation.ownValues (r.rhs - Scalar.dot r.coefficients x) s
      have hown : own.length = r.relation.extraColumns := Relation.length_ownValues _ _ _
      have hrest : ∀ j, listed (own ++ ys) (r.relation.extraColumns + j) = listed ys j := by
        intro j
        rw [← hown]
        exact listed_append_add own ys j
      refine ⟨own ++ ys, ?_, ?_, ?_⟩
      · intro y hy
        rcases List.mem_append.mp hy with hy | hy
        · exact Constraint.ownValues_nonneg hhead y hy
        · exact hys y hy
      · rw [shortfalls, Relation.shortfall_ownValues _ _ hhead.eq_zero]
        simp only [hrest]
        exact congrArg _ hshortfalls
      · intro before z hfirst hvalues e he
        rw [startEquations] at he
        rcases List.mem_cons.mp he with rfl | he
        · have hblock : (fun j => z (n + before + j)) = listed (own ++ ys) := funext hvalues
          rw [holds_startEquation, ← dot_firstValues hr, hr, hfirst, hblock,
            Constraint.weigh_ownValues hhead]
          ring
        · refine hsolves _ z hfirst (fun j => ?_) e he
          have hcolumn : n + (before + r.relation.extraColumns) + j
              = n + before + (r.relation.extraColumns + j) := by omega
          rw [hcolumn, hvalues, hrest]

theorem weigh_artificial (rows : List (Constraint ℚ)) (y : Assignment) :
    weigh ((rows.map (·.relation.extraRoles)).flatten.map fun role =>
        if role = .artificial then 1 else 0) y = (shortfalls rows y).sum := by
  induction rows generalizing y with
  | nil => rfl
  | cons r rows ih =>
      rw [List.map_cons, List.flatten_cons, List.map_append, weigh_append, List.length_map,
        Relation.length_extraRoles, ih, shortfalls, List.sum_cons]
      congr 1
      cases r.relation <;> simp [Relation.extraRoles, Relation.shortfall]

/-- `M` times the right sides of the rows that need an artificial variable. -/
def takenOut (bigM : ℚ) (rows : List (Constraint ℚ)) : ℚ :=
  (rows.map fun r => if r.relation.needsArtificial then bigM * r.rhs else 0).sum

theorem takenOut_cons (bigM : ℚ) (r : Constraint ℚ) (rows : List (Constraint ℚ)) :
    takenOut bigM (r :: rows)
      = (if r.relation.needsArtificial then bigM * r.rhs else 0) + takenOut bigM rows :=
  List.sum_cons

theorem weigh_reduceCost (bigM : ℚ) {cost : List ℚ} {r : Constraint ℚ}
    (hlength : r.coefficients.length = cost.length) (z : Assignment) :
    weigh (reduceCost bigM cost r) z
      = weigh cost z - if r.relation.needsArtificial then bigM * weigh r.coefficients z else 0 := by
  unfold reduceCost
  split
  · rw [← weigh_subtractMultiple bigM hlength]
    unfold subtractMultiple
    simp only [mul_comm]
  · rw [sub_zero]

/-- On solutions, the cost row of one row and its own columns is `M` times its shortfall. -/
theorem weigh_extraCosts (bigM : ℚ) {r : Constraint ℚ} {left : ℚ} {y : Assignment}
    (hequation : left + weigh r.relation.extraEntries y = r.rhs) :
    weigh (r.relation.extraCosts bigM) y
        - (if r.relation.needsArtificial then bigM * left else 0)
      = bigM * r.relation.shortfall y
        - if r.relation.needsArtificial then bigM * r.rhs else 0 := by
  rw [← hequation]
  cases r.relation with
  | lessEq => simp [Relation.extraCosts, Relation.shortfall, Relation.needsArtificial]
  | equal =>
      show (0 * y 0 + 0) - bigM * left = bigM * y 0 - bigM * (left + (1 * y 0 + 0))
      ring
  | greaterEq =>
      show (bigM * y 0 + (0 * y (0 + 1) + 0)) - bigM * left
        = bigM * y 1 - bigM * (left + (-1 * y 0 + (1 * y (0 + 1) + 0)))
      ring

theorem weigh_cost_of_solves (bigM : ℚ) (before : Nat)
    (hrows : ∀ r ∈ rows, r.coefficients.length = n) {cost : List ℚ} (hcost : cost.length = n)
    {z : Assignment} (hsolves : ∀ e ∈ startEquations before rows, e.Holds z) :
    weigh (rows.foldl (reduceCost bigM) cost) z
        + weigh (rows.map (·.relation.extraCosts bigM)).flatten (fun j => z (n + before + j))
      = weigh cost z + bigM * (shortfalls rows fun j => z (n + before + j)).sum
        - takenOut bigM rows := by
  induction rows generalizing before cost with
  | nil => simp [shortfalls, takenOut]
  | cons r rows ih =>
      obtain ⟨hr, hrows⟩ := List.forall_mem_cons.mp hrows
      rw [startEquations] at hsolves
      obtain ⟨hhead, htail⟩ := List.forall_mem_cons.mp hsolves
      rw [holds_startEquation, hr] at hhead
      have hown := weigh_extraCosts bigM hhead
      have hreduced : (reduceCost bigM cost r).length = n := by
        rw [length_reduceCost bigM (hr.trans hcost.symm), hcost]
      have hrest := ih (before + r.relation.extraColumns) hrows hreduced htail
      rw [weigh_reduceCost bigM (hr.trans hcost.symm)] at hrest
      rw [List.foldl_cons, List.map_cons, List.flatten_cons, weigh_append,
        Relation.length_extraCosts, shortfalls, List.sum_cons, values_after_own, takenOut_cons]
      -- the shares of this row and of the rows below it
      linarith

end Rows

/-! ### The start of a program -/

section Start

variable {p : Program ℚ} {direction : Direction}

/-- What the rows of a program fall short by, from the values of all columns. -/
def shortfallsAt (p : Program ℚ) (z : Assignment) : List ℚ :=
  shortfalls p.normalisedRows fun j => z (p.width + j)

theorem relaxed_of_solves (hwf : p.WellFormed) {z : Assignment} (hz : ∀ j, 0 ≤ z j)
    (hsolves : (augment p direction).Solves z) :
    p.Relaxed (firstValues p.width z) (shortfallsAt p z) where
  length_eq := length_firstValues _ _
  nonneg := firstValues_nonneg hz _
  holdsShort := holdsShort_of_solves 0 (Program.row_length_normalised hwf) hz hsolves

theorem exists_solves_of_relaxed (hwf : p.WellFormed) (direction : Direction) {x s : List ℚ}
    (h : p.Relaxed x s) :
    ∃ z, (augment p direction).Solves z ∧ (∀ j, 0 ≤ z j) ∧ firstValues p.width z = x ∧
      shortfallsAt p z = s := by
  obtain ⟨ys, hys, hshortfalls, hsolves⟩ :=
    exists_values_of_holdsShort (Program.row_length_normalised hwf) h.holdsShort
  have hfirst : firstValues p.width (listed (x ++ ys)) = x := by
    rw [← h.length_eq]
    exact firstValues_listed_append x ys
  have hvalues : ∀ j, listed (x ++ ys) (p.width + j) = listed ys j := by
    intro j
    rw [← h.length_eq]
    exact listed_append_add x ys j
  refine ⟨listed (x ++ ys), hsolves 0 _ hfirst hvalues, listed_nonneg fun v hv => ?_, hfirst, ?_⟩
  · rcases List.mem_append.mp hv with hv | hv
    · exact h.nonneg v hv
    · exact hys v hv
  · unfold shortfallsAt
    simp only [hvalues]
    exact hshortfalls

theorem shortage_augment (p : Program ℚ) (direction : Direction) (z : Assignment) :
    (augment p direction).shortage z = (shortfallsAt p z).sum := by
  have hcolumns : (augment p direction).columns.map (fun v => if v.isArtificial then (1 : ℚ) else 0)
      = (startRoles p.width p.normalisedRows).map fun role =>
          if role = .artificial then 1 else 0 := by
    apply List.ext_getElem?
    intro j
    have hj : (augment p direction).columns[j]?
        = (startRoles p.width p.normalisedRows)[j]?.map fun role => ⟨role, j⟩ :=
      getElem?_numbered _ j
    rw [List.getElem?_map, List.getElem?_map, hj, Option.map_map]
    congr 1
    funext role
    simp [Variable.isArtificial]
  have hdecisions : (List.replicate p.width Role.decision).map
      (fun role => if role = .artificial then (1 : ℚ) else 0) = List.replicate p.width 0 := by simp
  unfold shortage
  rw [hcolumns, startRoles, List.map_append, hdecisions, weigh_append, weigh_replicate_zero,
    zero_add, List.length_replicate, weigh_artificial]
  rfl

theorem weigh_signedCosts (direction : Direction) (costs : List ℚ) (z : Assignment) :
    weigh (signedCosts direction costs) z = direction.costOf (weigh costs z) := by
  cases direction with
  | minimize => rfl
  | maximize => exact weigh_map_neg costs z

theorem cost_augment (p : Program ℚ) (direction : Direction) :
    (augment p direction).cost
      = p.normalisedRows.foldl (reduceCost (bigMOf p.normalisedRows p.costs))
          (signedCosts direction p.costs)
        ++ (p.normalisedRows.map
            (·.relation.extraCosts (bigMOf p.normalisedRows p.costs))).flatten := rfl

theorem weigh_cost_augment (hwf : p.WellFormed) {z : Assignment}
    (hsolves : (augment p direction).Solves z) :
    weigh (augment p direction).cost z
      = p.penalisedCost direction (firstValues p.width z) (shortfallsAt p z)
        - takenOut (bigMOf p.normalisedRows p.costs) p.normalisedRows := by
  have hrows : ∀ r ∈ p.normalisedRows, r.coefficients.length = p.width :=
    Program.row_length_normalised hwf
  have hcosts : p.costs.length = p.width := List.length_map _
  have hlength : (p.normalisedRows.foldl (reduceCost (bigMOf p.normalisedRows p.costs))
      (signedCosts direction p.costs)).length = p.width := length_decisionCosts hwf _ direction
  have hcost := weigh_cost_of_solves (bigMOf p.normalisedRows p.costs) 0 hrows
    (length_signedCosts_costs p direction) hsolves
  unfold Program.penalisedCost Program.objective shortfallsAt
  rw [cost_augment, weigh_append, hlength, dot_firstValues hcosts, ← weigh_signedCosts]
  exact hcost

end Start

end Tableau

end LinProg
