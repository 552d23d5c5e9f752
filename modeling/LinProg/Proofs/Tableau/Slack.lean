import LinProg.Proofs.Tableau.Blocks
import LinProg.Proofs.Tableau.Relaxation

/-!
# Points that are feasible but for a slack

With a tolerance a solver cannot promise that its rows hold, only that they hold up to a slack. What
a row is off by shows in its own columns, so a vertex is feasible up to a slack if no basic variable
is further below zero than that and no artificial one is further above. One kind of variable may be
anything below zero: an artificial variable that stands beside a surplus does the same for its row as
the surplus does above zero.
-/

namespace LinProg

/-- The relation holds once the right side gives way by the slack. -/
def Relation.HoldsWithin (slack : ℚ) : Relation → ℚ → ℚ → Prop
  | lessEq, left, right => left ≤ right + slack
  | equal, left, right => |left - right| ≤ slack
  | greaterEq, left, right => right - slack ≤ left

theorem Relation.holdsWithin_flipped_neg (slack : ℚ) (r : Relation) (left right : ℚ) :
    r.flipped.HoldsWithin slack (-left) (-right) ↔ r.HoldsWithin slack left right := by
  cases r with
  | lessEq =>
      show -right - slack ≤ -left ↔ left ≤ right + slack
      constructor <;> intro h <;> linarith
  | equal =>
      show |-left - -right| ≤ slack ↔ |left - right| ≤ slack
      rw [neg_sub_neg, abs_sub_comm]
  | greaterEq =>
      show -left ≤ -right + slack ↔ right - slack ≤ left
      constructor <;> intro h <;> linarith

/-- A surplus is the first column of a `≥` row. -/
theorem Relation.eq_greaterEq_of_surplus {r : Relation} {k : Nat}
    (hrole : r.extraRoles[k]? = some .surplus) : r = .greaterEq ∧ k = 0 := by
  cases r with
  | lessEq => rcases k with _ | k <;> simp [extraRoles] at hrole
  | equal => rcases k with _ | k <;> simp [extraRoles] at hrole
  | greaterEq => rcases k with _ | _ | k <;> simp [extraRoles] at hrole ⊢

def Constraint.SatisfiedWithin (slack : ℚ) (r : Constraint ℚ) (x : List ℚ) : Prop :=
  r.relation.HoldsWithin slack (Scalar.dot r.coefficients x) r.rhs

theorem Constraint.satisfiedWithin_normalised (slack : ℚ) (r : Constraint ℚ) (x : List ℚ) :
    r.normalised.SatisfiedWithin slack x ↔ r.SatisfiedWithin slack x :=
  normalised_iff (Relation.holdsWithin_flipped_neg slack) r x

structure Program.FeasibleWithin (p : Program ℚ) (slack : ℚ) (x : List ℚ) : Prop where
  length_eq : x.length = p.width
  nonneg : ∀ v ∈ x, -slack ≤ v
  satisfied : ∀ r ∈ p.rows, r.SatisfiedWithin slack x

/-- What the values of a row's own columns have to be if the row is to hold up to a slack. -/
def Relation.OwnWithin (slack : ℚ) : Relation → Assignment → Prop
  | lessEq, y => -slack ≤ y 0
  | equal, y => |y 0| ≤ slack
  | greaterEq, y => y 1 - y 0 ≤ slack

theorem Constraint.satisfiedWithin_iff_own {slack : ℚ} {r : Constraint ℚ} {x : List ℚ}
    {y : Assignment}
    (hequation : Scalar.dot r.coefficients x + weigh r.relation.extraEntries y = r.rhs) :
    r.SatisfiedWithin slack x ↔ r.relation.OwnWithin slack y := by
  unfold SatisfiedWithin
  rw [← hequation]
  cases r.relation with
  | lessEq =>
      show Scalar.dot r.coefficients x ≤ Scalar.dot r.coefficients x + (1 * y 0 + 0) + slack
        ↔ -slack ≤ y 0
      constructor <;> intro h <;> linarith
  | equal =>
      have hdifference : Scalar.dot r.coefficients x
          - (Scalar.dot r.coefficients x + (1 * y 0 + 0)) = -y 0 := by ring
      show |Scalar.dot r.coefficients x - (Scalar.dot r.coefficients x + (1 * y 0 + 0))| ≤ slack
        ↔ |y 0| ≤ slack
      rw [hdifference, abs_neg]
  | greaterEq =>
      show Scalar.dot r.coefficients x + (-1 * y 0 + (1 * y (0 + 1) + 0)) - slack
          ≤ Scalar.dot r.coefficients x ↔ y 1 - y 0 ≤ slack
      rw [zero_add]
      constructor <;> intro h <;> linarith

namespace Tableau

/-- An artificial variable that stands beside the surplus of its row. -/
def BesideSurplus (t : Tableau ℚ) (v : Variable) : Prop :=
  v.role = .artificial ∧ ∃ u ∈ t.columns, u.role = .surplus ∧ v.column = u.column + 1

/-- No basic variable is below the bound but for artificial ones beside a surplus. -/
def RhsAtLeast (t : Tableau ℚ) (bound : ℚ) : Prop :=
  ∀ e ∈ t.equations, bound ≤ e.rhs ∨ t.BesideSurplus e.basic

section Vertex

variable {p : Program ℚ} {direction : Direction} {t : Tableau ℚ} {slack : ℚ}
  {above below : List (Constraint ℚ)} {r : Constraint ℚ}

theorem satisfiedWithin_block (hwf : p.WellFormed) {z : Assignment}
    (hsolves : (augment p direction).Solves z)
    (hrows : p.normalisedRows = above ++ r :: below) :
    r.SatisfiedWithin slack (firstValues p.width z)
      ↔ r.relation.OwnWithin slack fun j => z (p.width + extraCount above + j) := by
  have hr : r.coefficients.length = p.width :=
    Program.row_length_normalised hwf r (by
      show r ∈ p.normalisedRows
      simp [hrows])
  have hmem : startEquation (extraCount above) (extraCount below) r
      ∈ (augment p direction).equations := by
    have hstart := startEquation_mem_startEquations 0 above below r
    rw [← hrows, Nat.zero_add] at hstart
    exact hstart
  have hequation := (holds_startEquation _ _ r z).mp (hsolves _ hmem)
  rw [hr, ← dot_firstValues hr z] at hequation
  exact Constraint.satisfiedWithin_iff_own hequation

/-- The rows hold up to a slack exactly if their own columns say so. -/
theorem satisfiedWithin_iff_blocks (hwf : p.WellFormed) {z : Assignment}
    (hsolves : (augment p direction).Solves z) :
    (∀ r ∈ p.rows, r.SatisfiedWithin slack (firstValues p.width z)) ↔
      ∀ above r below, p.normalisedRows = above ++ r :: below →
        r.relation.OwnWithin slack fun j => z (p.width + extraCount above + j) := by
  constructor
  · intro hsatisfied above r below hrows
    have hr : r ∈ p.normalisedRows := by simp [hrows]
    obtain ⟨s, hs, rfl⟩ := List.mem_map.mp hr
    rw [← satisfiedWithin_block hwf hsolves hrows, Constraint.satisfiedWithin_normalised]
    exact hsatisfied s hs
  · intro hown r hr
    obtain ⟨above, below, hrows⟩ := List.append_of_mem
      (show r.normalised ∈ p.normalisedRows from List.mem_map_of_mem hr)
    rw [← Constraint.satisfiedWithin_normalised, satisfiedWithin_block hwf hsolves hrows]
    exact hown above r.normalised below hrows

theorem role_block (hderived : (augment p direction).Derived t)
    (hrows : p.normalisedRows = above ++ r :: below) {k : Nat} {role : Role}
    (hrole : r.relation.extraRoles[k]? = some role) {e : Equation ℚ} (he : e ∈ t.equations)
    (hcolumn : e.basic.column = p.width + extraCount above + k) : e.basic.role = role := by
  have hk : k < r.relation.extraColumns := by
    rw [← Relation.length_extraRoles]
    exact (List.getElem?_eq_some_iff.mp hrole).1
  have hbasic := hderived.shaped.column_basic _ (basic_mem_basis he)
  rw [hderived.columns_eq, hcolumn, columns_augment_block direction hrows hk, hrole] at hbasic
  exact congrArg Variable.role (Option.some.inj hbasic).symm

/-- A column that holds a surplus is the first one of a `≥` row. -/
theorem exists_row_of_surplus (hderived : (augment p direction).Derived t) {u : Variable}
    (hu : u ∈ t.columns) (hsurplus : u.role = .surplus) :
    ∃ above r below, p.normalisedRows = above ++ r :: below ∧ r.relation = .greaterEq ∧
      u.column = p.width + extraCount above := by
  obtain ⟨j, hj⟩ := List.mem_iff_getElem?.mp hu
  have hcolumn := hderived.shaped.column_eq j u hj
  have hcount : t.decisionCount = p.width := hderived.decisionCount_eq
  have hwidth : j < p.width + extraCount p.normalisedRows := by
    have hlt : j < t.columns.length := (List.getElem?_eq_some_iff.mp hj).1
    rw [hderived.columns_eq] at hlt
    exact lt_of_lt_of_eq hlt (width_augment p direction)
  have hle : p.width ≤ j := by
    by_contra hlt
    have hdecision := (hderived.shaped.decision_iff j u hj).mpr (by omega)
    rw [hsurplus] at hdecision
    cases hdecision
  obtain ⟨above, r, below, k, hrows, hk, hplace⟩ :=
    exists_block (show j - p.width < extraCount p.normalisedRows by omega)
  obtain rfl : j = p.width + extraCount above + k := by omega
  rw [hderived.columns_eq, columns_augment_block direction hrows hk] at hj
  obtain ⟨role, hrole, rfl⟩ := Option.map_eq_some_iff.mp hj
  obtain rfl : role = .surplus := hsurplus
  obtain ⟨hrelation, rfl⟩ := Relation.eq_greaterEq_of_surplus hrole
  exact ⟨above, r, below, hrows, hrelation, rfl⟩

theorem besideSurplus_iff_block (hderived : (augment p direction).Derived t)
    (hrows : p.normalisedRows = above ++ r :: below) {k : Nat}
    (hk : k < r.relation.extraColumns) {e : Equation ℚ} (he : e ∈ t.equations)
    (hcolumn : e.basic.column = p.width + extraCount above + k) :
    t.BesideSurplus e.basic ↔ r.relation = .greaterEq ∧ k = 1 := by
  constructor
  · rintro ⟨-, u, hu, hsurplus, hnext⟩
    obtain ⟨above', r', below', hrows', hrelation', hplace⟩ :=
      exists_row_of_surplus hderived hu hsurplus
    rcases block_cases (hrows.symm.trans hrows') with ⟨rfl, hsame⟩ | hbefore | hafter
    · exact ⟨hrelation', by omega⟩
    · omega
    · rw [hrelation'] at hafter
      have hlt : extraCount above' + 2 ≤ extraCount above := hafter
      omega
  · rintro ⟨hrelation, rfl⟩
    have hrole : e.basic.role = .artificial :=
      role_block hderived hrows (by rw [hrelation]; rfl) he hcolumn
    have hsurplus : t.columns[p.width + extraCount above + 0]?
        = some ⟨.surplus, p.width + extraCount above⟩ := by
      rw [hderived.columns_eq, columns_augment_block direction hrows (by omega), hrelation]
      rfl
    exact ⟨hrole, _, List.mem_of_getElem? hsurplus, rfl, hcolumn⟩

theorem le_vertex (hcanonical : t.Canonical) (hslack : 0 ≤ slack) (hrhs : t.RhsAtLeast (-slack))
    {j : Nat} (hbeside : ∀ e ∈ t.equations, e.basic.column = j → ¬ t.BesideSurplus e.basic) :
    -slack ≤ t.vertex j := by
  by_cases hbasic : ∃ e ∈ t.equations, e.basic.column = j
  · obtain ⟨e, he, rfl⟩ := hbasic
    rw [hcanonical.isBasicPoint_vertex.eq_rhs e he]
    exact (hrhs e he).resolve_right (hbeside e he rfl)
  · push Not at hbasic
    rw [hcanonical.isBasicPoint_vertex.eq_zero j hbasic]
    exact neg_nonpos.mpr hslack

theorem vertex_le (hcanonical : t.Canonical) (hslack : 0 ≤ slack)
    (hartificial : ∀ e ∈ t.equations, e.basic.isArtificial → e.rhs ≤ slack) {j : Nat}
    (hrole : ∀ e ∈ t.equations, e.basic.column = j → e.basic.role = .artificial) :
    t.vertex j ≤ slack := by
  by_cases hbasic : ∃ e ∈ t.equations, e.basic.column = j
  · obtain ⟨e, he, rfl⟩ := hbasic
    rw [hcanonical.isBasicPoint_vertex.eq_rhs e he]
    exact hartificial e he (decide_eq_true (hrole e he rfl))
  · push Not at hbasic
    rw [hcanonical.isBasicPoint_vertex.eq_zero j hbasic]
    exact hslack

/-- The values of a row's own columns, read off the right sides. -/
theorem ownWithin_vertex (hwf : p.WellFormed) (hderived : (augment p direction).Derived t)
    (hslack : 0 ≤ slack)
    (hartificial : ∀ e ∈ t.equations, e.basic.isArtificial → e.rhs ≤ slack)
    (hrhs : t.RhsAtLeast (-slack)) (hrows : p.normalisedRows = above ++ r :: below) :
    r.relation.OwnWithin slack fun j => t.vertex (p.width + extraCount above + j) := by
  have hcanonical := hderived.canonical
  have hzero : -slack ≤ t.vertex (p.width + extraCount above + 0) := by
    refine le_vertex hcanonical hslack hrhs fun e he hcolumn hbeside => ?_
    have hpos := extraColumns_pos r.relation
    have hone := ((besideSurplus_iff_block hderived hrows hpos he hcolumn).mp hbeside).2
    exact absurd hone Nat.zero_ne_one
  cases hrelation : r.relation with
  | lessEq => exact hzero
  | equal =>
      have hle : t.vertex (p.width + extraCount above + 0) ≤ slack :=
        vertex_le hcanonical hslack hartificial fun e he hcolumn =>
          role_block hderived hrows (by rw [hrelation]; rfl) he hcolumn
      exact abs_le.mpr ⟨hzero, hle⟩
  | greaterEq =>
      show t.vertex (p.width + extraCount above + 1)
        - t.vertex (p.width + extraCount above) ≤ slack
      have hle : t.vertex (p.width + extraCount above + 1) ≤ slack :=
        vertex_le hcanonical hslack hartificial fun e he hcolumn =>
          role_block hderived hrows (by rw [hrelation]; rfl) he hcolumn
      -- one of the two is zero
      by_cases hbasic : ∃ e ∈ t.equations, e.basic.column = p.width + extraCount above
      · obtain ⟨e, he, hsurplus⟩ := hbasic
        have hother := hcanonical.isBasicPoint_vertex.eq_zero (p.width + extraCount above + 1)
          fun f hf => not_basic_artificial hwf hderived hrows hrelation he hf hsurplus
        rw [Nat.add_zero] at hzero
        rw [hother]
        linarith
      · push Not at hbasic
        have hself := hcanonical.isBasicPoint_vertex.eq_zero _ hbasic
        rw [hself, sub_zero]
        exact hle

theorem rhs_of_ownWithin (hwf : p.WellFormed) (hderived : (augment p direction).Derived t)
    (hrows : p.normalisedRows = above ++ r :: below) {k : Nat} (hk : k < r.relation.extraColumns)
    (hown : r.relation.OwnWithin slack fun j => t.vertex (p.width + extraCount above + j))
    {e : Equation ℚ} (he : e ∈ t.equations)
    (hcolumn : e.basic.column = p.width + extraCount above + k) :
    -slack ≤ e.rhs ∨ t.BesideSurplus e.basic := by
  have hvertex := hderived.canonical.isBasicPoint_vertex
  have hvalue : t.vertex (p.width + extraCount above + k) = e.rhs := by
    rw [← hcolumn]
    exact hvertex.eq_rhs e he
  by_cases hbeside : r.relation = .greaterEq ∧ k = 1
  · exact .inr ((besideSurplus_iff_block hderived hrows hk he hcolumn).mpr hbeside)
  · left
    rw [← hvalue]
    cases hrelation : r.relation with
    | lessEq =>
        rw [hrelation] at hk hown
        obtain rfl : k = 0 := Nat.lt_one_iff.mp hk
        exact hown
    | equal =>
        rw [hrelation] at hk hown
        obtain rfl : k = 0 := Nat.lt_one_iff.mp hk
        exact (abs_le.mp hown).1
    | greaterEq =>
        have htwo : k < 2 := by rwa [hrelation] at hk
        obtain rfl : k = 0 := by
          have hne : k ≠ 1 := fun hone => hbeside ⟨hrelation, hone⟩
          omega
        have hother := hvertex.eq_zero (p.width + extraCount above + 1)
          fun f hf => not_basic_artificial hwf hderived hrows hrelation he hf hcolumn
        rw [hrelation] at hown
        have hdifference : t.vertex (p.width + extraCount above + 1)
            - t.vertex (p.width + extraCount above + 0) ≤ slack := hown
        rw [hother] at hdifference
        linarith

/-- A vertex with small artificial variables is feasible up to a slack exactly if no right side is
further below zero than that. -/
theorem feasibleWithin_vertex_iff (hwf : p.WellFormed) (hderived : (augment p direction).Derived t)
    (hslack : 0 ≤ slack)
    (hartificial : ∀ e ∈ t.equations, e.basic.isArtificial → e.rhs ≤ slack) :
    p.FeasibleWithin slack (firstValues p.width t.vertex) ↔ t.RhsAtLeast (-slack) := by
  have hcanonical := hderived.canonical
  have hcount : t.decisionCount = p.width := hderived.decisionCount_eq
  have hsolves : (augment p direction).Solves t.vertex :=
    (hderived.solves_iff _).mp hcanonical.solves_vertex
  constructor
  · intro hfeasible e he
    have hcolumn := hderived.shaped.column_basic _ (basic_mem_basis he)
    by_cases hdecision : e.basic.column < p.width
    · left
      rw [← hcanonical.isBasicPoint_vertex.eq_rhs e he]
      exact hfeasible.nonneg _ (List.mem_map.mpr ⟨_, List.mem_range.mpr hdecision, rfl⟩)
    · have hwidth : e.basic.column < p.width + extraCount p.normalisedRows := by
        have hlt := (List.getElem?_eq_some_iff.mp hcolumn).1
        rw [hderived.columns_eq] at hlt
        exact lt_of_lt_of_eq hlt (width_augment p direction)
      obtain ⟨above, r, below, k, hrows, hk, hplace⟩ :=
        exists_block (show e.basic.column - p.width < extraCount p.normalisedRows by omega)
      have hown := (satisfiedWithin_iff_blocks hwf hsolves).mp hfeasible.satisfied above r below hrows
      exact rhs_of_ownWithin hwf hderived hrows hk hown he (by omega)
  · intro hrhs
    refine ⟨length_firstValues _ _, ?_, ?_⟩
    · intro v hv
      obtain ⟨j, hj, rfl⟩ := List.mem_map.mp hv
      refine le_vertex hcanonical hslack hrhs fun e he hcolumn hbeside => ?_
      have hdecision := (hderived.shaped.basic_decision_iff he).mpr (by
        rw [hcolumn, hcount]
        exact List.mem_range.mp hj)
      rw [hbeside.1] at hdecision
      cases hdecision
    · rw [satisfiedWithin_iff_blocks hwf hsolves]
      intro above r below hrows
      exact ownWithin_vertex hwf hderived hslack hartificial hrhs hrows

end Vertex

end Tableau

end LinProg
