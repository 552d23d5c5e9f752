import LinProg.Proofs.Tableau.Basis

/-!
# The columns of a row

Behind the decision variables each row has a block of columns of its own, one block after the other.
A `≥` row has two of them, a surplus and an artificial variable, and they are opposite in every
equation: to raise both by the same amount changes nothing. So at most one of the two is basic.
-/

namespace LinProg.Tableau

/-! ### Places in the blocks -/

section Places

variable {α : Type}

/-- Every extra column belongs to the block of a row. -/
theorem exists_block {rows : List (Constraint α)} {j : Nat} (hj : j < extraCount rows) :
    ∃ above r below k, rows = above ++ r :: below ∧ k < r.relation.extraColumns ∧
      j = extraCount above + k := by
  induction rows generalizing j with
  | nil => exact absurd hj (Nat.not_lt_zero j)
  | cons r rows ih =>
      rw [extraCount] at hj
      by_cases hfirst : j < r.relation.extraColumns
      · exact ⟨[], r, rows, j, rfl, hfirst, (Nat.zero_add j).symm⟩
      · obtain ⟨above, s, below, k, rfl, hk, hplace⟩ :=
          ih (show j - r.relation.extraColumns < extraCount rows by omega)
        refine ⟨r :: above, s, below, k, rfl, hk, ?_⟩
        rw [extraCount]
        omega

/-- Two blocks are the same one, or one of them ends before the other begins. -/
theorem block_cases {above above' below below' : List (Constraint α)} {r r' : Constraint α}
    (hrows : above ++ r :: below = above' ++ r' :: below') :
    (r = r' ∧ extraCount above = extraCount above') ∨
      extraCount above + r.relation.extraColumns ≤ extraCount above' ∨
      extraCount above' + r'.relation.extraColumns ≤ extraCount above := by
  induction above generalizing above' with
  | nil =>
      cases above' with
      | nil => exact .inl ⟨(List.cons.inj hrows).1, rfl⟩
      | cons s above' =>
          obtain rfl : r = s := (List.cons.inj hrows).1
          exact .inr (.inl (by simp only [extraCount]; omega))
  | cons s above ih =>
      cases above' with
      | nil =>
          obtain rfl : s = r' := (List.cons.inj hrows).1
          exact .inr (.inr (by simp only [extraCount]; omega))
      | cons s' above' =>
          obtain rfl : s = s' := (List.cons.inj hrows).1
          simp only [extraCount]
          rcases ih (List.cons.inj hrows).2 with ⟨hsame, hplace⟩ | hbefore | hafter
          · exact .inl ⟨hsame, by omega⟩
          · exact .inr (.inl (by omega))
          · exact .inr (.inr (by omega))

variable [Scalar α]

theorem startEquation_mem_startEquations (before : Nat) (above below : List (Constraint α))
    (r : Constraint α) :
    startEquation (before + extraCount above) (extraCount below) r
      ∈ startEquations before (above ++ r :: below) := by
  induction above generalizing before with
  | nil => exact List.mem_cons_self
  | cons s above ih =>
      rw [List.cons_append, startEquations, extraCount, ← Nat.add_assoc]
      exact List.mem_cons_of_mem _ (ih _)

theorem columns_augment_block {p : Program α} (direction : Direction)
    {above below : List (Constraint α)} {r : Constraint α}
    (hrows : p.rows.map Constraint.normalised = above ++ r :: below) {k : Nat}
    (hk : k < r.relation.extraColumns) :
    (augment p direction).columns[p.width + extraCount above + k]?
      = r.relation.extraRoles[k]?.map fun role => ⟨role, p.width + extraCount above + k⟩ := by
  have hroles : (startRoles p.width (p.rows.map Constraint.normalised))[p.width
      + extraCount above + k]? = r.relation.extraRoles[k]? := by
    rw [startRoles, hrows, Nat.add_assoc, List.getElem?_append_right (by simp),
      List.length_replicate, Nat.add_sub_cancel_left]
    exact getElem?_flatten_extra Relation.length_extraRoles above below r hk
  rw [← hroles]
  exact getElem?_numbered _ _

end Places

/-! ### A surplus and its artificial variable -/

variable {p : Program ℚ} {direction : Direction} {above below : List (Constraint ℚ)}
  {r : Constraint ℚ}

/-- The columns of a `≥` row are opposite in each equation of the start. -/
theorem entry_surplus_add_artificial (hwf : p.WellFormed)
    (hrows : p.normalisedRows = above ++ r :: below) (hrelation : r.relation = .greaterEq)
    {e : Equation ℚ} (he : e ∈ (augment p direction).equations) :
    e.entry (p.width + extraCount above) + e.entry (p.width + extraCount above + 1) = 0 := by
  have hlengths := Program.row_length_normalised hwf
  obtain ⟨above', s, below', hsplit, rfl⟩ := exists_row_of_mem_startEquations he
  have hs : s.coefficients.length = p.width := hlengths s (by simp [hsplit])
  rw [Nat.zero_add, ← hs, Nat.add_assoc]
  rcases block_cases (hsplit.symm.trans hrows) with ⟨rfl, hsame⟩ | hbefore | hafter
  · have hown : ∀ k, (startEquation (extraCount above') (extraCount below') s).entry
        (s.coefficients.length + (extraCount above + k))
          = (s.relation.extraEntries ++ List.replicate (extraCount below') (0 : ℚ)).getD k 0 := by
      intro k
      rw [entry_startEquation, hsame, List.getD_append_right _ _ _ _ (by simp),
        List.length_replicate, Nat.add_sub_cancel_left]
    have hzero := hown 0
    rw [Nat.add_zero] at hzero
    rw [hzero, hown 1, hrelation]
    exact neg_add_cancel (1 : ℚ)
  · rw [entry_startEquation_right _ s hbefore, entry_startEquation_right _ s (by omega), add_zero]
  · rw [hrelation] at hafter
    have hlt : extraCount above + 1 < extraCount above' := hafter
    rw [entry_startEquation_left _ s (by omega), entry_startEquation_left _ s hlt, add_zero]

/-- A surplus and its artificial variable are not both basic. -/
theorem not_basic_artificial (hwf : p.WellFormed) {t : Tableau ℚ}
    (hderived : (augment p direction).Derived t) (hrows : p.normalisedRows = above ++ r :: below)
    (hrelation : r.relation = .greaterEq) {e f : Equation ℚ} (he : e ∈ t.equations)
    (hf : f ∈ t.equations) (hsurplus : e.basic.column = p.width + extraCount above) :
    f.basic.column ≠ p.width + extraCount above + 1 := by
  intro hartificial
  -- one unit of both columns can be added to any solution
  let both : Assignment := fun j => single (p.width + extraCount above) 1 j
    + single (p.width + extraCount above + 1) 1 j
  have hboth : ∀ weights : List ℚ, weigh weights both
      = weights.getD (p.width + extraCount above) 0
        + weights.getD (p.width + extraCount above + 1) 0 := by
    intro weights
    rw [weigh_add, weigh_single, weigh_single, mul_one, mul_one]
  have hvertex : (augment p direction).Solves t.vertex :=
    (hderived.solves_iff _).mp hderived.canonical.solves_vertex
  have hshifted : (augment p direction).Solves fun j => t.vertex j + both j := by
    intro g hg
    have hsum : weigh g.entries both = 0 :=
      (hboth g.entries).trans (entry_surplus_add_artificial hwf hrows hrelation hg)
    unfold Equation.Holds
    rw [weigh_add, hsum, add_zero]
    exact hvertex g hg
  have hsum : e.entry (p.width + extraCount above) + e.entry (p.width + extraCount above + 1) = 0 := by
    have hbefore := hderived.canonical.solves_vertex e he
    have hafter := (hderived.solves_iff _).mpr hshifted e he
    unfold Equation.Holds at hbefore hafter
    rw [weigh_add, hbefore, hboth] at hafter
    exact left_eq_add.mp hafter.symm
  obtain ⟨i, hi⟩ := List.mem_iff_getElem?.mp he
  obtain ⟨k, hk⟩ := List.mem_iff_getElem?.mp hf
  have hself := hderived.canonical.entry_basic hi hi
  have hother := hderived.canonical.entry_basic hk hi
  have hne : i ≠ k := by
    rintro rfl
    obtain rfl : e = f := Option.some.inj (hi.symm.trans hk)
    omega
  rw [hsurplus, if_pos rfl] at hself
  rw [hartificial, if_neg hne] at hother
  rw [hself, hother] at hsum
  norm_num at hsum

end LinProg.Tableau
