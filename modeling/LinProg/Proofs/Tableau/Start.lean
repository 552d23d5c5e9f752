import LinProg.Proofs.Optimality
import LinProg.Proofs.Tableau.Run

/-!
# The start in exact arithmetic

Each row has a block of columns of its own, and all other rows are zero there. The last column of
the block is the basic one: its entry is one and its reduced cost is zero. So the start is canonical,
and as the normalised right sides are not negative, exact runs can begin there.
-/

namespace LinProg.Tableau

theorem entry_startEquation (before after : Nat) (r : Constraint ℚ) (j : Nat) :
    (startEquation before after r).entry (r.coefficients.length + j)
      = (List.replicate before (0 : ℚ)
          ++ (r.relation.extraEntries ++ List.replicate after 0)).getD j 0 := by
  have hentries : (startEquation before after r).entries = r.coefficients
      ++ (List.replicate before 0
        ++ (r.relation.extraEntries ++ List.replicate after 0)) := by
    simp [startEquation]
  rw [Equation.entry, hentries, List.getD_append_right _ _ _ _ (by omega),
    Nat.add_sub_cancel_left]

/-- A row is zero in the columns that belong to the rows above it. -/
theorem entry_startEquation_left {before j : Nat} (after : Nat) (r : Constraint ℚ)
    (hj : j < before) : (startEquation before after r).entry (r.coefficients.length + j) = 0 := by
  rw [entry_startEquation, List.getD_append _ _ _ _ (by simpa using hj), getD_replicate_zero]

/-- A row is zero in the columns that belong to the rows below it. -/
theorem entry_startEquation_right {before j : Nat} (after : Nat) (r : Constraint ℚ)
    (hj : before + r.relation.extraColumns ≤ j) :
    (startEquation before after r).entry (r.coefficients.length + j) = 0 := by
  have hblock := Relation.length_extraEntries (α := ℚ) r.relation
  rw [entry_startEquation, List.getD_append_right _ _ _ _ (by simp; omega),
    List.getD_append_right _ _ _ _ (by simp; omega), getD_replicate_zero]

theorem extraEntries_last (r : Relation) :
    (r.extraEntries : List ℚ).getD (r.extraColumns - 1) 0 = 1 := by
  cases r <;> rfl

theorem extraCosts_last (bigM : ℚ) (r : Relation) :
    (r.extraCosts bigM)[r.extraColumns - 1]? = some 0 := by
  cases r <;> rfl

theorem entry_startEquation_basic (before after : Nat) (r : Constraint ℚ) :
    (startEquation before after r).entry (startEquation before after r).basic.column = 1 := by
  have hpos := extraColumns_pos r.relation
  have hcolumn : (startEquation before after r).basic.column
      = r.coefficients.length + (before + (r.relation.extraColumns - 1)) := by
    show r.coefficients.length + before + r.relation.extraColumns - 1 = _
    omega
  rw [hcolumn, entry_startEquation, List.getD_append_right _ _ _ _ (by simp), List.length_replicate,
    Nat.add_sub_cancel_left, List.getD_append _ _ _ _ (by simp; omega), extraEntries_last]

theorem pairwise_startEquations {n : Nat} (before : Nat) {rows : List (Constraint ℚ)}
    (hrows : ∀ r ∈ rows, r.coefficients.length = n) :
    (startEquations before rows).Pairwise fun e f =>
      e.entry f.basic.column = 0 ∧ f.entry e.basic.column = 0 := by
  induction rows generalizing before with
  | nil => exact List.Pairwise.nil
  | cons r rows ih =>
      obtain ⟨hr, hrows⟩ := List.forall_mem_cons.mp hrows
      refine List.pairwise_cons.mpr ⟨fun f hf => ?_, ih _ hrows⟩
      obtain ⟨above, s, below, rfl, rfl⟩ := exists_row_of_mem_startEquations hf
      have hs := hrows s (by simp)
      have hrpos := extraColumns_pos r.relation
      have hspos := extraColumns_pos s.relation
      constructor
      · -- the block of the lower row begins after the one of the upper row
        have hcolumn : s.coefficients.length + (before + r.relation.extraColumns + extraCount above)
            + s.relation.extraColumns - 1 = r.coefficients.length
              + (before + r.relation.extraColumns + extraCount above
                + s.relation.extraColumns - 1) := by omega
        show (startEquation before _ r).entry (s.coefficients.length + _ + _ - 1) = 0
        rw [hcolumn]
        exact entry_startEquation_right _ r (by omega)
      · have hcolumn : r.coefficients.length + before + r.relation.extraColumns - 1
            = s.coefficients.length + (before + r.relation.extraColumns - 1) := by omega
        show (startEquation _ _ s).entry (r.coefficients.length + before + _ - 1) = 0
        rw [hcolumn]
        exact entry_startEquation_left _ s (by omega)

theorem canonical_augment {p : Program ℚ} (hwf : p.WellFormed) (direction : Direction) :
    (augment p direction).Canonical := by
  have hrows := Program.row_length_normalised hwf
  constructor
  · intro e he
    obtain ⟨above, r, below, -, rfl⟩ := exists_row_of_mem_startEquations he
    exact entry_startEquation_basic _ _ r
  · intro i k e f hi hk hik
    have hpairs := List.pairwise_iff_getElem.mp (pairwise_startEquations 0 hrows)
    obtain ⟨hilt, rfl⟩ := List.getElem?_eq_some_iff.mp hi
    obtain ⟨hklt, rfl⟩ := List.getElem?_eq_some_iff.mp hk
    rcases Nat.lt_or_gt_of_ne hik with hlt | hlt
    · exact (hpairs i k hilt hklt hlt).2
    · exact (hpairs k i hklt hilt hlt).1
  · intro e he
    obtain ⟨above, r, below, hsplit, rfl⟩ := exists_row_of_mem_startEquations he
    have hr := hrows r (by simp [hsplit])
    have hpos := extraColumns_pos r.relation
    have hlength := length_decisionCosts hwf (bigMOf (p.rows.map Constraint.normalised) p.costs)
      direction
    have hlast := getElem?_flatten_extra
      (Relation.length_extraCosts (bigMOf (p.rows.map Constraint.normalised) p.costs))
      above below r (Nat.sub_one_lt hpos.ne')
    have hcolumn : r.coefficients.length + (0 + extraCount above) + r.relation.extraColumns - 1
        = p.width + (extraCount above + (r.relation.extraColumns - 1)) := by omega
    rw [← hsplit, extraCosts_last] at hlast
    show (_ ++ _ : List ℚ).getD (r.coefficients.length + _ + _ - 1) 0 = 0
    rw [hcolumn, List.getD_append_right _ _ _ _ (by omega), hlength, Nat.add_sub_cancel_left,
      List.getD_eq_getElem?_getD, hlast, Option.getD_some]

theorem rhs_nonneg_augment (p : Program ℚ) (direction : Direction) :
    ∀ e ∈ (augment p direction).equations, 0 ≤ e.rhs := by
  intro e he
  obtain ⟨above, r, below, hsplit, rfl⟩ := exists_row_of_mem_startEquations he
  have hr : r ∈ p.rows.map Constraint.normalised := by simp [hsplit]
  obtain ⟨s, -, rfl⟩ := List.mem_map.mp hr
  exact s.rhs_normalised_nonneg

theorem reached_augment {p : Program ℚ} (hwf : p.WellFormed) (direction : Direction) :
    (augment p direction).Reached (augment p direction) :=
  .refl (shaped_augment hwf direction) (canonical_augment hwf direction)
    (rhs_nonneg_augment p direction)

end LinProg.Tableau
