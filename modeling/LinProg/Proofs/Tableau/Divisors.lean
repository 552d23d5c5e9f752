import LinProg.Proofs.Tableau.Run

/-!
# What is divided by

A ratio divides by an entry that exceeds the tolerance, and so does a pivot. Nothing else keeps zeros
away: they never come up with a tolerance that is not negative, and for each negative tolerance there
is a program whose first pivot is on a zero.
-/

namespace LinProg.Tableau

/-- The ratios of a column are those of the rows whose entry exceeds the tolerance. -/
theorem mem_ratios {t : Tableau ℚ} {column row : Nat} {tolerance r : ℚ} :
    (row, r) ∈ t.ratios column tolerance ↔
      ∃ e, t.equations[row]? = some e ∧ tolerance < e.entry column ∧ ratio column e = r := by
  unfold ratios
  rw [List.mem_filterMap]
  constructor
  · rintro ⟨⟨e, i⟩, hmem, hsome⟩
    dsimp only at hsome
    by_cases hentry : e.entry column ≤ tolerance
    · rw [if_pos hentry] at hsome
      simp at hsome
    · rw [if_neg hentry] at hsome
      obtain ⟨rfl, rfl⟩ := Prod.mk.inj (Option.some.inj hsome)
      exact ⟨e, List.mem_zipIdx_iff_getElem?.mp hmem, not_le.mp hentry, rfl⟩
  · rintro ⟨e, hrow, hentry, rfl⟩
    exact ⟨(e, row), List.mem_zipIdx_iff_getElem?.mpr hrow, if_neg (not_le.mpr hentry)⟩

/-- Neither a ratio of a column nor the pivot that is asked for divides by zero. -/
structure DividesByNonzero (tolerance : ℚ) (t : Tableau ℚ) : Prop where
  of_ratio : ∀ column row r, (row, r) ∈ t.ratios column tolerance →
    ∃ e, t.equations[row]? = some e ∧ ratio column e = r ∧ e.entry column ≠ 0
  of_pivot : ∀ row column, t.choose tolerance = .pivot row column →
    ∃ e, t.equations[row]? = some e ∧ e.entry column ≠ 0

theorem dividesByNonzero_of_nonneg {tolerance : ℚ} (htolerance : 0 ≤ tolerance) (t : Tableau ℚ) :
    DividesByNonzero tolerance t where
  of_ratio column row r hratio := by
    obtain ⟨e, hrow, hentry, hr⟩ := mem_ratios.mp hratio
    exact ⟨e, hrow, hr, (htolerance.trans_lt hentry).ne'⟩
  of_pivot row column hchoose := by
    obtain ⟨-, e, hrow, hentry, -⟩ := ratio_of_choose_pivot hchoose
    exact ⟨e, hrow, (htolerance.trans_lt hentry).ne'⟩

/-- `x` where `0x ≤ 1`, to be maximized. -/
def emptyColumn : Program ℚ := .ofRows [⟨[0], .lessEq, 1, none⟩] [⟨1, none⟩]

theorem wellFormed_emptyColumn : emptyColumn.WellFormed :=
  ⟨by decide, by decide, by decide, by decide⟩

theorem equations_emptyColumn : (augment emptyColumn .maximize).equations
    = [⟨[0, 1], 1, ⟨.slack, 1⟩⟩] := by rfl

/-- The column enters with reduced cost `-1`, and its zero passes for more than the tolerance. -/
theorem choose_emptyColumn {tolerance : ℚ} (hnegative : tolerance < 0) :
    (augment emptyColumn .maximize).choose tolerance = .pivot 0 0 := by
  have hcost : (augment emptyColumn .maximize).cost = [-1, 0] := by decide +kernel
  have hbelow : (-1 : ℚ) < -tolerance := by linarith
  have hentering : (augment emptyColumn .maximize).enteringColumn tolerance = some 0 := by
    have hslack : ¬ (0 : ℚ) < -1 := by decide
    unfold enteringColumn
    rw [hcost]
    simp [lower, hbelow, hslack]
  have hleaving : (augment emptyColumn .maximize).leavingRow 0 tolerance = some 0 := by
    have hentry : ¬ (0 : ℚ) ≤ tolerance := not_le.mpr hnegative
    unfold leavingRow ratios
    rw [equations_emptyColumn]
    simp [lesser, Equation.entry, hentry]
  unfold choose
  rw [hentering]
  dsimp only
  rw [hleaving]

theorem choose_emptyColumn_half :
    emptyColumn.WellFormed ∧
      (augment emptyColumn .maximize).choose (-1 / 2) = .pivot 0 0 ∧
      (augment emptyColumn .maximize).entry 0 0 = .ok 0 :=
  ⟨wellFormed_emptyColumn, by decide +kernel, by decide +kernel⟩

/-- The tolerances with which no loop ever divides by zero are those that are not negative. -/
theorem dividesByNonzero_iff (tolerance : ℚ) :
    (∀ (p : Program ℚ) (direction : Direction) (t : Tableau ℚ), p.WellFormed →
        Relation.ReflTransGen (Step tolerance) (augment p direction) t →
        DividesByNonzero tolerance t) ↔
      0 ≤ tolerance := by
  constructor
  · intro hdivides
    apply le_of_not_gt
    intro hnegative
    have hstart := hdivides emptyColumn .maximize _ wellFormed_emptyColumn .refl
    obtain ⟨e, hrow, hentry⟩ := hstart.of_pivot 0 0 (choose_emptyColumn hnegative)
    rw [equations_emptyColumn] at hrow
    obtain rfl := Option.some.inj hrow
    exact hentry rfl
  · intro htolerance p direction t _ _
    exact dividesByNonzero_of_nonneg htolerance t

end LinProg.Tableau
