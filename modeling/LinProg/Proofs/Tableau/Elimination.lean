import LinProg.Proofs.WeightedSum
import LinProg.Proofs.Tableau.Shape

/-!
# Elimination in exact arithmetic

A pivot on an entry that is not zero replaces the equations by equations with the same solutions,
and the cost row by one that differs by a constant on them. It also keeps the tableau canonical:
the column of each basic variable is a unit column whose reduced cost is zero.
-/

namespace LinProg

theorem getD_subtractMultiple (factor : ℚ) {pivotRow row : List ℚ}
    (hlength : pivotRow.length = row.length) (j : Nat) :
    (subtractMultiple factor pivotRow row).getD j 0
      = row.getD j 0 - factor * pivotRow.getD j 0 := by
  unfold subtractMultiple
  by_cases hj : j < row.length
  · simp [hlength, hj]
  · simp [hlength, hj]

namespace Equation

def Holds (e : Equation ℚ) (z : Assignment) : Prop := weigh e.entries z = e.rhs

theorem entry_divide (e : Equation ℚ) (d : ℚ) (j : Nat) :
    (e.divide d).entry j = e.entry j / d := by
  unfold entry divide
  by_cases hj : j < e.entries.length
  · simp [hj]
  · simp [hj]

/-- The formula for the entries also covers an equation that is left alone, since the multiple of
the pivot equation is zero there. -/
theorem entry_eliminate {e pivotRow : Equation ℚ}
    (hlength : pivotRow.entries.length = e.entries.length) (column j : Nat) :
    (e.eliminate column pivotRow).entry j = e.entry j - e.entry column * pivotRow.entry j := by
  unfold eliminate
  by_cases hzero : e.entry column = 0
  · simp [hzero]
  · simp only [beq_iff_eq, hzero, if_false]
    exact getD_subtractMultiple _ hlength j

theorem rhs_eliminate (e pivotRow : Equation ℚ) (column : Nat) :
    (e.eliminate column pivotRow).rhs = e.rhs - e.entry column * pivotRow.rhs := by
  unfold eliminate
  by_cases hzero : e.entry column = 0
  · simp [hzero]
  · simp [hzero]

theorem weigh_eliminate {e pivotRow : Equation ℚ}
    (hlength : pivotRow.entries.length = e.entries.length) (column : Nat) (z : Assignment) :
    weigh (e.eliminate column pivotRow).entries z
      = weigh e.entries z - e.entry column * weigh pivotRow.entries z := by
  unfold eliminate
  by_cases hzero : e.entry column = 0
  · simp [hzero]
  · simp only [beq_iff_eq, hzero, if_false]
    exact weigh_subtractMultiple _ hlength z

theorem holds_divide {e : Equation ℚ} {d : ℚ} (hd : d ≠ 0) (z : Assignment) :
    (e.divide d).Holds z ↔ e.Holds z := by
  unfold Holds divide
  rw [weigh_map_div]
  exact div_left_inj' hd

theorem holds_eliminate {e pivotRow : Equation ℚ}
    (hlength : pivotRow.entries.length = e.entries.length) (column : Nat) {z : Assignment}
    (hpivotRow : pivotRow.Holds z) : (e.eliminate column pivotRow).Holds z ↔ e.Holds z := by
  unfold Holds at hpivotRow ⊢
  rw [weigh_eliminate hlength, rhs_eliminate, hpivotRow]
  exact sub_left_inj

end Equation

namespace Tableau

def Solves (t : Tableau ℚ) (z : Assignment) : Prop := ∀ e ∈ t.equations, e.Holds z

/-- The column of each basic variable is a unit column without a reduced cost. -/
structure Canonical (t : Tableau ℚ) : Prop where
  entry_self : ∀ e ∈ t.equations, e.entry e.basic.column = 1
  entry_other : ∀ (i k : Nat) e f, t.equations[i]? = some e → t.equations[k]? = some f → i ≠ k →
    f.entry e.basic.column = 0
  cost_basic : ∀ e ∈ t.equations, t.cost.getD e.basic.column 0 = 0

/-- The two tableaux have the same columns and the same solutions, and on these their cost rows
differ by a constant. -/
structure Equivalent (s t : Tableau ℚ) : Prop where
  columns_eq : t.columns = s.columns
  decisionCount_eq : t.decisionCount = s.decisionCount
  solves_iff : ∀ z, t.Solves z ↔ s.Solves z
  exists_offset : ∃ c, ∀ z, s.Solves z → weigh t.cost z = weigh s.cost z + c

theorem Equivalent.refl (t : Tableau ℚ) : t.Equivalent t where
  columns_eq := rfl
  decisionCount_eq := rfl
  solves_iff _ := Iff.rfl
  exists_offset := ⟨0, fun _ _ => (add_zero _).symm⟩

theorem Equivalent.trans {s t u : Tableau ℚ} (hst : s.Equivalent t) (htu : t.Equivalent u) :
    s.Equivalent u where
  columns_eq := htu.columns_eq.trans hst.columns_eq
  decisionCount_eq := htu.decisionCount_eq.trans hst.decisionCount_eq
  solves_iff z := (htu.solves_iff z).trans (hst.solves_iff z)
  exists_offset := by
    obtain ⟨c, hc⟩ := hst.exists_offset
    obtain ⟨d, hd⟩ := htu.exists_offset
    refine ⟨c + d, fun z hz => ?_⟩
    rw [hd z ((hst.solves_iff z).mpr hz), hc z hz, add_assoc]

/-! ### One pivot -/

section Pivot

variable {t : Tableau ℚ} {row column : Nat} {e : Equation ℚ} {entering : Variable}

theorem getElem?_equations_pivot (hrow : t.equations[row]? = some e)
    (hcolumn : t.columns[column]? = some entering) (i : Nat) :
    (t.pivot row column).equations[i]? = t.equations[i]?.map fun other =>
      if i = row then { e.divide (e.entry column) with basic := entering }
      else other.eliminate column (e.divide (e.entry column)) := by
  rw [pivot_eq hrow hcolumn]
  exact List.getElem?_mapIdx

theorem getElem?_equations_pivot_self (hrow : t.equations[row]? = some e)
    (hcolumn : t.columns[column]? = some entering) :
    (t.pivot row column).equations[row]?
      = some { e.divide (e.entry column) with basic := entering } := by
  rw [getElem?_equations_pivot hrow hcolumn, hrow, Option.map_some, if_pos rfl]

/-- Each equation after the pivot is the pivot equation, divided, or comes from another row. -/
theorem mem_equations_pivot (hrow : t.equations[row]? = some e)
    (hcolumn : t.columns[column]? = some entering) {f : Equation ℚ} :
    f ∈ (t.pivot row column).equations ↔
      f = { e.divide (e.entry column) with basic := entering } ∨
        ∃ i other, i ≠ row ∧ t.equations[i]? = some other ∧
          f = other.eliminate column (e.divide (e.entry column)) := by
  rw [List.mem_iff_getElem?]
  constructor
  · rintro ⟨i, hi⟩
    rw [getElem?_equations_pivot hrow hcolumn] at hi
    obtain ⟨other, hother, rfl⟩ := Option.map_eq_some_iff.mp hi
    by_cases hir : i = row
    · exact .inl (if_pos hir)
    · exact .inr ⟨i, other, hir, hother, if_neg hir⟩
  · rintro (rfl | ⟨i, other, hir, hother, rfl⟩)
    · exact ⟨row, getElem?_equations_pivot_self hrow hcolumn⟩
    · refine ⟨i, ?_⟩
      rw [getElem?_equations_pivot hrow hcolumn, hother, Option.map_some, if_neg hir]

theorem length_divide_eq (h : t.Shaped) (hrow : t.equations[row]? = some e) (d : ℚ)
    {other : Equation ℚ} (hother : other ∈ t.equations) :
    (e.divide d).entries.length = other.entries.length := by
  rw [length_entries_divide, h.entries_length e (List.mem_of_getElem? hrow),
    h.entries_length other hother]

theorem cost_pivot (hrow : t.equations[row]? = some e)
    (hcolumn : t.columns[column]? = some entering) :
    (t.pivot row column).cost
      = subtractMultiple (t.cost.getD column 0) (e.divide (e.entry column)).entries t.cost := by
  rw [pivot_eq hrow hcolumn]

theorem solves_pivot (h : t.Shaped) (hrow : t.equations[row]? = some e)
    (hcolumn : t.columns[column]? = some entering) (hpivot : e.entry column ≠ 0)
    (z : Assignment) : (t.pivot row column).Solves z ↔ t.Solves z := by
  have hself : e.Holds z ↔ (e.divide (e.entry column)).Holds z :=
    (Equation.holds_divide hpivot z).symm
  constructor
  · intro hsolves f hf
    have he : (e.divide (e.entry column)).Holds z :=
      hsolves { e.divide (e.entry column) with basic := entering }
        ((mem_equations_pivot hrow hcolumn).mpr (.inl rfl))
    obtain ⟨i, hi⟩ := List.mem_iff_getElem?.mp hf
    by_cases hir : i = row
    · subst hir
      obtain rfl : e = f := Option.some.inj (hrow.symm.trans hi)
      exact hself.mpr he
    · rw [← Equation.holds_eliminate (length_divide_eq h hrow _ hf) column he]
      exact hsolves _ ((mem_equations_pivot hrow hcolumn).mpr (.inr ⟨i, f, hir, hi, rfl⟩))
  · intro hsolves f hf
    have he : (e.divide (e.entry column)).Holds z :=
      hself.mp (hsolves e (List.mem_of_getElem? hrow))
    rcases (mem_equations_pivot hrow hcolumn).mp hf with rfl | ⟨i, other, -, hother, rfl⟩
    · exact he
    · have hmem := List.mem_of_getElem? hother
      exact (Equation.holds_eliminate (length_divide_eq h hrow _ hmem) column he).mpr
        (hsolves other hmem)

theorem weigh_cost_pivot (h : t.Shaped) (hrow : t.equations[row]? = some e)
    (hcolumn : t.columns[column]? = some entering) (hpivot : e.entry column ≠ 0)
    {z : Assignment} (hz : t.Solves z) :
    weigh (t.pivot row column).cost z
      = weigh t.cost z - t.cost.getD column 0 * (e.rhs / e.entry column) := by
  have he : (e.divide (e.entry column)).Holds z :=
    (Equation.holds_divide hpivot z).mpr (hz e (List.mem_of_getElem? hrow))
  have hlength : (e.divide (e.entry column)).entries.length = t.cost.length := by
    rw [length_entries_divide, h.entries_length e (List.mem_of_getElem? hrow), h.cost_length]
  rw [cost_pivot hrow hcolumn, weigh_subtractMultiple _ hlength, he]
  rfl

theorem equivalent_pivot (h : t.Shaped) (hrow : t.equations[row]? = some e)
    (hcolumn : t.columns[column]? = some entering) (hpivot : e.entry column ≠ 0) :
    t.Equivalent (t.pivot row column) where
  columns_eq := columns_pivot t row column
  decisionCount_eq := decisionCount_pivot t row column
  solves_iff := solves_pivot h hrow hcolumn hpivot
  exists_offset := by
    refine ⟨-(t.cost.getD column 0 * (e.rhs / e.entry column)), fun z hz => ?_⟩
    rw [weigh_cost_pivot h hrow hcolumn hpivot hz, sub_eq_add_neg]

theorem Canonical.pivot (hcanonical : t.Canonical) (h : t.Shaped)
    (hrow : t.equations[row]? = some e) (hcolumn : t.columns[column]? = some entering)
    (hpivot : e.entry column ≠ 0) : (t.pivot row column).Canonical := by
  have he : e ∈ t.equations := List.mem_of_getElem? hrow
  have hentering : entering.column = column := h.column_eq column entering hcolumn
  have hlength : ∀ other ∈ t.equations,
      (e.divide (e.entry column)).entries.length = other.entries.length :=
    fun _ hother => length_divide_eq h hrow _ hother
  have hzero : ∀ (i : Nat) other, i ≠ row → t.equations[i]? = some other →
      e.entry other.basic.column = 0 := fun i other hir hother =>
    hcanonical.entry_other i row other e hother hrow hir
  constructor
  · intro f hf
    rcases (mem_equations_pivot hrow hcolumn).mp hf with rfl | ⟨i, other, hir, hother, rfl⟩
    · show (e.divide (e.entry column)).entry entering.column = 1
      rw [Equation.entry_divide, hentering, div_self hpivot]
    · have hmem := List.mem_of_getElem? hother
      rw [basic_eliminate, Equation.entry_eliminate (hlength other hmem), Equation.entry_divide,
        hzero i other hir hother, hcanonical.entry_self other hmem, zero_div, mul_zero, sub_zero]
  · intro i k f g hf hg hik
    rw [getElem?_equations_pivot hrow hcolumn] at hf hg
    obtain ⟨f', hf', rfl⟩ := Option.map_eq_some_iff.mp hf
    obtain ⟨g', hg', rfl⟩ := Option.map_eq_some_iff.mp hg
    have hgmem := List.mem_of_getElem? hg'
    by_cases hir : i = row
    · have hkr : k ≠ row := fun hkr => hik (hir.trans hkr.symm)
      rw [if_pos hir, if_neg hkr]
      show (g'.eliminate column _).entry entering.column = 0
      rw [Equation.entry_eliminate (hlength g' hgmem), Equation.entry_divide, hentering,
        div_self hpivot, mul_one, sub_self]
    · rw [if_neg hir, basic_eliminate]
      by_cases hkr : k = row
      · rw [if_pos hkr]
        show (e.divide (e.entry column)).entry f'.basic.column = 0
        rw [Equation.entry_divide, hzero i f' hir hf', zero_div]
      · rw [if_neg hkr, Equation.entry_eliminate (hlength g' hgmem), Equation.entry_divide,
          hzero i f' hir hf', hcanonical.entry_other i k f' g' hf' hg' hik, zero_div, mul_zero,
          sub_zero]
  · intro f hf
    have hcost : (e.divide (e.entry column)).entries.length = t.cost.length := by
      rw [length_entries_divide, h.entries_length e he, h.cost_length]
    rw [cost_pivot hrow hcolumn, getD_subtractMultiple _ hcost]
    show _ - _ * (e.divide (e.entry column)).entry f.basic.column = 0
    rw [Equation.entry_divide]
    rcases (mem_equations_pivot hrow hcolumn).mp hf with rfl | ⟨i, other, hir, hother, rfl⟩
    · show t.cost.getD entering.column 0 - _ * (e.entry entering.column / _) = 0
      rw [hentering, div_self hpivot, mul_one, sub_self]
    · rw [basic_eliminate, hzero i other hir hother, hcanonical.cost_basic other
        (List.mem_of_getElem? hother), zero_div, mul_zero, sub_zero]

end Pivot

/-! ### Any number of pivots -/

/-- One pivot at a place of the tableau, on an entry that is not zero. -/
def RegularPivot (s t : Tableau ℚ) : Prop :=
  ∃ row column e, s.equations[row]? = some e ∧ column < s.width ∧ e.entry column ≠ 0 ∧
    t = s.pivot row column

/-- What every run of regular pivots keeps. -/
structure Derived (s t : Tableau ℚ) : Prop extends s.Equivalent t where
  shaped : t.Shaped
  canonical : t.Canonical

theorem Derived.regularPivot {s t u : Tableau ℚ} (h : s.Derived t) (hpivot : t.RegularPivot u) :
    s.Derived u := by
  obtain ⟨row, column, e, hrow, hwidth, hentry, rfl⟩ := hpivot
  have hcolumn : t.columns[column]? = some t.columns[column] := List.getElem?_eq_getElem hwidth
  exact
    { toEquivalent := h.toEquivalent.trans (equivalent_pivot h.shaped hrow hcolumn hentry)
      shaped := h.shaped.pivot row column
      canonical := h.canonical.pivot h.shaped hrow hcolumn hentry }

theorem derived_of_regularPivots {s t : Tableau ℚ} (hshaped : s.Shaped)
    (hcanonical : s.Canonical) (hpivots : Relation.ReflTransGen RegularPivot s t) :
    s.Derived t := by
  induction hpivots with
  | refl => exact { toEquivalent := .refl s, shaped := hshaped, canonical := hcanonical }
  | tail _ hpivot ih => exact ih.regularPivot hpivot

end Tableau

end LinProg
