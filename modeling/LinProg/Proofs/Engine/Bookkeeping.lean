import LinProg.Proofs.Engine.Optimize
import LinProg.Proofs.Engine.Solve
import LinProg.Proofs.Tableau.Access

/-!
# Bookkeeping in any arithmetic

Whatever the operations on numbers are, and even where a pivot divides by zero, pivots keep the
layout of a tableau and the count of artificial basic variables. So a solve never leaves the range
of an index, the guard against a tableau without a free column never applies, and a run that ends
with an artificial variable above the tolerance is always corrected to `noSolution`.
-/

namespace LinProg

variable {α : Type} [Scalar α]

namespace Tableau

/-- A pivot at a place that the tableau has, on whatever number stands there. -/
def InRangePivot (s t : Tableau α) : Prop :=
  ∃ row column, row < s.height ∧ column < s.width ∧ t = s.pivot row column

/-- What no pivot changes. -/
structure SameFrame (s t : Tableau α) : Prop where
  height_eq : t.height = s.height
  columns_eq : t.columns = s.columns
  decisionCount_eq : t.decisionCount = s.decisionCount
  bigM_eq : t.bigM = s.bigM

theorem SameFrame.pivot {s t : Tableau α} (h : s.SameFrame t) (row column : Nat) :
    s.SameFrame (t.pivot row column) where
  height_eq := by rw [height_pivot, h.height_eq]
  columns_eq := by rw [columns_pivot, h.columns_eq]
  decisionCount_eq := by rw [decisionCount_pivot, h.decisionCount_eq]
  bigM_eq := by rw [bigM_pivot, h.bigM_eq]

theorem shaped_of_inRangePivots {s t : Tableau α} (h : s.Shaped)
    (hpivots : Relation.ReflTransGen InRangePivot s t) : t.Shaped ∧ s.SameFrame t := by
  induction hpivots with
  | refl => exact ⟨h, rfl, rfl, rfl, rfl⟩
  | tail _ hpivot ih =>
      obtain ⟨row, column, -, -, rfl⟩ := hpivot
      exact ⟨ih.1.pivot row column, ih.2.pivot row column⟩

theorem Shaped.inRangePivot_of_step {tolerance : α} {s t : Tableau α} (h : s.Shaped)
    (hstep : Step tolerance s t) : InRangePivot s t := by
  obtain ⟨row, column, hchoose, rfl⟩ := hstep
  unfold choose at hchoose
  split at hchoose
  · cases hchoose
  · next entering hentering =>
      split at hchoose
      · cases hchoose
      · next leaving hleaving =>
          cases hchoose
          exact ⟨row, column, leavingRow_lt hleaving, h.enteringColumn_lt hentering, rfl⟩

theorem Shaped.inRangePivots_run {t : Tableau α} (h : t.Shaped) (tolerance : α) (limit : Nat) :
    Relation.ReflTransGen InRangePivot t (Tableau.run tolerance limit t).final := by
  have hsteps := steps_run tolerance limit t
  generalize (Tableau.run tolerance limit t).final = last at hsteps
  induction hsteps with
  | refl => exact .refl
  | tail _ hstep ih =>
      exact ih.tail ((shaped_of_inRangePivots h ih).1.inRangePivot_of_step hstep)

theorem hasPositiveArtificial_iff {t : Tableau α} {tolerance : α} :
    t.hasPositiveArtificial tolerance = true ↔
      ∃ e ∈ t.equations, e.basic.isArtificial ∧ tolerance < e.rhs := by
  simp [hasPositiveArtificial]

end Tableau

namespace Engine

/-- What holds of one solve from the tableau that an engine holds, and of the correction of its
answer. -/
structure InOrder (fuel : Nat) (e : Engine α) : Prop where
  free_column : e.currentTableau.height < e.currentTableau.width
  run_checked : Tableau.Checked.run e.settings.tolerance (e.settings.maxIterations.getD fuel)
    e.currentTableau = some (e.loop fuel)
  solve_tableau : (e.solve fuel).2.tableau = some (e.loop fuel).final
  final_pivots : Relation.ReflTransGen Tableau.InRangePivot e.currentTableau (e.loop fuel).final
  extract_checked : Tableau.Checked.decisionValues (e.loop fuel).final e.program.width
    = some ((e.loop fuel).final.decisionValues e.program.width)
  count_pos : (e.loop fuel).final.hasPositiveArtificial e.settings.tolerance = true →
    0 < (e.loop fuel).final.artificialCount
  status_eq : ∀ {status}, (e.solve fuel).1 = .ok status →
    status ≠ .noSolution ∧ (e.loop fuel).stop.status? = some status
  classify_iff : ∀ {status}, (e.solve fuel).1 = .ok status →
    ((e.solve fuel).2.classify status = .noSolution ↔ ∃ equation ∈ (e.loop fuel).final.equations,
      equation.basic.isArtificial ∧ e.settings.tolerance < equation.rhs)
  classify_eq_self : ∀ {status}, (e.solve fuel).1 = .ok status →
    (e.solve fuel).2.classify status ≠ .noSolution → (e.solve fuel).2.classify status = status

theorem inOrder_of_shaped {e : Engine α} (hshaped : e.currentTableau.Shaped)
    (hwidth : e.currentTableau.decisionCount = e.program.width) (fuel : Nat) : e.InOrder fuel := by
  have hfree := hshaped.height_lt_width
  have hpivots :=
    hshaped.inRangePivots_run e.settings.tolerance (e.settings.maxIterations.getD fuel)
  obtain ⟨hfinal, hframe⟩ := Tableau.shaped_of_inRangePivots hshaped hpivots
  have hclassify := classify_eq (solve_tableau hfree fuel) hfinal
  rw [solve_settings hfree fuel] at hclassify
  refine
    { free_column := hfree
      run_checked := Tableau.checked_run hshaped _ _
      solve_tableau := solve_tableau hfree fuel
      final_pivots := hpivots
      extract_checked := ?_
      count_pos := hfinal.count_pos_of_hasPositiveArtificial
      status_eq := fun hok =>
        ⟨ne_noSolution_of_solve hfree fuel hok, (solve_eq_ok_iff hfree fuel).mp hok⟩
      classify_iff := ?_
      classify_eq_self := ?_ }
  · rw [← hwidth, ← hframe.decisionCount_eq]
    exact Tableau.checked_decisionValues hfinal
  · intro status hok
    rw [hclassify, ← Tableau.hasPositiveArtificial_iff]
    by_cases hpositive : (e.loop fuel).final.hasPositiveArtificial e.settings.tolerance = true
    · rw [if_pos hpositive]
      exact iff_of_true rfl hpositive
    · rw [if_neg hpositive]
      exact iff_of_false (ne_noSolution_of_solve hfree fuel hok) hpositive
  · intro status hok hne
    rw [hclassify] at hne ⊢
    by_cases hpositive : (e.loop fuel).final.hasPositiveArtificial e.settings.tolerance = true
    · exact absurd (if_pos hpositive) hne
    · exact if_neg hpositive

end Engine

/-- The layout and the count hold after any pivots in range, so that every further pivot and every
solve from there stays in range. -/
theorem Tableau.bookkeeping_of_inRangePivots {p : Program α} (hwf : p.WellFormed)
    {direction : Direction} {t : Tableau α}
    (hpivots : Relation.ReflTransGen InRangePivot (augment p direction) t) :
    t.Shaped ∧ (augment p direction).SameFrame t ∧
      (t.cells.length = t.height * t.width ∧ t.cost.length = t.width ∧
        t.columns.length = t.width ∧ t.rhs.length = t.height ∧ t.basis.length = t.height) ∧
      (∀ row column, row < t.height → column < t.width →
        Checked.pivot t row column = some (t.pivot row column)) ∧
      ∀ (e : Engine α) (fuel : Nat), e.currentTableau = t → e.program.width = p.width →
        e.InOrder fuel := by
  obtain ⟨hshaped, hframe⟩ := shaped_of_inRangePivots (shaped_augment hwf direction) hpivots
  refine ⟨hshaped, hframe, ?_, ?_, ?_⟩
  · exact ⟨hshaped.length_cells, hshaped.cost_length, rfl, List.length_map _, List.length_map _⟩
  · intro row column hrow hcolumn
    exact checked_pivot hshaped hrow hcolumn
  · intro e fuel htableau hwidth
    subst htableau
    exact Engine.inOrder_of_shaped hshaped (hframe.decisionCount_eq.trans hwidth.symm) fuel

/-- `x` where `0 · x = 1`, in floating point. -/
def zeroRow : Engine Float := .ofProgram (.ofRows [⟨[0], .equal, 1, none⟩] [⟨1, none⟩]) .standard

/-- Zero divided by zero stands in the tableau after a pivot on the zero. The artificial variable
has left the basis all the same, and it comes back with the next pivot. -/
theorem Tableau.bookkeeping_zeroRow :
    let left := (augment zeroRow.program .minimize).pivot 0 0
    let back := left.pivot 0 1
    left.artificialCount = 0 ∧ back.artificialCount = 1 ∧ back.Shaped ∧
      Checked.pivot back 0 0 = some (back.pivot 0 0) ∧
      { zeroRow with tableau := some back }.InOrder 9 := by
  intro left back
  have hwf : zeroRow.program.WellFormed := ⟨by decide, by decide, by decide, by decide⟩
  have hleft : InRangePivot (augment zeroRow.program .minimize) left :=
    ⟨0, 0, by decide, by decide, rfl⟩
  have hback : InRangePivot left back := ⟨0, 1, by decide, by decide, rfl⟩
  obtain ⟨hshaped, -, -, hpivot, horder⟩ :=
    bookkeeping_of_inRangePivots hwf ((Relation.ReflTransGen.single hleft).tail hback)
  exact ⟨rfl, rfl, hshaped, hpivot 0 0 (by decide) (by decide), horder _ 9 rfl rfl⟩

end LinProg
