import LinProg.Proofs.Tableau.Vertex
import LinProg.Proofs.Tableau.Choice

/-!
# Runs without a tolerance

In exact arithmetic and with tolerance zero, each pivot of a run is on a positive entry and keeps
every right side from going below zero. A run that ends by itself has therefore reached the vertex
of a tableau that is equivalent to the start, and this vertex is either the cheapest solution or the
foot of a ray along which the cost falls forever.
-/

namespace LinProg.Tableau

section Steps

variable {α : Type} [Scalar α]

/-- The tableau asks for a pivot, and it leads to the other one. -/
def Step (tolerance : α) (s t : Tableau α) : Prop :=
  ∃ row column, s.choose tolerance = .pivot row column ∧ t = s.pivot row column

theorem steps_run (tolerance : α) (limit : Nat) (t : Tableau α) :
    Relation.ReflTransGen (Step tolerance) t (run tolerance limit t).final := by
  induction limit generalizing t with
  | zero =>
      unfold run
      split <;> exact .refl
  | succ limit ih =>
      unfold run
      split
      · exact .refl
      · exact .refl
      · next row column hchoose =>
          exact .head ⟨row, column, hchoose, rfl⟩ (ih (t.pivot row column))

theorem choose_final (tolerance : α) (limit : Nat) (t : Tableau α) :
    ((run tolerance limit t).stop = .optimal →
        (run tolerance limit t).final.choose tolerance = .optimal) ∧
      ∀ column, (run tolerance limit t).stop = .unbounded column →
        (run tolerance limit t).final.choose tolerance = .unbounded column := by
  induction limit generalizing t with
  | zero =>
      unfold run
      cases hchoose : t.choose tolerance with
      | optimal => simp [hchoose]
      | unbounded column => simp [hchoose]
      | pivot row column => simp
  | succ limit ih =>
      unfold run
      cases hchoose : t.choose tolerance with
      | optimal => simp [hchoose]
      | unbounded column => simp [hchoose]
      | pivot row column => exact ih (t.pivot row column)

end Steps

theorem column_lt_of_choose {tolerance : ℚ} {s : Tableau ℚ} (hshaped : s.Shaped)
    {row column : Nat} (hchoose : s.choose tolerance = .pivot row column) : column < s.width := by
  obtain ⟨⟨v, hv, -⟩, -⟩ := ratio_of_choose_pivot hchoose
  rw [← hshaped.cost_length]
  exact (List.getElem?_eq_some_iff.mp hv).1

theorem regularPivot_of_step {tolerance : ℚ} (htolerance : 0 ≤ tolerance) {s t : Tableau ℚ}
    (hshaped : s.Shaped) (hstep : Step tolerance s t) : s.RegularPivot t := by
  obtain ⟨row, column, hchoose, rfl⟩ := hstep
  obtain ⟨-, e, hrow, hentry, -⟩ := ratio_of_choose_pivot hchoose
  exact ⟨row, column, e, hrow, column_lt_of_choose hshaped hchoose,
    (lt_of_le_of_lt htolerance hentry).ne', rfl⟩

/-- The ratio test keeps the right sides: a row with a positive entry has a ratio that is no less
than the one of the pivot row, and in the other rows the right side can only grow. -/
theorem rhs_nonneg_pivot {s : Tableau ℚ} {row column : Nat} {e : Equation ℚ} {entering : Variable}
    (hrow : s.equations[row]? = some e) (hcolumn : s.columns[column]? = some entering)
    (hentry : 0 < e.entry column)
    (hleast : ∀ f ∈ s.equations, 0 < f.entry column → ratio column e ≤ ratio column f)
    (hrhs : ∀ f ∈ s.equations, 0 ≤ f.rhs) : ∀ f ∈ (s.pivot row column).equations, 0 ≤ f.rhs := by
  have hratio : 0 ≤ ratio column e := div_nonneg (hrhs e (List.mem_of_getElem? hrow)) hentry.le
  intro f hf
  rcases (mem_equations_pivot hrow hcolumn).mp hf with rfl | ⟨i, other, -, hother, rfl⟩
  · exact hratio
  · have hmem : other ∈ s.equations := List.mem_of_getElem? hother
    have hsame : (e.divide (e.entry column)).rhs = ratio column e := rfl
    rw [Equation.rhs_eliminate, hsame, sub_nonneg]
    by_cases hpositive : 0 < other.entry column
    · have hle : ratio column e ≤ other.rhs / other.entry column := hleast other hmem hpositive
      rw [le_div_iff₀ hpositive] at hle
      linarith
    · have hnonpos : other.entry column * ratio column e ≤ 0 :=
        mul_nonpos_of_nonpos_of_nonneg (not_lt.mp hpositive) hratio
      exact hnonpos.trans (hrhs other hmem)

theorem rhs_nonneg_step {s t : Tableau ℚ} (hshaped : s.Shaped)
    (hrhs : ∀ e ∈ s.equations, 0 ≤ e.rhs) (hstep : Step 0 s t) :
    ∀ e ∈ t.equations, 0 ≤ e.rhs := by
  obtain ⟨row, column, hchoose, rfl⟩ := hstep
  obtain ⟨-, e, hrow, hentry, hleast⟩ := ratio_of_choose_pivot hchoose
  have hcolumn := List.getElem?_eq_getElem (column_lt_of_choose hshaped hchoose)
  exact rhs_nonneg_pivot hrow hcolumn hentry hleast hrhs

/-- What holds along an exact run from `s`. -/
structure Reached (s t : Tableau ℚ) : Prop extends s.Derived t where
  rhs_nonneg : ∀ e ∈ t.equations, 0 ≤ e.rhs

theorem Reached.refl {s : Tableau ℚ} (hshaped : s.Shaped) (hcanonical : s.Canonical)
    (hrhs : ∀ e ∈ s.equations, 0 ≤ e.rhs) : s.Reached s where
  toEquivalent := .refl s
  shaped := hshaped
  canonical := hcanonical
  rhs_nonneg := hrhs

theorem Reached.step {s t u : Tableau ℚ} (h : s.Reached t) (hstep : Step 0 t u) : s.Reached u where
  toDerived := h.toDerived.regularPivot (regularPivot_of_step (le_refl 0) h.shaped hstep)
  rhs_nonneg := rhs_nonneg_step h.shaped h.rhs_nonneg hstep

theorem Reached.run {s : Tableau ℚ} (h : s.Reached s) (limit : Nat) :
    s.Reached (run 0 limit s).final := by
  have hsteps := steps_run 0 limit s
  generalize (Tableau.run 0 limit s).final = t at hsteps
  induction hsteps with
  | refl => exact h
  | tail _ hstep ih => exact ih.step hstep

/-! ### The vertex at the end -/

theorem Reached.solves_vertex {s t : Tableau ℚ} (h : s.Reached t) : s.Solves t.vertex :=
  (h.solves_iff _).mp h.canonical.solves_vertex

theorem Reached.vertex_nonneg {s t : Tableau ℚ} (h : s.Reached t) (j : Nat) : 0 ≤ t.vertex j :=
  superpose_nonneg h.rhs_nonneg j

theorem Reached.shortage_eq {s t : Tableau ℚ} (h : s.Reached t) (z : Assignment) :
    t.shortage z = s.shortage z := by
  unfold shortage
  rw [h.columns_eq]

theorem Reached.shortage_vertex_pos_iff {s t : Tableau ℚ} (h : s.Reached t) :
    0 < s.shortage t.vertex ↔ t.hasPositiveArtificial 0 = true := by
  rw [← h.shortage_eq]
  cases hpositive : t.hasPositiveArtificial 0 with
  | true => exact iff_of_true (h.shaped.shortage_vertex_pos h.rhs_nonneg hpositive) rfl
  | false =>
      rw [h.shaped.shortage_vertex_eq_zero h.rhs_nonneg hpositive]
      simp

/-- Where no reduced cost is negative, no solution is cheaper than the vertex. -/
theorem Reached.cost_vertex_le {s t : Tableau ℚ} (h : s.Reached t)
    (hoptimal : t.choose 0 = .optimal) {z : Assignment} (hsolves : s.Solves z)
    (hz : ∀ j, 0 ≤ z j) : weigh s.cost t.vertex ≤ weigh s.cost z := by
  obtain ⟨c, hc⟩ := h.exists_offset
  have hvertex := hc t.vertex h.solves_vertex
  have hother := hc z hsolves
  rw [h.canonical.weigh_cost_vertex] at hvertex
  have hcosts : ∀ w ∈ t.cost, 0 ≤ w := by
    intro w hw
    have hle := le_cost_of_choose_optimal hoptimal w hw
    rwa [neg_zero] at hle
  have hnonneg : 0 ≤ weigh t.cost z := weigh_nonneg hcosts hz
  calc weigh s.cost t.vertex
      = 0 - c := by rw [hvertex, add_sub_cancel_right]
    _ ≤ weigh t.cost z - c := sub_le_sub_right hnonneg c
    _ = weigh s.cost z := by rw [hother, add_sub_cancel_right]

/-- Where nothing bounds a column, the cost falls below every bound on the way along its ray. -/
theorem Reached.exists_cost_lt {s t : Tableau ℚ} (h : s.Reached t) {column : Nat}
    (hunbounded : t.choose 0 = .unbounded column) (bound : ℚ) :
    ∃ z, s.Solves z ∧ (∀ j, 0 ≤ z j) ∧ weigh s.cost z < bound ∧
      s.shortage t.vertex ≤ s.shortage z := by
  obtain ⟨⟨v, hv, hnegative⟩, hentries⟩ := entry_le_of_choose_unbounded hunbounded
  obtain ⟨c, hc⟩ := h.exists_offset
  rw [neg_zero] at hnegative
  -- far enough to go past the bound
  let distance := |bound + c| / -v + 1
  have hdistance : 0 ≤ distance := add_nonneg (div_nonneg (abs_nonneg _) (by linarith)) zero_le_one
  have hsolves : s.Solves (t.along column distance) :=
    (h.solves_iff _).mp (h.canonical.solves_along column distance)
  have hfall : weigh t.cost (t.along column distance) = v - |bound + c| := by
    have hne : v ≠ 0 := hnegative.ne
    rw [h.canonical.weigh_cost_along, List.getD_eq_getElem?_getD, hv, Option.getD_some]
    show (|bound + c| / -v + 1) * v = _
    field_simp
    ring
  refine ⟨t.along column distance, hsolves, ?_, ?_, ?_⟩
  · exact along_nonneg h.vertex_nonneg hentries hdistance
  · calc weigh s.cost (t.along column distance)
        = weigh t.cost (t.along column distance) - c := by rw [hc _ hsolves, add_sub_cancel_right]
      _ = v - |bound + c| - c := by rw [hfall]
      _ < -|bound + c| - c := by linarith
      _ ≤ bound + c - c := sub_le_sub_right (neg_abs_le _) c
      _ = bound := add_sub_cancel_right bound c
  · rw [← h.shortage_eq, ← h.shortage_eq]
    exact shortage_vertex_le_along hentries hdistance

end LinProg.Tableau
