import LinProg.Proofs.Tableau.Start

/-!
# The basis after any pivots

The choice of the pivots plays no part in what a tableau says of its equations: any entry that is
not zero will do, in any order, also one in a column that is basic already. After each pivot the
basic variables can be read off, one for each row, and to put them at the right sides and all other
variables at zero solves the equations of the start.
-/

namespace LinProg.Tableau

/-! ### The basic point -/

theorem superpose_of_forall_ne {equations : List (Equation ℚ)} {j : Nat}
    (hne : ∀ e ∈ equations, e.basic.column ≠ j) (value : Equation ℚ → ℚ) :
    superpose value equations j = 0 := by
  induction equations with
  | nil => rfl
  | cons e equations ih =>
      obtain ⟨he, hne⟩ := List.forall_mem_cons.mp hne
      rw [superpose_cons, single_of_ne he.symm, ih hne, add_zero]

theorem superpose_basic {equations : List (Equation ℚ)}
    (hcolumns : equations.Pairwise fun e f => e.basic.column ≠ f.basic.column)
    (value : Equation ℚ → ℚ) {e : Equation ℚ} (he : e ∈ equations) :
    superpose value equations e.basic.column = value e := by
  induction equations with
  | nil => exact absurd he List.not_mem_nil
  | cons f equations ih =>
      obtain ⟨hf, hcolumns⟩ := List.pairwise_cons.mp hcolumns
      rw [superpose_cons]
      rcases List.mem_cons.mp he with rfl | he
      · have hne : ∀ g ∈ equations, g.basic.column ≠ e.basic.column :=
          fun g hg => (hf g hg).symm
        rw [single_self, superpose_of_forall_ne hne, add_zero]
      · rw [single_of_ne (hf e he).symm, ih hcolumns he, zero_add]

/-- The basic variables are at the right sides, and all other variables are at zero. -/
structure IsBasicPoint (t : Tableau ℚ) (z : Assignment) : Prop where
  eq_rhs : ∀ e ∈ t.equations, z e.basic.column = e.rhs
  eq_zero : ∀ j, (∀ e ∈ t.equations, e.basic.column ≠ j) → z j = 0

theorem Canonical.isBasicPoint_vertex {t : Tableau ℚ} (h : t.Canonical) :
    t.IsBasicPoint t.vertex where
  eq_rhs := fun _ he => superpose_basic h.pairwise_column_ne _ he
  eq_zero := fun _ hj => superpose_of_forall_ne hj _

theorem Canonical.nodup_columns {t : Tableau ℚ} (h : t.Canonical) :
    (t.basis.map (·.column)).Nodup := by
  unfold basis
  rw [List.map_map]
  exact List.pairwise_map.mpr h.pairwise_column_ne

theorem Canonical.entry_basic {t : Tableau ℚ} (h : t.Canonical) {i k : Nat} {e f : Equation ℚ}
    (hi : t.equations[i]? = some e) (hk : t.equations[k]? = some f) :
    f.entry e.basic.column = if k = i then 1 else 0 := by
  split
  · next heq =>
      subst heq
      obtain rfl : e = f := Option.some.inj (hi.symm.trans hk)
      exact h.entry_self e (List.mem_of_getElem? hi)
  · next hne => exact h.entry_other i k e f hi hk (Ne.symm hne)

/-! ### The pivots of a run -/

theorem regularPivots_of_steps {tolerance : ℚ} (htolerance : 0 ≤ tolerance) {s t : Tableau ℚ}
    (hshaped : s.Shaped) (hsteps : Relation.ReflTransGen (Step tolerance) s t) :
    Relation.ReflTransGen RegularPivot s t ∧ t.Shaped := by
  induction hsteps with
  | refl => exact ⟨.refl, hshaped⟩
  | tail _ hstep ih =>
      obtain ⟨hpivots, hshaped⟩ := ih
      refine ⟨hpivots.tail (regularPivot_of_step htolerance hshaped hstep), ?_⟩
      obtain ⟨row, column, -, rfl⟩ := hstep
      exact hshaped.pivot row column

theorem regularPivots_run {tolerance : ℚ} (htolerance : 0 ≤ tolerance) {t : Tableau ℚ}
    (hshaped : t.Shaped) (limit : Nat) :
    Relation.ReflTransGen RegularPivot t (run tolerance limit t).final :=
  (regularPivots_of_steps htolerance hshaped (steps_run tolerance limit t)).1

theorem height_of_regularPivots {s t : Tableau ℚ}
    (hpivots : Relation.ReflTransGen RegularPivot s t) : t.height = s.height := by
  induction hpivots with
  | refl => rfl
  | tail _ hpivot ih =>
      obtain ⟨row, column, -, -, -, -, rfl⟩ := hpivot
      rw [height_pivot, ih]

theorem derived_augment {p : Program ℚ} (hwf : p.WellFormed) {direction : Direction}
    {t : Tableau ℚ} (hpivots : Relation.ReflTransGen RegularPivot (augment p direction) t) :
    (augment p direction).Derived t :=
  derived_of_regularPivots (shaped_augment hwf direction) (canonical_augment hwf direction) hpivots

/-- What holds of every tableau that pivots lead to from the start of a program. The pivots of a run
with any tolerance are such pivots. -/
theorem system_of_regularPivots {p : Program ℚ} (hwf : p.WellFormed) {direction : Direction}
    {t : Tableau ℚ} (hpivots : Relation.ReflTransGen RegularPivot (augment p direction) t) :
    (∀ z, t.Solves z ↔ (augment p direction).Solves z) ∧
      (∃ offset, ∀ z, t.Solves z →
        weigh t.cost z = weigh (augment p direction).cost z + offset) ∧
      (t.height = p.height ∧ (t.basis.map (·.column)).Nodup ∧
        (∀ v ∈ t.basis, t.columns[v.column]? = some v) ∧
        (∀ (i k : Nat) e f, t.equations[i]? = some e → t.equations[k]? = some f →
          f.entry e.basic.column = if k = i then 1 else 0) ∧
        (∀ e ∈ t.equations, t.cost.getD e.basic.column 0 = 0) ∧
        ∃ z, t.IsBasicPoint z ∧ (augment p direction).Solves z) ∧
      ∀ tolerance limit, 0 ≤ tolerance →
        Relation.ReflTransGen RegularPivot (augment p direction) (run tolerance limit t).final := by
  have hderived := derived_augment hwf hpivots
  have hcanonical := hderived.canonical
  obtain ⟨offset, hoffset⟩ := hderived.exists_offset
  refine ⟨hderived.solves_iff, ⟨offset, ?_⟩, ⟨?_, ?_, ?_, ?_, ?_, ?_⟩, ?_⟩
  · intro z hz
    exact hoffset z ((hderived.solves_iff z).mp hz)
  · rw [height_of_regularPivots hpivots, height_augment]
  · exact hcanonical.nodup_columns
  · exact hderived.shaped.column_basic
  · intro i k e f hi hk
    exact hcanonical.entry_basic hi hk
  · exact hcanonical.cost_basic
  · exact ⟨t.vertex, hcanonical.isBasicPoint_vertex,
      (hderived.solves_iff _).mp hcanonical.solves_vertex⟩
  · intro tolerance limit htolerance
    exact hpivots.trans (regularPivots_run htolerance hderived.shaped limit)

/-- `x + 2y` where `x + y = 3` and `-x ≤ -1`. -/
def twoRows : Program ℚ :=
  .ofRows [⟨[1, 1], .equal, 3, none⟩, ⟨[-1, 0], .lessEq, -1, none⟩] [⟨1, none⟩, ⟨2, none⟩]

/-- The variable `y` becomes basic, and then the surplus of the second row, on a negative entry. -/
def twoPivots : Tableau ℚ := ((augment twoRows .minimize).pivot 0 1).pivot 1 3

theorem regularPivots_twoPivots :
    Relation.ReflTransGen RegularPivot (augment twoRows .minimize) twoPivots := by
  have hfirst : RegularPivot (augment twoRows .minimize) ((augment twoRows .minimize).pivot 0 1) :=
    ⟨0, 1, _, rfl, by decide, by decide +kernel, rfl⟩
  have hsecond : RegularPivot ((augment twoRows .minimize).pivot 0 1) twoPivots :=
    ⟨1, 3, _, rfl, by decide, by decide +kernel, rfl⟩
  exact .tail (.single hfirst) hsecond

theorem system_twoPivots :
    twoPivots.rhs = [3, -1] ∧
      ∃ z, twoPivots.IsBasicPoint z ∧ (augment twoRows .minimize).Solves z := by
  have hwf : twoRows.WellFormed := ⟨by decide, by decide, by decide, by decide⟩
  have hsystem := system_of_regularPivots hwf regularPivots_twoPivots
  exact ⟨by decide +kernel, hsystem.2.2.1.2.2.2.2.2⟩

end LinProg.Tableau
