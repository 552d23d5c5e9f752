import LinProg.Proofs.Tableau.Basis
import LinProg.Proofs.Tableau.Directions

/-!
# Tableaux with the same basis

Whatever the pivots were that led to it, a tableau is determined by its basic variables. Where two
tableaux have the same basic columns, an equation of the one and an equation of the other that share
their basic variable see the same values on the vertex and on the rays, so they are the same. The
count of artificial variables is the one of the basis, which forgets how it has come about.
-/

namespace LinProg.Tableau

variable {s t u : Tableau ℚ}

/-- The same columns are basic, in any order of the rows. -/
def SameColumns (t u : Tableau ℚ) : Prop :=
  ∀ column, column ∈ t.basis.map (·.column) ↔ column ∈ u.basis.map (·.column)

theorem mem_basisColumns {column : Nat} :
    column ∈ t.basis.map (·.column) ↔ ∃ e ∈ t.equations, e.basic.column = column := by
  unfold basis
  simp

theorem SameColumns.symm (h : t.SameColumns u) : u.SameColumns t := fun column => (h column).symm

theorem SameColumns.exists_equation (h : t.SameColumns u) {e : Equation ℚ}
    (he : e ∈ t.equations) : ∃ f ∈ u.equations, f.basic.column = e.basic.column :=
  mem_basisColumns.mp ((h _).mp (mem_basisColumns.mpr ⟨e, he, rfl⟩))

theorem Canonical.entry_eq_zero (h : t.Canonical) {e f : Equation ℚ} (he : e ∈ t.equations)
    (hf : f ∈ t.equations) (hne : e.basic.column ≠ f.basic.column) :
    f.entry e.basic.column = 0 := by
  obtain ⟨i, hi⟩ := List.mem_iff_getElem?.mp he
  obtain ⟨k, hk⟩ := List.mem_iff_getElem?.mp hf
  refine h.entry_other i k e f hi hk ?_
  rintro rfl
  obtain rfl : e = f := Option.some.inj (hi.symm.trans hk)
  exact hne rfl

/-! ### Equations with the same basic variable -/

section Equations

variable {e f : Equation ℚ}

/-- In the columns that are basic, all that counts is which one belongs to the equation. -/
theorem entry_eq_of_basic (ht : t.Canonical) (hu : u.Canonical) (hsame : t.SameColumns u)
    (he : e ∈ t.equations) (hf : f ∈ u.equations) (hbasic : f.basic.column = e.basic.column)
    {g : Equation ℚ} (hg : g ∈ t.equations) :
    f.entry g.basic.column = e.entry g.basic.column := by
  by_cases heq : g.basic.column = e.basic.column
  · rw [heq, ht.entry_self e he, ← hbasic, hu.entry_self f hf]
  · obtain ⟨g', hg', hcolumn⟩ := hsame.exists_equation hg
    have hne : g'.basic.column ≠ f.basic.column := by
      rw [hcolumn, hbasic]
      exact heq
    rw [ht.entry_eq_zero hg he heq, ← hcolumn, hu.entry_eq_zero hg' hf hne]

theorem weigh_superpose_eq (ht : t.Canonical) (hu : u.Canonical) (hsame : t.SameColumns u)
    (he : e ∈ t.equations) (hf : f ∈ u.equations) (hbasic : f.basic.column = e.basic.column)
    (value : Equation ℚ → ℚ) : weigh f.entries (superpose value t.equations) = value e := by
  have hentries : (t.equations.map fun g => f.entries.getD g.basic.column 0 * value g)
      = t.equations.map fun g => e.entries.getD g.basic.column 0 * value g := by
    refine List.map_congr_left fun g hg => ?_
    exact congrArg (· * value g) (entry_eq_of_basic ht hu hsame he hf hbasic hg)
  rw [weigh_superpose, hentries, ← weigh_superpose]
  exact ht.weigh_entries_superpose value he

theorem weigh_cost_superpose_eq_zero (hu : u.Canonical) (hsame : t.SameColumns u)
    (value : Equation ℚ → ℚ) : weigh u.cost (superpose value t.equations) = 0 := by
  rw [weigh_superpose]
  apply List.sum_eq_zero
  intro v hv
  obtain ⟨g, hg, rfl⟩ := List.mem_map.mp hv
  obtain ⟨g', hg', hcolumn⟩ := hsame.exists_equation hg
  rw [← hcolumn, hu.cost_basic g' hg', zero_mul]

theorem rhs_eq_of_basic (ht : s.Derived t) (hu : s.Derived u) (hsame : t.SameColumns u)
    (he : e ∈ t.equations) (hf : f ∈ u.equations) (hbasic : f.basic.column = e.basic.column) :
    f.rhs = e.rhs := by
  have hsolves : u.Solves t.vertex :=
    (hu.solves_iff _).mpr ((ht.solves_iff _).mp ht.canonical.solves_vertex)
  calc f.rhs = weigh f.entries t.vertex := (hsolves f hf).symm
    _ = e.rhs := weigh_superpose_eq ht.canonical hu.canonical hsame he hf hbasic (·.rhs)

theorem Derived.homogeneous_ray (ht : s.Derived t) (hu : s.Derived u) (column : Nat) :
    u.Homogeneous (t.ray column) ∧ s.Homogeneous (t.ray column) := by
  have hvertex : s.Solves t.vertex := (ht.solves_iff _).mp ht.canonical.solves_vertex
  have hstart := (ht.homogeneous_iff hvertex).mp (ht.canonical.homogeneous_ray column)
  exact ⟨(hu.homogeneous_iff hvertex).mpr hstart, hstart⟩

theorem entry_eq_of_derived (ht : s.Derived t) (hu : s.Derived u) (hsame : t.SameColumns u)
    (he : e ∈ t.equations) (hf : f ∈ u.equations) (hbasic : f.basic.column = e.basic.column)
    (column : Nat) : f.entry column = e.entry column := by
  have hray := (ht.homogeneous_ray hu column).1 f hf
  rw [weigh_ray, weigh_superpose_eq ht.canonical hu.canonical hsame he hf hbasic] at hray
  exact sub_eq_zero.mp hray

theorem eq_of_getD_eq {xs ys : List ℚ} (hlength : xs.length = ys.length)
    (hvalues : ∀ j, xs.getD j 0 = ys.getD j 0) : xs = ys := by
  refine List.ext_getElem hlength fun j hx hy => ?_
  rw [← List.getD_eq_getElem xs 0 hx, ← List.getD_eq_getElem ys 0 hy]
  exact hvalues j

theorem equation_eq (ht : s.Derived t) (hu : s.Derived u) (hsame : t.SameColumns u)
    (he : e ∈ t.equations) (hf : f ∈ u.equations) (hbasic : f.basic.column = e.basic.column) :
    f = e := by
  have hentries : f.entries = e.entries := by
    refine eq_of_getD_eq ?_ (entry_eq_of_derived ht hu hsame he hf hbasic)
    rw [hu.shaped.entries_length f hf, ht.shaped.entries_length e he, width, width, hu.columns_eq,
      ht.columns_eq]
  have hvariable : f.basic = e.basic := by
    have hfcolumn := hu.shaped.column_basic _ (basic_mem_basis hf)
    have hecolumn := ht.shaped.column_basic _ (basic_mem_basis he)
    rw [hu.columns_eq, hbasic, ← ht.columns_eq, hecolumn] at hfcolumn
    exact (Option.some.inj hfcolumn).symm
  obtain ⟨fentries, frhs, fbasic⟩ := f
  obtain ⟨eentries, erhs, ebasic⟩ := e
  have hrhs := rhs_eq_of_basic ht hu hsame he hf hbasic
  simp only at hentries hvariable hrhs
  rw [hentries, hvariable, hrhs]

end Equations

/-! ### Whole tableaux -/

theorem cost_eq_of_derived (ht : s.Derived t) (hu : s.Derived u) (hsame : t.SameColumns u) :
    u.cost = t.cost := by
  have hvertex : s.Solves t.vertex := (ht.solves_iff _).mp ht.canonical.solves_vertex
  refine eq_of_getD_eq ?_ fun column => ?_
  · rw [hu.shaped.cost_length, ht.shaped.cost_length, width, width, hu.columns_eq, ht.columns_eq]
  · -- both cost rows weigh the ray as the start does, and each of them sees only its own column
    have hstart := (ht.homogeneous_ray hu column).2
    have hagree : weigh u.cost (t.ray column) = weigh t.cost (t.ray column) :=
      (hu.weigh_cost_eq hvertex hstart).trans (ht.weigh_cost_eq hvertex hstart).symm
    rw [weigh_ray, weigh_cost_superpose_eq_zero hu.canonical hsame, sub_zero,
      ht.canonical.weigh_cost_ray] at hagree
    exact hagree

theorem Canonical.nodup_equations (h : t.Canonical) : t.equations.Nodup :=
  h.pairwise_column_ne.imp fun hne heq => hne (congrArg (·.basic.column) heq)

theorem equations_perm (ht : s.Derived t) (hu : s.Derived u) (hsame : t.SameColumns u) :
    t.equations.Perm u.equations := by
  rw [List.perm_ext_iff_of_nodup ht.canonical.nodup_equations hu.canonical.nodup_equations]
  intro e
  constructor
  · intro he
    obtain ⟨f, hf, hbasic⟩ := hsame.exists_equation he
    rwa [← equation_eq ht hu hsame he hf hbasic]
  · intro he
    obtain ⟨f, hf, hbasic⟩ := hsame.symm.exists_equation he
    rwa [← equation_eq hu ht hsame.symm he hf hbasic]

theorem equations_eq_of_basis_eq (ht : s.Derived t) (hu : s.Derived u)
    (hbasis : t.basis = u.basis) : t.equations = u.equations := by
  have hsame : t.SameColumns u := fun column => by rw [hbasis]
  have hlength : t.equations.length = u.equations.length := by
    simpa [basis] using congrArg List.length hbasis
  refine List.ext_getElem hlength fun i hi hk => ?_
  have hbasic : t.equations[i].basic = u.equations[i].basic := by
    simpa [basis, hi, hk] using congrArg (·[i]?) hbasis
  exact (equation_eq ht hu hsame (List.getElem_mem hi) (List.getElem_mem hk)
    (congrArg Variable.column hbasic).symm).symm

theorem artificialCount_eq (ht : t.Shaped) (hu : u.Shaped)
    (hperm : t.equations.Perm u.equations) : t.artificialCount = u.artificialCount := by
  rw [ht.count_eq, hu.count_eq]
  exact (hperm.map (·.basic)).countP_eq _

theorem bigM_of_regularPivots (hpivots : Relation.ReflTransGen RegularPivot s t) :
    t.bigM = s.bigM := by
  induction hpivots with
  | refl => rfl
  | tail _ hpivot ih =>
      obtain ⟨row, column, -, -, -, -, rfl⟩ := hpivot
      rw [bigM_pivot, ih]

/-- The order of the equations is all in which two tableaux with the same basic columns differ. -/
theorem eq_with_equations (ht : s.Derived t) (hu : s.Derived u) (hbigM : t.bigM = u.bigM)
    (hsame : t.SameColumns u) : t = { u with equations := t.equations } := by
  have hcolumns : t.columns = u.columns := ht.columns_eq.trans hu.columns_eq.symm
  have hdecisions : t.decisionCount = u.decisionCount :=
    ht.decisionCount_eq.trans hu.decisionCount_eq.symm
  have hcost := cost_eq_of_derived ht hu hsame
  have hcount := artificialCount_eq ht.shaped hu.shaped (equations_perm ht hu hsame)
  rw [← hcolumns, ← hdecisions, hcost, ← hcount, ← hbigM]

theorem eq_of_derived (ht : s.Derived t) (hu : s.Derived u) (hbigM : t.bigM = u.bigM)
    (hbasis : t.basis = u.basis) : t = u := by
  have heq := eq_with_equations ht hu hbigM fun column => by rw [hbasis]
  rwa [equations_eq_of_basis_eq ht hu hbasis] at heq

/-! ### Back again -/

/-- After a pivot the variable that has left can come back into its row, and then the basis is as it
was before. -/
theorem regularPivot_back (h : s.Derived t) {row column : Nat} {e : Equation ℚ}
    (hrow : t.equations[row]? = some e) (hwidth : column < t.width) (hentry : e.entry column ≠ 0) :
    (∃ f, (t.pivot row column).equations[row]? = some f ∧ f.entry e.basic.column ≠ 0) ∧
      (t.pivot row column).RegularPivot ((t.pivot row column).pivot row e.basic.column) ∧
      ((t.pivot row column).pivot row e.basic.column).basis = t.basis := by
  have he : e ∈ t.equations := List.mem_of_getElem? hrow
  have hcolumn : t.columns[column]? = some t.columns[column] := List.getElem?_eq_getElem hwidth
  have hleaving : t.columns[e.basic.column]? = some e.basic :=
    h.shaped.column_basic _ (basic_mem_basis he)
  have hself := getElem?_equations_pivot_self hrow hcolumn
  have hback : ({ e.divide (e.entry column) with basic := t.columns[column] } : Equation ℚ).entry
      e.basic.column ≠ 0 := by
    show (e.divide (e.entry column)).entry e.basic.column ≠ 0
    rw [Equation.entry_divide, h.canonical.entry_self e he]
    exact one_div_ne_zero hentry
  have hlt : e.basic.column < (t.pivot row column).width := by
    rw [width, columns_pivot]
    exact (List.getElem?_eq_some_iff.mp hleaving).1
  refine ⟨⟨_, hself, hback⟩, ⟨row, e.basic.column, _, hself, hlt, hback, rfl⟩, ?_⟩
  have hentering : (t.pivot row column).columns[e.basic.column]? = some e.basic := by
    rw [columns_pivot, hleaving]
  have hbasic : t.basis[row]? = some e.basic := by simp [basis, hrow]
  rw [basis_pivot hself hentering, basis_pivot hrow hcolumn, List.set_set]
  obtain ⟨hlt, hget⟩ := List.getElem?_eq_some_iff.mp hbasic
  rw [← hget, List.set_getElem_self]

/-- Whatever pivots lead to a tableau, its basis determines it, and the set of its basic columns
determines it up to the order of the rows. So a pivot is undone by the pivot that brings the
variable back. -/
theorem eq_of_basis_eq {p : Program ℚ} (hwf : p.WellFormed) {direction : Direction}
    (ht : Relation.ReflTransGen RegularPivot (augment p direction) t)
    (hu : Relation.ReflTransGen RegularPivot (augment p direction) u) :
    (t.basis = u.basis → t = u) ∧
      (t.SameColumns u →
        t.equations.Perm u.equations ∧ t.cost = u.cost ∧
          t = { u with equations := t.equations }) ∧
      ∀ row column e, t.equations[row]? = some e → column < t.width → e.entry column ≠ 0 →
        (∃ f, (t.pivot row column).equations[row]? = some f ∧ f.entry e.basic.column ≠ 0) ∧
          (t.pivot row column).pivot row e.basic.column = t := by
  have htd := derived_augment hwf ht
  have hud := derived_augment hwf hu
  have hbigM : t.bigM = u.bigM :=
    (bigM_of_regularPivots ht).trans (bigM_of_regularPivots hu).symm
  refine ⟨eq_of_derived htd hud hbigM, ?_, ?_⟩
  · intro hsame
    exact ⟨equations_perm htd hud hsame, (cost_eq_of_derived htd hud hsame).symm,
      eq_with_equations htd hud hbigM hsame⟩
  · intro row column e hrow hwidth hentry
    obtain ⟨hplace, hpivot, hbasis⟩ := regularPivot_back htd hrow hwidth hentry
    have hthere : t.RegularPivot (t.pivot row column) := ⟨row, column, e, hrow, hwidth, hentry, rfl⟩
    have hback := (ht.tail hthere).tail hpivot
    exact ⟨hplace, eq_of_derived (derived_augment hwf hback) htd
      ((bigM_of_regularPivots hback).trans (bigM_of_regularPivots ht).symm) hbasis⟩

/-! ### Three ways to one basis -/

/-- The variables `x` and `y` of `twoRows` become basic, `y` in the first row. -/
def yFirst : Tableau ℚ := ((augment twoRows .minimize).pivot 0 1).pivot 1 0

/-- The same in the opposite order. -/
def yLast : Tableau ℚ := ((augment twoRows .minimize).pivot 1 0).pivot 0 1

/-- The two rows are exchanged. -/
def xAbove : Tableau ℚ := ((augment twoRows .minimize).pivot 0 0).pivot 1 1

theorem regularPivots_two {s : Tableau ℚ} {i j k l : Nat} {e f : Equation ℚ}
    (hi : s.equations[i]? = some e) (hj : j < s.width ∧ e.entry j ≠ 0)
    (hk : (s.pivot i j).equations[k]? = some f) (hl : l < (s.pivot i j).width ∧ f.entry l ≠ 0) :
    Relation.ReflTransGen RegularPivot s ((s.pivot i j).pivot k l) :=
  .tail (.single ⟨i, j, e, hi, hj.1, hj.2, rfl⟩) ⟨k, l, f, hk, hl.1, hl.2, rfl⟩

theorem yFirst_eq_yLast :
    yFirst = yLast ∧ yFirst.equations.Perm xAbove.equations ∧ yFirst.basis ≠ xAbove.basis ∧
      yFirst.pivot 1 4 ≠ yFirst ∧ (yFirst.pivot 1 4).pivot 1 0 = yFirst := by
  have hwf : twoRows.WellFormed := ⟨by decide, by decide, by decide, by decide⟩
  have hfirst : Relation.ReflTransGen RegularPivot (augment twoRows .minimize) yFirst :=
    regularPivots_two rfl (by decide +kernel) rfl (by decide +kernel)
  have hlast : Relation.ReflTransGen RegularPivot (augment twoRows .minimize) yLast :=
    regularPivots_two rfl (by decide +kernel) rfl (by decide +kernel)
  have habove : Relation.ReflTransGen RegularPivot (augment twoRows .minimize) xAbove :=
    regularPivots_two rfl (by decide +kernel) rfl (by decide +kernel)
  have hsame : yFirst.SameColumns xAbove := by
    have hfirst : yFirst.basis.map (·.column) = [1, 0] := by decide +kernel
    have habove : xAbove.basis.map (·.column) = [0, 1] := by decide +kernel
    intro column
    rw [hfirst, habove]
    simp [or_comm]
  obtain ⟨hequal, -, hback⟩ := eq_of_basis_eq hwf hfirst hlast
  obtain ⟨-, hperm, -⟩ := eq_of_basis_eq hwf hfirst habove
  refine ⟨hequal (by decide +kernel), (hperm hsame).1, by decide +kernel, ?_, ?_⟩
  · intro heq
    have hbasis : (yFirst.pivot 1 4).basis ≠ yFirst.basis := by decide +kernel
    exact hbasis (congrArg basis heq)
  · exact (hback 1 4 _ rfl (by decide +kernel) (by decide +kernel)).2

end LinProg.Tableau
