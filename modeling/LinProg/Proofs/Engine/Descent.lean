import Mathlib.Data.Finset.Powerset
import LinProg.Proofs.Engine.Penalised
import LinProg.Proofs.Engine.PivotLimit
import LinProg.Proofs.Tableau.SameBasis

/-!
# The descent of an exact run

Each pivot of an exact run lowers the penalised cost of the vertex by the least ratio times the
reduced cost, so a basis that comes back has cost nothing on the way: all pivots since then were at
ratio zero and have left the vertex where it was. Where all right sides are positive no basis comes
back, and as there are only so many choices of basic columns the loop ends.
-/

namespace LinProg

namespace Tableau

variable {p : Program ℚ} {direction : Direction} {s t u v w : Tableau ℚ}

/-! ### One step -/

/-- The second tableau comes from the first one by the pivot that the loop chooses, on the entry that
the equation has in the column. -/
structure Turn (t u : Tableau ℚ) (row column : Nat) (e : Equation ℚ) : Prop where
  choose_eq : t.choose 0 = .pivot row column
  next_eq : u = t.pivot row column
  row_eq : t.equations[row]? = some e
  cost_neg : t.cost.getD column 0 < 0
  entry_pos : 0 < e.entry column
  ratio_le : ∀ f ∈ t.equations, 0 < f.entry column → ratio column e ≤ ratio column f

theorem exists_turn (hstep : Step 0 t u) : ∃ row column e, t.Turn u row column e := by
  obtain ⟨row, column, hchoose, hnext⟩ := hstep
  obtain ⟨⟨cost, hcost, hnegative⟩, e, hrow, hentry, hleast⟩ := ratio_of_choose_pivot hchoose
  refine ⟨row, column, e, hchoose, hnext, hrow, ?_, hentry, hleast⟩
  rw [List.getD_eq_getElem?_getD, hcost, Option.getD_some]
  rwa [neg_zero] at hnegative

namespace Turn

variable {row column : Nat} {e : Equation ℚ} (turn : t.Turn u row column e)

include turn

theorem mem : e ∈ t.equations := List.mem_of_getElem? turn.row_eq

theorem ratio_nonneg (hrhs : ∀ e ∈ t.equations, 0 ≤ e.rhs) : 0 ≤ ratio column e :=
  div_nonneg (hrhs e turn.mem) turn.entry_pos.le

theorem fall_nonneg (hrhs : ∀ e ∈ t.equations, 0 ≤ e.rhs) :
    0 ≤ -t.cost.getD column 0 * ratio column e :=
  mul_nonneg (neg_nonneg.mpr turn.cost_neg.le) (turn.ratio_nonneg hrhs)

theorem exists_entering (hshaped : t.Shaped) : ∃ v, t.columns[column]? = some v :=
  ⟨_, List.getElem?_eq_getElem (column_lt_of_choose hshaped turn.choose_eq)⟩

/-- The vertex goes along the ray of the column, and the cost row says what that costs. -/
theorem weigh_cost_vertex (hshaped : t.Shaped) (hcanonical : u.Canonical) :
    weigh t.cost u.vertex = t.cost.getD column 0 * ratio column e := by
  obtain ⟨entering, hcolumn⟩ := turn.exists_entering hshaped
  have hsolves : t.Solves u.vertex := by
    rw [← solves_pivot hshaped turn.row_eq hcolumn turn.entry_pos.ne', ← turn.next_eq]
    exact hcanonical.solves_vertex
  have hcost := weigh_cost_pivot hshaped turn.row_eq hcolumn turn.entry_pos.ne' hsolves
  rw [← turn.next_eq, hcanonical.weigh_cost_vertex] at hcost
  exact sub_eq_zero.mp hcost.symm

theorem rhs_pivotRow (hzero : ratio column e = 0) : e.rhs = 0 :=
  (div_eq_zero_iff.mp hzero).resolve_right turn.entry_pos.ne'

theorem not_basic (hcanonical : t.Canonical) : ∀ f ∈ t.equations, f.basic.column ≠ column := by
  rintro f hf rfl
  exact turn.cost_neg.ne (hcanonical.cost_basic f hf)

/-- At ratio zero the pivot row has the right side zero, and no multiple of it changes another. -/
theorem rhs_eq (hshaped : t.Shaped) (hzero : ratio column e = 0) : u.rhs = t.rhs := by
  obtain ⟨entering, hcolumn⟩ := turn.exists_entering hshaped
  have hdivided : (e.divide (e.entry column)).rhs = 0 := hzero
  have he := turn.rhs_pivotRow hzero
  apply List.ext_getElem?
  intro i
  unfold Tableau.rhs
  rw [List.getElem?_map, List.getElem?_map, turn.next_eq,
    getElem?_equations_pivot turn.row_eq hcolumn, Option.map_map]
  cases hother : t.equations[i]? with
  | none => rfl
  | some other =>
      simp only [Option.map_some, Function.comp_apply, Option.some.injEq]
      split
      · next hir =>
          subst hir
          obtain rfl : e = other := Option.some.inj (turn.row_eq.symm.trans hother)
          rw [he]
          exact hdivided
      · rw [Equation.rhs_eliminate, hdivided, mul_zero, sub_zero]

end Turn

/-! ### The vertex of a basis -/

theorem IsBasicPoint.unique {y z : Assignment} (hy : t.IsBasicPoint y) (hz : t.IsBasicPoint z) :
    y = z := by
  funext j
  by_cases hbasic : ∃ e ∈ t.equations, e.basic.column = j
  · obtain ⟨e, he, rfl⟩ := hbasic
    rw [hy.eq_rhs e he, hz.eq_rhs e he]
  · have hne : ∀ e ∈ t.equations, e.basic.column ≠ j := fun e he heq => hbasic ⟨e, he, heq⟩
    rw [hy.eq_zero j hne, hz.eq_zero j hne]

/-- At ratio zero the variable that enters is at zero, as the one that leaves has been. -/
theorem Turn.isBasicPoint_vertex {row column : Nat} {e : Equation ℚ}
    (turn : t.Turn u row column e) (hshaped : t.Shaped) (ht : t.Canonical)
    (hzero : ratio column e = 0) : u.IsBasicPoint t.vertex := by
  obtain ⟨entering, hcolumn⟩ := turn.exists_entering hshaped
  have hdivided : (e.divide (e.entry column)).rhs = 0 := hzero
  have hpoint := ht.isBasicPoint_vertex
  have hmem := fun f => mem_equations_pivot turn.row_eq hcolumn (f := f)
  rw [← turn.next_eq] at hmem
  constructor
  · intro f hf
    rcases (hmem f).mp hf with rfl | ⟨i, other, -, hother, rfl⟩
    · show t.vertex entering.column = (e.divide (e.entry column)).rhs
      rw [hshaped.column_eq column entering hcolumn, hpoint.eq_zero column (turn.not_basic ht),
        hdivided]
    · rw [basic_eliminate, Equation.rhs_eliminate, hdivided, mul_zero, sub_zero]
      exact hpoint.eq_rhs other (List.mem_of_getElem? hother)
  · intro j hj
    by_cases hleaving : e.basic.column = j
    · rw [← hleaving, hpoint.eq_rhs e turn.mem, turn.rhs_pivotRow hzero]
    · -- every other basic variable of the first tableau stays basic
      refine hpoint.eq_zero j fun f hf heq => ?_
      obtain ⟨i, hi⟩ := List.mem_iff_getElem?.mp hf
      have hir : i ≠ row := by
        rintro rfl
        obtain rfl : e = f := Option.some.inj (turn.row_eq.symm.trans hi)
        exact hleaving heq
      refine hj _ ((hmem _).mpr (.inr ⟨i, f, hir, hi, rfl⟩)) ?_
      rw [basic_eliminate, heq]

theorem Turn.vertex_eq {row column : Nat} {e : Equation ℚ} (turn : t.Turn u row column e)
    (hshaped : t.Shaped) (ht : t.Canonical) (hu : u.Canonical) (hzero : ratio column e = 0) :
    u.vertex = t.vertex :=
  hu.isBasicPoint_vertex.unique (turn.isBasicPoint_vertex hshaped ht hzero)

theorem vertex_eq_of_sameColumns (ht : s.Derived t) (hu : s.Derived u) (hsame : t.SameColumns u) :
    u.vertex = t.vertex := by
  have hpoint := hu.canonical.isBasicPoint_vertex
  have hbasic : t.IsBasicPoint u.vertex := by
    constructor
    · intro e he
      obtain ⟨f, hf, hcolumn⟩ := hsame.exists_equation he
      rw [← hcolumn, hpoint.eq_rhs f hf, rhs_eq_of_basic ht hu hsame he hf hcolumn]
    · intro j hj
      refine hpoint.eq_zero j fun f hf heq => ?_
      obtain ⟨e, he, hcolumn⟩ := hsame.symm.exists_equation hf
      exact hj e he (hcolumn.trans heq)
  exact hbasic.unique ht.canonical.isBasicPoint_vertex

/-! ### The cost of the vertex -/

/-- On the solutions the cost row of any tableau of a run is the penalised cost up to a constant. -/
theorem exists_augmentedCost_eq (hwf : p.WellFormed) (h : (augment p direction).Reached t) :
    ∃ c, ∀ z, t.Solves z → p.augmentedCost direction z = weigh t.cost z + c := by
  obtain ⟨c, hc⟩ := h.exists_offset
  refine ⟨takenOut (bigMOf p.normalisedRows p.costs) p.normalisedRows - c, fun z hz => ?_⟩
  have hstart := (h.solves_iff z).mp hz
  have hcost := weigh_cost_eq_augmentedCost_sub hwf hstart
  rw [hc z hstart, hcost]
  ring

theorem Turn.augmentedCost_vertex (hwf : p.WellFormed) (h : (augment p direction).Reached t)
    (hu : (augment p direction).Reached u) {row column : Nat} {e : Equation ℚ}
    (turn : t.Turn u row column e) :
    p.augmentedCost direction u.vertex
      = p.augmentedCost direction t.vertex - -t.cost.getD column 0 * ratio column e := by
  obtain ⟨c, hc⟩ := exists_augmentedCost_eq hwf h
  have hsolves : t.Solves u.vertex := (h.solves_iff _).mpr hu.solves_vertex
  rw [hc _ hsolves, hc _ h.canonical.solves_vertex, h.canonical.weigh_cost_vertex,
    turn.weigh_cost_vertex h.shaped hu.canonical]
  ring

theorem augmentedCost_vertex_le_of_steps (hwf : p.WellFormed)
    (h : (augment p direction).Reached t) (hsteps : Relation.ReflTransGen (Step 0) t u) :
    p.augmentedCost direction u.vertex ≤ p.augmentedCost direction t.vertex ∧
      (augment p direction).Reached u := by
  induction hsteps with
  | refl => exact ⟨le_refl _, h⟩
  | @tail v w _ hstep ih =>
      obtain ⟨hle, hv⟩ := ih
      have hw := hv.step hstep
      obtain ⟨row, column, e, turn⟩ := exists_turn hstep
      have hfall := turn.fall_nonneg hv.rhs_nonneg
      rw [turn.augmentedCost_vertex hwf hv hw]
      exact ⟨by linarith, hw⟩

/-! ### A basis that comes back -/

/-- Between two vertices of one cost each pivot has been at ratio zero. -/
theorem Turn.ratio_eq_zero (hwf : p.WellFormed) (ht : (augment p direction).Reached t)
    (htv : Relation.ReflTransGen (Step 0) t v) {row column : Nat} {e : Equation ℚ}
    (turn : v.Turn w row column e) (hwu : Relation.ReflTransGen (Step 0) w u)
    (hcost : p.augmentedCost direction u.vertex = p.augmentedCost direction t.vertex) :
    ratio column e = 0 := by
  obtain ⟨hbefore, hv⟩ := augmentedCost_vertex_le_of_steps hwf ht htv
  have hw := hv.step ⟨row, column, turn.choose_eq, turn.next_eq⟩
  have hafter := (augmentedCost_vertex_le_of_steps hwf hw hwu).1
  have hfall := turn.augmentedCost_vertex hwf hv hw
  have hzero : -v.cost.getD column 0 * ratio column e = 0 := by
    have hnonneg := turn.fall_nonneg hv.rhs_nonneg
    linarith
  exact (mul_eq_zero.mp hzero).resolve_left (neg_pos.mpr turn.cost_neg).ne'

/-- The columns that are basic, as a set. -/
def basisColumns (t : Tableau ℚ) : Finset Nat := (t.basis.map (·.column)).toFinset

theorem sameColumns_of_basisColumns_eq (h : t.basisColumns = u.basisColumns) :
    t.SameColumns u := by
  intro column
  unfold basisColumns at h
  rw [← List.mem_toFinset, h, List.mem_toFinset]

theorem basisColumns_mem (hshaped : t.Shaped) (hcanonical : t.Canonical) :
    t.basisColumns ∈ (Finset.range t.width).powersetCard t.height := by
  rw [Finset.mem_powersetCard]
  constructor
  · intro column hcolumn
    obtain ⟨v, hv, rfl⟩ := List.mem_map.mp (List.mem_toFinset.mp hcolumn)
    exact Finset.mem_range.mpr (List.getElem?_eq_some_iff.mp (hshaped.column_basic v hv)).1
  · unfold basisColumns
    rw [List.toFinset_card_of_nodup hcanonical.nodup_columns, List.length_map, basis,
      List.length_map, height]

/-! ### The tableaux of a run -/

theorem After.reached (hwf : p.WellFormed) {pivots : Nat}
    (h : After 0 pivots (augment p direction) t) : (augment p direction).Reached t := by
  obtain ⟨-, rfl⟩ := h
  exact (reached_augment hwf direction).run pivots

theorem After.height_eq (hwf : p.WellFormed) {pivots : Nat}
    (h : After 0 pivots (augment p direction) t) : t.height = (augment p direction).height := by
  obtain ⟨-, rfl⟩ := h
  exact height_of_regularPivots
    (regularPivots_run (le_refl 0) (shaped_augment hwf direction) pivots)

theorem After.exists_turn {pivots : Nat} (ht : After 0 pivots s t)
    (hu : After 0 (pivots + 1) s u) : ∃ row column e, t.Turn u row column e :=
  Tableau.exists_turn (ht.step hu)

/-- Between two visits of a basis each pivot has been at ratio zero. -/
theorem After.ratio_eq_zero (hwf : p.WellFormed) {i j k : Nat} (hij : i ≤ j) (hjk : j < k)
    (ht : After 0 i (augment p direction) t) (hu : After 0 k (augment p direction) u)
    (hsame : t.SameColumns u) (hv : After 0 j (augment p direction) v)
    (hw : After 0 (j + 1) (augment p direction) w) {row column : Nat} {e : Equation ℚ}
    (turn : v.Turn w row column e) : ratio column e = 0 := by
  refine turn.ratio_eq_zero hwf (ht.reached hwf) (ht.steps hij hv) (hw.steps hjk hu) ?_
  rw [vertex_eq_of_sameColumns (ht.reached hwf).toDerived (hu.reached hwf).toDerived hsame]

/-- No tableau that the exact loop gets to has a right side at zero. -/
def StaysPositive (s : Tableau ℚ) : Prop :=
  ∀ pivots t, After 0 pivots s t → ∀ e ∈ t.equations, 0 < e.rhs

theorem StaysPositive.not_sameColumns (hwf : p.WellFormed)
    (hpositive : (augment p direction).StaysPositive) {i k : Nat} (hik : i < k)
    (ht : After 0 i (augment p direction) t) (hu : After 0 k (augment p direction) u) :
    ¬ t.SameColumns u := by
  intro hsame
  obtain ⟨w, hw⟩ := hu.exists_of_le (Nat.succ_le_of_lt hik)
  obtain ⟨row, column, e, turn⟩ := ht.exists_turn hw
  have hzero := ht.ratio_eq_zero hwf (le_refl i) hik hu hsame ht hw turn
  exact (div_pos (hpositive i t ht e turn.mem) turn.entry_pos).ne' hzero

/-- The sets of basic columns along the run are different choices of `height` columns. -/
theorem StaysPositive.pivotCount_lt (hwf : p.WellFormed)
    (hpositive : (augment p direction).StaysPositive) :
    (augment p direction).pivotCount 0
      < ((augment p direction).width.choose (augment p direction).height : ℕ∞) := by
  let s := augment p direction
  let bases := (Finset.range s.width).powersetCard s.height
  let visited := fun pivots => (run 0 pivots s).final.basisColumns
  by_contra hmany
  have hafter : ∀ i ∈ Finset.range (bases.card + 1), After 0 i s (run 0 i s).final := by
    intro i hi
    refine after_final_iff.mpr (le_trans ?_ (not_lt.mp hmany))
    rw [Finset.mem_range, Nat.lt_succ_iff, Finset.card_powersetCard, Finset.card_range] at hi
    exact_mod_cast hi
  have hbases : ∀ i ∈ Finset.range (bases.card + 1), visited i ∈ bases := by
    intro i hi
    have hreached := (hafter i hi).reached hwf
    have hmem := basisColumns_mem hreached.shaped hreached.canonical
    rwa [width, hreached.columns_eq, (hafter i hi).height_eq hwf] at hmem
  have hinjective : Set.InjOn visited (Finset.range (bases.card + 1)) := by
    intro i hi k hk heq
    have hsame := sameColumns_of_basisColumns_eq heq
    by_contra hne
    rcases Nat.lt_or_gt_of_ne hne with hik | hki
    · exact hpositive.not_sameColumns hwf hik (hafter i hi) (hafter k hk) hsame
    · exact hpositive.not_sameColumns hwf hki (hafter k hk) (hafter i hi) hsame.symm
  have hcard := Finset.card_le_card_of_injOn visited hbases hinjective
  rw [Finset.card_range] at hcard
  exact Nat.not_succ_le_self _ hcard

end Tableau

/-! ### The loop of an engine -/

namespace Engine

variable {p : Program ℚ} {direction : Direction} {e : Engine ℚ}

/-- A solve from the start leaves the tableau that its count of pivots leads to. -/
theorem after_solve_setup (hwf : e.program.WellFormed) (hexact : e.settings.tolerance = 0)
    (fuel : Nat) (direction : Direction) :
    ∃ t, ((e.setup direction).solve fuel).2.tableau = some t ∧
      (Tableau.augment e.program direction).After 0
        ((e.setup direction).solve fuel).2.iterations t := by
  have hfits := fits_setup hwf direction
  refine ⟨_, solve_tableau hfits.shaped.height_lt_width fuel, ?_⟩
  rw [hfits.solve_iterations, loop_setup hexact]
  exact Tableau.after_length_exchanges _ _ _

theorem ended_setup (hwf : e.program.WellFormed) (hexact : e.settings.tolerance = 0) {fuel : Nat}
    {direction : Direction} {pivots : Nat}
    (hfew : (Tableau.augment e.program direction).pivotCount 0 < pivots)
    (hlimit : pivots ≤ e.settings.maxIterations.getD fuel) :
    (∃ status, ((e.setup direction).solve fuel).1 = .ok status) ∧
      ((e.setup direction).solve fuel).2.iterations < pivots := by
  have hfits := fits_setup hwf direction
  have hle : (Tableau.augment e.program direction).pivotCount 0
      ≤ (e.settings.maxIterations.getD fuel : ℕ∞) := hfew.le.trans (by exact_mod_cast hlimit)
  constructor
  · refine hfits.exists_status ?_
    rw [loop_setup hexact]
    exact Tableau.not_truncated_iff.mpr hle
  · have hlength := Tableau.length_exchanges_of_le hle
    rw [← hlength] at hfew
    rw [hfits.solve_iterations, loop_setup hexact]
    exact_mod_cast hfew

end Engine

namespace Tableau

/-- What the exact loop does from the start of a program. -/
structure Descends (p : Program ℚ) (direction : Direction) : Prop where
  /-- The tableaux after some count of pivots are those that a solve stops at. -/
  stops : ∀ (e : Engine ℚ) fuel, e.program = p → e.settings.tolerance = 0 →
    ∃ t, ((e.setup direction).solve fuel).2.tableau = some t ∧
      (augment p direction).After 0 ((e.setup direction).solve fuel).2.iterations t
  feasible : ∀ pivots t, (augment p direction).After 0 pivots t → ∀ e ∈ t.equations, 0 ≤ e.rhs
  falls : ∀ pivots t u, (augment p direction).After 0 pivots t →
    (augment p direction).After 0 (pivots + 1) u → ∃ row column e, t.Turn u row column e ∧
      0 ≤ -t.cost.getD column 0 * ratio column e ∧
      p.augmentedCost direction u.vertex
        = p.augmentedCost direction t.vertex - -t.cost.getD column 0 * ratio column e
  /-- A set of basic columns comes back only over pivots that change no right side. -/
  returns : ∀ i k t u, i < k → (augment p direction).After 0 i t →
    (augment p direction).After 0 k u → t.SameColumns u → ∀ j v w, i ≤ j → j < k →
      (augment p direction).After 0 j v → (augment p direction).After 0 (j + 1) w →
        ∃ row column e, v.Turn w row column e ∧ ratio column e = 0 ∧ w.rhs = v.rhs ∧
          w.vertex = v.vertex
  never_returns : (augment p direction).StaysPositive → ∀ i k t u, i < k →
    (augment p direction).After 0 i t → (augment p direction).After 0 k u → ¬ t.SameColumns u
  ends : (augment p direction).StaysPositive →
    (augment p direction).pivotCount 0
        < ((augment p direction).width.choose (augment p direction).height : ℕ∞) ∧
      ∀ (e : Engine ℚ) fuel, e.program = p → e.settings.tolerance = 0 →
        (augment p direction).width.choose (augment p direction).height
            ≤ e.settings.maxIterations.getD fuel →
          (∃ status, ((e.setup direction).solve fuel).1 = .ok status) ∧
            ((e.setup direction).solve fuel).2.iterations
              < (augment p direction).width.choose (augment p direction).height

theorem descends {p : Program ℚ} (hwf : p.WellFormed) (direction : Direction) :
    Descends p direction where
  stops := by
    rintro e fuel rfl hexact
    exact Engine.after_solve_setup hwf hexact fuel direction
  feasible := fun _ _ h => (h.reached hwf).rhs_nonneg
  falls := by
    intro pivots t u ht hu
    obtain ⟨row, column, e, turn⟩ := ht.exists_turn hu
    exact ⟨row, column, e, turn, turn.fall_nonneg (ht.reached hwf).rhs_nonneg,
      turn.augmentedCost_vertex hwf (ht.reached hwf) (hu.reached hwf)⟩
  returns := by
    intro i k t u _ ht hu hsame j v w hij hjk hv hw
    obtain ⟨row, column, e, turn⟩ := hv.exists_turn hw
    have hreached := hv.reached hwf
    have hzero := ht.ratio_eq_zero hwf hij hjk hu hsame hv hw turn
    exact ⟨row, column, e, turn, hzero, turn.rhs_eq hreached.shaped hzero,
      turn.vertex_eq hreached.shaped hreached.canonical (hw.reached hwf).canonical hzero⟩
  never_returns := fun hpositive _ _ _ _ hik ht hu => hpositive.not_sameColumns hwf hik ht hu
  ends := by
    intro hpositive
    have hfew := hpositive.pivotCount_lt hwf
    refine ⟨hfew, ?_⟩
    rintro e fuel rfl hexact hlimit
    exact Engine.ended_setup hwf hexact hfew hlimit

/-- The loop comes back to the slack basis of these rows after six pivots at ratio zero. -/
def cyclingRows : Program ℚ :=
  .ofRows [⟨[1/2, -11/2, -5/2, 9], .lessEq, 0, none⟩, ⟨[1/2, -3/2, -1/2, 1], .lessEq, 0, none⟩]
    [⟨-10, none⟩, ⟨57, none⟩, ⟨9, none⟩, ⟨24, none⟩]

/-- `2x + y` is largest where `x ≤ 3` meets `x + y ≤ 4`, two pivots from the start. -/
def twoTurns : Program ℚ :=
  .ofRows [⟨[1, 1], .lessEq, 4, none⟩, ⟨[1, 0], .lessEq, 3, none⟩] [⟨2, none⟩, ⟨1, none⟩]

theorem staysPositive_twoTurns : (augment twoTurns .maximize).StaysPositive := by
  have hended : (run 0 2 (augment twoTurns .maximize)).stop ≠ .truncated := by decide +kernel
  intro pivots t ht
  obtain ⟨-, rfl⟩ := id ht
  have hcount := (after_final_iff.mp ht).trans (not_truncated_iff.mp hended)
  have hpivots : pivots ≤ 2 := by exact_mod_cast hcount
  interval_cases pivots <;> decide +kernel

theorem descends_cyclingRows :
    (∃ u, (augment cyclingRows .minimize).After 0 6 u ∧
        (augment cyclingRows .minimize).basis = u.basis) ∧
      (∀ j v w, j < 6 → (augment cyclingRows .minimize).After 0 j v →
        (augment cyclingRows .minimize).After 0 (j + 1) w → w.vertex = v.vertex) ∧
      (augment twoTurns .maximize).pivotCount 0 < 6 := by
  have hcycling : cyclingRows.WellFormed := ⟨by decide, by decide, by decide, by decide⟩
  have htwo : twoTurns.WellFormed := ⟨by decide, by decide, by decide, by decide⟩
  have hsix : (run 0 6 (augment cyclingRows .minimize)).exchanges.length = 6 := by decide +kernel
  have hbasis : (augment cyclingRows .minimize).basis
      = (run 0 6 (augment cyclingRows .minimize)).final.basis := by decide +kernel
  refine ⟨⟨_, ⟨hsix, rfl⟩, hbasis⟩, ?_, ?_⟩
  · intro j v w hj hv hw
    obtain ⟨_, _, _, -, -, -, hvertex⟩ := (descends hcycling .minimize).returns 0 6 _ _ (by decide)
      (after_zero 0 _) ⟨hsix, rfl⟩ (fun column => by rw [hbasis]) j v w (Nat.zero_le j) hj hv hw
    exact hvertex
  · exact ((descends htwo .maximize).ends staysPositive_twoTurns).1

end Tableau

end LinProg
