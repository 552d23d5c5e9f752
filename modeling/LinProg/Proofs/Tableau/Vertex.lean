import LinProg.Proofs.Tableau.Elimination
import LinProg.Engine.Basic

/-!
# The vertex of a tableau

A canonical tableau shows a solution of its equations: each basic variable is at its right side and
the others are at zero. It also shows, for each column, how the basic variables follow when the
variable of that column rises. Both are sums of single values, one for each equation.
-/

namespace LinProg.Tableau

/-- Each basic variable at a value of its equation, and the others at zero. -/
def superpose (value : Equation ℚ → ℚ) : List (Equation ℚ) → Assignment
  | [] => fun _ => 0
  | e :: equations => fun j => single e.basic.column (value e) j + superpose value equations j

theorem superpose_cons (value : Equation ℚ → ℚ) (e : Equation ℚ) (equations : List (Equation ℚ))
    (j : Nat) : superpose value (e :: equations) j
      = single e.basic.column (value e) j + superpose value equations j := rfl

/-- The basic variables at their right sides, and the others at zero. -/
def vertex (t : Tableau ℚ) : Assignment := superpose (·.rhs) t.equations

/-- One unit of a column, and the basic variables as the equations make them follow. -/
def ray (t : Tableau ℚ) (column : Nat) : Assignment := fun j =>
  single column 1 j + -1 * superpose (·.entry column) t.equations j

theorem weigh_superpose (weights : List ℚ) (value : Equation ℚ → ℚ)
    (equations : List (Equation ℚ)) :
    weigh weights (superpose value equations)
      = (equations.map fun e => weights.getD e.basic.column 0 * value e).sum := by
  induction equations with
  | nil => exact weigh_zero weights
  | cons e equations ih =>
      rw [superpose, weigh_add, weigh_single, ih, List.map_cons, List.sum_cons]

theorem superpose_nonneg {value : Equation ℚ → ℚ} {equations : List (Equation ℚ)}
    (hvalue : ∀ e ∈ equations, 0 ≤ value e) (j : Nat) : 0 ≤ superpose value equations j := by
  induction equations with
  | nil => exact le_refl 0
  | cons e equations ih =>
      obtain ⟨hhead, htail⟩ := List.forall_mem_cons.mp hvalue
      exact add_nonneg (single_nonneg hhead _ j) (ih htail)

theorem superpose_nonpos {value : Equation ℚ → ℚ} {equations : List (Equation ℚ)}
    (hvalue : ∀ e ∈ equations, value e ≤ 0) (j : Nat) : superpose value equations j ≤ 0 := by
  induction equations with
  | nil => exact le_refl 0
  | cons e equations ih =>
      obtain ⟨hhead, htail⟩ := List.forall_mem_cons.mp hvalue
      exact add_nonpos (single_nonpos hhead _ j) (ih htail)

/-! ### What the equations say -/

theorem Canonical.pairwise {t : Tableau ℚ} (h : t.Canonical) :
    t.equations.Pairwise fun e f => e.entry f.basic.column = 0 ∧ f.entry e.basic.column = 0 := by
  rw [List.pairwise_iff_getElem]
  intro i k hi hk hik
  have hgi := List.getElem?_eq_getElem hi
  have hgk := List.getElem?_eq_getElem hk
  exact ⟨h.entry_other k i _ _ hgk hgi hik.ne', h.entry_other i k _ _ hgi hgk hik.ne⟩

/-- In a list of equations with unit columns each one sees its own value only. -/
theorem sum_entry_mul {equations : List (Equation ℚ)}
    (hself : ∀ e ∈ equations, e.entry e.basic.column = 1)
    (hother : equations.Pairwise fun e f =>
      e.entry f.basic.column = 0 ∧ f.entry e.basic.column = 0)
    (value : Equation ℚ → ℚ) {f : Equation ℚ} (hf : f ∈ equations) :
    (equations.map fun e => f.entry e.basic.column * value e).sum = value f := by
  induction equations with
  | nil => exact absurd hf List.not_mem_nil
  | cons e equations ih =>
      obtain ⟨hhead, hrest⟩ := List.pairwise_cons.mp hother
      obtain ⟨heself, hselfs⟩ := List.forall_mem_cons.mp hself
      rw [List.map_cons, List.sum_cons]
      rcases List.mem_cons.mp hf with rfl | hf
      · have hzero : ∀ v ∈ equations.map fun e => f.entry e.basic.column * value e, v = 0 := by
          intro v hv
          obtain ⟨e, he, rfl⟩ := List.mem_map.mp hv
          rw [(hhead e he).1, zero_mul]
        rw [List.sum_eq_zero hzero, heself, one_mul, add_zero]
      · rw [ih hselfs hrest hf, (hhead f hf).2, zero_mul, zero_add]

theorem Canonical.weigh_entries_superpose {t : Tableau ℚ} (h : t.Canonical)
    (value : Equation ℚ → ℚ) {f : Equation ℚ} (hf : f ∈ t.equations) :
    weigh f.entries (superpose value t.equations) = value f := by
  rw [weigh_superpose]
  exact sum_entry_mul h.entry_self h.pairwise value hf

theorem Canonical.weigh_cost_superpose {t : Tableau ℚ} (h : t.Canonical)
    (value : Equation ℚ → ℚ) : weigh t.cost (superpose value t.equations) = 0 := by
  rw [weigh_superpose]
  apply List.sum_eq_zero
  intro v hv
  obtain ⟨e, he, rfl⟩ := List.mem_map.mp hv
  rw [h.cost_basic e he, zero_mul]

theorem Canonical.solves_vertex {t : Tableau ℚ} (h : t.Canonical) : t.Solves t.vertex :=
  fun _ he => h.weigh_entries_superpose (·.rhs) he

theorem Canonical.weigh_cost_vertex {t : Tableau ℚ} (h : t.Canonical) :
    weigh t.cost t.vertex = 0 := h.weigh_cost_superpose _

theorem weigh_ray (weights : List ℚ) (t : Tableau ℚ) (column : Nat) :
    weigh weights (t.ray column)
      = weights.getD column 0 - weigh weights (superpose (·.entry column) t.equations) := by
  unfold ray
  rw [weigh_add, weigh_single, weigh_mul]
  ring

theorem Canonical.weigh_entries_ray {t : Tableau ℚ} (h : t.Canonical) (column : Nat)
    {e : Equation ℚ} (he : e ∈ t.equations) : weigh e.entries (t.ray column) = 0 := by
  rw [weigh_ray, h.weigh_entries_superpose (·.entry column) he]
  exact sub_self _

theorem Canonical.weigh_cost_ray {t : Tableau ℚ} (h : t.Canonical) (column : Nat) :
    weigh t.cost (t.ray column) = t.cost.getD column 0 := by
  rw [weigh_ray, h.weigh_cost_superpose, sub_zero]

theorem ray_nonneg {t : Tableau ℚ} {column : Nat}
    (hentries : ∀ e ∈ t.equations, e.entry column ≤ 0) (j : Nat) : 0 ≤ t.ray column j := by
  have hfollow := superpose_nonpos hentries j
  have hunit : 0 ≤ single column 1 j := single_nonneg zero_le_one column j
  unfold ray
  linarith

/-- The point that is reached from the vertex by going along a ray. -/
def along (t : Tableau ℚ) (column : Nat) (distance : ℚ) : Assignment := fun j =>
  t.vertex j + distance * t.ray column j

theorem Canonical.solves_along {t : Tableau ℚ} (h : t.Canonical) (column : Nat) (distance : ℚ) :
    t.Solves (t.along column distance) := by
  intro e he
  unfold Equation.Holds along
  rw [weigh_add, weigh_mul, h.weigh_entries_ray column he, mul_zero, add_zero]
  exact h.solves_vertex e he

theorem Canonical.weigh_cost_along {t : Tableau ℚ} (h : t.Canonical) (column : Nat)
    (distance : ℚ) :
    weigh t.cost (t.along column distance) = distance * t.cost.getD column 0 := by
  unfold along
  rw [weigh_add, weigh_mul, h.weigh_cost_vertex, h.weigh_cost_ray, zero_add]

theorem along_nonneg {t : Tableau ℚ} {column : Nat} {distance : ℚ}
    (hvertex : ∀ j, 0 ≤ t.vertex j) (hentries : ∀ e ∈ t.equations, e.entry column ≤ 0)
    (hdistance : 0 ≤ distance) (j : Nat) : 0 ≤ t.along column distance j :=
  add_nonneg (hvertex j) (mul_nonneg hdistance (ray_nonneg hentries j))

/-! ### The values of the decision variables -/

theorem Canonical.pairwise_column_ne {t : Tableau ℚ} (h : t.Canonical) :
    t.equations.Pairwise fun e f => e.basic.column ≠ f.basic.column := by
  apply h.pairwise.imp_of_mem
  intro e f _ hf hother heq
  have hself := h.entry_self f hf
  rw [← heq, hother.2] at hself
  exact zero_ne_one hself

theorem length_foldl_set (equations : List (Equation ℚ)) (x : List ℚ) :
    (equations.foldl (fun x e => if e.basic.role = .decision then x.set e.basic.column e.rhs else x)
      x).length = x.length := by
  induction equations generalizing x with
  | nil => rfl
  | cons e equations ih =>
      rw [List.foldl_cons, ih]
      split
      · exact List.length_set
      · rfl

/-- Writing the basic values into a list adds them to it, since no two are written at one place and
all of these places hold a zero. -/
theorem getD_foldl_set {equations : List (Equation ℚ)} {n : Nat}
    (hcolumns : equations.Pairwise fun e f => e.basic.column ≠ f.basic.column)
    (hroles : ∀ e ∈ equations, e.basic.role = .decision ↔ e.basic.column < n)
    (x : List ℚ) (hlength : x.length = n)
    (hzero : ∀ e ∈ equations, x.getD e.basic.column 0 = 0) {j : Nat} (hj : j < n) :
    (equations.foldl (fun x e => if e.basic.role = .decision then x.set e.basic.column e.rhs else x)
      x).getD j 0 = x.getD j 0 + superpose (·.rhs) equations j := by
  induction equations generalizing x with
  | nil => exact (add_zero _).symm
  | cons e equations ih =>
      obtain ⟨hne, hcolumns⟩ := List.pairwise_cons.mp hcolumns
      obtain ⟨hrole, hroles⟩ := List.forall_mem_cons.mp hroles
      obtain ⟨hezero, hzero⟩ := List.forall_mem_cons.mp hzero
      rw [List.foldl_cons, superpose_cons]
      by_cases hdecision : e.basic.role = .decision
      · have hlt : e.basic.column < x.length := by rw [hlength]; exact hrole.mp hdecision
        have hget : ∀ k : Nat, (x.set e.basic.column e.rhs).getD k 0
            = if k = e.basic.column then e.rhs else x.getD k 0 := by
          intro k
          by_cases hk : k = e.basic.column
          · subst hk
            simp [hlt]
          · simp [Ne.symm hk, hk]
        rw [if_pos hdecision, ih hcolumns hroles _ (by rw [List.length_set, hlength])
          (fun f hf => by rw [hget, if_neg (hne f hf).symm, hzero f hf]), hget]
        by_cases hje : j = e.basic.column
        · subst hje
          rw [if_pos rfl, single_self, hezero, zero_add]
        · rw [if_neg hje, single_of_ne hje, zero_add]
      · have hje : j ≠ e.basic.column := by
          rintro rfl
          exact hdecision (hrole.mpr hj)
        rw [if_neg hdecision, ih hcolumns hroles x hlength hzero, single_of_ne hje, zero_add]

theorem decisionValues_eq_firstValues {t : Tableau ℚ} (hshaped : t.Shaped) (h : t.Canonical) :
    t.decisionValues t.decisionCount = firstValues t.decisionCount t.vertex := by
  have hlength : (t.decisionValues t.decisionCount).length = t.decisionCount := by
    unfold decisionValues
    rw [length_foldl_set]
    exact List.length_replicate
  refine List.ext_getElem (by rw [hlength, length_firstValues]) fun j hj _ => ?_
  have hvalue := getD_foldl_set h.pairwise_column_ne
    (fun e he => hshaped.basic_decision_iff he) (List.replicate t.decisionCount 0)
    List.length_replicate (fun e _ => getD_replicate_zero _ _) (hlength ▸ hj)
  rw [getD_replicate_zero, zero_add] at hvalue
  calc (t.decisionValues t.decisionCount)[j]
      = (t.decisionValues t.decisionCount).getD j 0 := (List.getD_eq_getElem _ 0 hj).symm
    _ = t.vertex j := hvalue
    _ = (firstValues t.decisionCount t.vertex)[j] := by simp [firstValues]

/-! ### The values of the artificial variables -/

/-- The sum of the artificial variables: what the rows fall short by. -/
def shortage (t : Tableau ℚ) (z : Assignment) : ℚ :=
  weigh (t.columns.map fun v => if v.isArtificial then 1 else 0) z

theorem shortage_nonneg (t : Tableau ℚ) {z : Assignment} (hz : ∀ j, 0 ≤ z j) :
    0 ≤ t.shortage z := by
  apply weigh_nonneg _ hz
  intro w hw
  obtain ⟨v, -, rfl⟩ := List.mem_map.mp hw
  split
  · exact zero_le_one
  · exact le_refl 0

/-- On the way along a ray, what the rows fall short by is never made up for. -/
theorem shortage_vertex_le_along {t : Tableau ℚ} {column : Nat} {distance : ℚ}
    (hentries : ∀ e ∈ t.equations, e.entry column ≤ 0) (hdistance : 0 ≤ distance) :
    t.shortage t.vertex ≤ t.shortage (t.along column distance) := by
  have hray := t.shortage_nonneg (ray_nonneg hentries)
  unfold shortage along at *
  rw [weigh_add, weigh_mul]
  exact le_add_of_nonneg_right (mul_nonneg hdistance hray)

theorem Shaped.shortage_vertex {t : Tableau ℚ} (h : t.Shaped) :
    t.shortage t.vertex
      = (t.equations.map fun e => if e.basic.isArtificial then e.rhs else 0).sum := by
  unfold shortage vertex
  rw [weigh_superpose]
  congr 1
  apply List.map_congr_left
  intro e he
  have hcolumn := h.column_basic _ (basic_mem_basis he)
  rw [List.getD_eq_getElem?_getD, List.getElem?_map, hcolumn]
  by_cases hartificial : e.basic.isArtificial
  · simp [hartificial]
  · simp [hartificial]

theorem Shaped.shortage_vertex_pos {t : Tableau ℚ} (h : t.Shaped)
    (hrhs : ∀ e ∈ t.equations, 0 ≤ e.rhs) (hpositive : t.hasPositiveArtificial 0 = true) :
    0 < t.shortage t.vertex := by
  obtain ⟨e, he, hartificial⟩ := List.any_eq_true.mp hpositive
  obtain ⟨hrole, hlt⟩ := Bool.and_eq_true_iff.mp hartificial
  rw [h.shortage_vertex]
  have hterms : ∀ v ∈ t.equations.map fun e => if e.basic.isArtificial then e.rhs else 0,
      0 ≤ v := by
    intro v hv
    obtain ⟨f, hf, rfl⟩ := List.mem_map.mp hv
    split
    · exact hrhs f hf
    · exact le_refl 0
  calc 0 < e.rhs := of_decide_eq_true hlt
    _ ≤ _ := List.single_le_sum hterms _ (List.mem_map.mpr ⟨e, he, if_pos hrole⟩)

theorem Shaped.shortage_vertex_eq_zero {t : Tableau ℚ} (h : t.Shaped)
    (hrhs : ∀ e ∈ t.equations, 0 ≤ e.rhs) (hpositive : t.hasPositiveArtificial 0 = false) :
    t.shortage t.vertex = 0 := by
  rw [h.shortage_vertex]
  apply List.sum_eq_zero
  intro v hv
  obtain ⟨e, he, rfl⟩ := List.mem_map.mp hv
  have hnot := List.any_eq_false.mp hpositive e he
  split
  · next hrole =>
      have hle : ¬ 0 < e.rhs := fun hlt => hnot (by simp [hrole, hlt])
      exact le_antisymm (not_lt.mp hle) (hrhs e he)
  · rfl

end LinProg.Tableau
