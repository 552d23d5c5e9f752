import LinProg.Proofs.Engine.Verdict

/-!
# Another order of the variables

A program says the same with its columns in another order: the points go over into each other with
their costs and with what the rows fall short by, and `M` stays what it is.
-/

namespace LinProg

/-! ### Lists in another order -/

/-- The elements at the given places, one after the other. -/
def pick {β : Type} (order : List Nat) (xs : List β) : List β := order.filterMap (xs[·]?)

section Pick

variable {β γ : Type} {order : List Nat} {n : Nat}

theorem pick_map (f : β → γ) (order : List Nat) (xs : List β) :
    pick order (xs.map f) = (pick order xs).map f := by
  unfold pick
  rw [List.map_filterMap]
  apply List.filterMap_congr
  intro i _
  exact List.getElem?_map

theorem pick_cons {xs : List β} {i : Nat} (hi : i < xs.length) (order : List Nat) :
    pick (i :: order) xs = xs[i] :: pick order xs := by
  unfold pick
  rw [List.filterMap_cons, List.getElem?_eq_getElem hi]

theorem pick_range (xs : List β) : pick (List.range xs.length) xs = xs := by
  induction xs with
  | nil => rfl
  | cons x xs ih =>
      rw [List.length_cons, List.range_succ_eq_map, pick_cons (Nat.zero_lt_succ _)]
      congr 1
      unfold pick at ih ⊢
      rw [List.filterMap_map]
      exact ih

theorem pick_perm {xs : List β} (horder : order.Perm (List.range xs.length)) :
    (pick order xs).Perm xs := by
  have hperm : (pick order xs).Perm (pick (List.range xs.length) xs) := horder.filterMap _
  rwa [pick_range] at hperm

theorem lt_of_mem_order (horder : order.Perm (List.range n)) : ∀ i ∈ order, i < n :=
  fun _ hi => List.mem_range.mp (horder.mem_iff.mp hi)

theorem length_pick {xs : List β} (horder : order.Perm (List.range n)) (hlength : xs.length = n) :
    (pick order xs).length = n := by
  subst hlength
  exact (pick_perm horder).length_eq

theorem pick_replicate (horder : order.Perm (List.range n)) (x : β) :
    pick order (List.replicate n x) = List.replicate n x := by
  have hperm : (pick order (List.replicate n x)).Perm (List.replicate n x) :=
    pick_perm (by rwa [List.length_replicate])
  exact List.perm_replicate.mp hperm

theorem zipWith_pick (f : β → β → γ) {xs ys : List β} (hlength : xs.length = ys.length)
    (horder : ∀ i ∈ order, i < xs.length) :
    List.zipWith f (pick order xs) (pick order ys) = pick order (List.zipWith f xs ys) := by
  induction order with
  | nil => rfl
  | cons i order ih =>
      obtain ⟨hi, horder⟩ := List.forall_mem_cons.mp horder
      rw [pick_cons hi, pick_cons (hlength ▸ hi), List.zipWith_cons_cons, ih horder,
        pick_cons (by simpa using ⟨hi, hlength ▸ hi⟩), List.getElem_zipWith]

theorem pick_firstValues (hlt : ∀ i ∈ order, i < n) (z : Assignment) :
    pick order (firstValues n z) = order.map z := by
  unfold pick firstValues
  rw [← List.filterMap_eq_map]
  apply List.filterMap_congr
  intro i hi
  simp [hlt i hi]

/-- Every list is another one in the given order: each value is looked up at its old place. -/
theorem exists_pick_eq (horder : order.Perm (List.range n)) {ys : List ℚ} (hlength : ys.length = n) :
    ∃ xs : List ℚ, xs.length = n ∧ pick order xs = ys := by
  have hnodup : order.Nodup := horder.nodup_iff.mpr List.nodup_range
  have hcount : order.length = n := by rw [horder.length_eq, List.length_range]
  refine ⟨firstValues n fun k => listed ys (order.idxOf k), length_firstValues _ _, ?_⟩
  rw [pick_firstValues (lt_of_mem_order horder)]
  apply List.ext_getElem
  · rw [List.length_map, hcount, hlength]
  · intro i hi hi'
    rw [List.getElem_map, hnodup.idxOf_getElem, listed, List.getD_eq_getElem _ _ hi']

theorem dot_pick {ws xs : List ℚ} (hws : ws.length = n) (hxs : xs.length = n)
    (horder : order.Perm (List.range n)) :
    Scalar.dot (pick order ws) (pick order xs) = Scalar.dot ws xs := by
  have hlength : (List.zipWith (· * ·) ws xs).length = n := by
    rw [List.length_zipWith, hws, hxs, Nat.min_self]
  have hlt : ∀ i ∈ order, i < ws.length := by
    rw [hws]
    exact lt_of_mem_order horder
  unfold Scalar.dot
  rw [zipWith_pick _ (hws.trans hxs.symm) hlt, sum_eq_listSum, sum_eq_listSum]
  apply List.Perm.sum_eq
  apply pick_perm
  rwa [hlength]

end Pick

/-! ### Rows and programs in another order -/

def Constraint.reorder {α : Type} (r : Constraint α) (order : List Nat) : Constraint α :=
  { r with coefficients := pick order r.coefficients }

/-- The decision variables in another order, each with its cost, its label and its column. -/
def Program.reorder {α : Type} (p : Program α) (order : List Nat) : Program α :=
  { p with rows := p.rows.map (·.reorder order), decisions := pick order p.decisions }

namespace Constraint

variable {order : List Nat} {n : Nat}

theorem normalised_reorder (r : Constraint ℚ) (order : List Nat) :
    (r.reorder order).normalised = r.normalised.reorder order := by
  by_cases hneg : r.rhs < 0
  · simp [normalised, reorder, hneg, pick_map]
  · simp [normalised, reorder, hneg]

theorem holdsShort_reorder_iff {r : Constraint ℚ} (hr : r.coefficients.length = n) {x : List ℚ}
    (hx : x.length = n) (horder : order.Perm (List.range n)) {s : ℚ} :
    (r.reorder order).HoldsShort (pick order x) s ↔ r.HoldsShort x s := by
  have hdot : Scalar.dot (r.reorder order).coefficients (pick order x)
      = Scalar.dot r.coefficients x := dot_pick hr hx horder
  constructor
  · rintro ⟨hnonneg, hlessEq, hholds⟩
    rw [hdot] at hholds
    exact ⟨hnonneg, hlessEq, hholds⟩
  · rintro ⟨hnonneg, hlessEq, hholds⟩
    refine ⟨hnonneg, hlessEq, ?_⟩
    rw [hdot]
    exact hholds

end Constraint

namespace Program

variable {p : Program ℚ} {order : List Nat} {direction : Direction}

theorem normalisedRows_reorder (p : Program ℚ) (order : List Nat) :
    (p.reorder order).normalisedRows = p.normalisedRows.map (·.reorder order) := by
  unfold normalisedRows reorder
  rw [List.map_map, List.map_map]
  apply List.map_congr_left
  intro r _
  exact r.normalised_reorder order

theorem costs_reorder (p : Program ℚ) (order : List Nat) :
    (p.reorder order).costs = pick order p.costs := (pick_map _ order p.decisions).symm

theorem width_reorder (horder : order.Perm (List.range p.width)) :
    (p.reorder order).width = p.width := length_pick horder rfl

/-- The largest absolute value does not depend on the order in which the values are looked at. -/
theorem foldl_largest_eq_of_perm {xs ys : List ℚ} (hperm : xs.Perm ys) (start : ℚ) :
    xs.foldl (fun largest v => if largest < Scalar.abs v then Scalar.abs v else largest) start
      = ys.foldl (fun largest v => if largest < Scalar.abs v then Scalar.abs v else largest)
          start := by
  apply hperm.foldl_eq'
  intro v _ w _ largest
  simp only [← max_def_lt]
  exact max_right_comm _ _ _

theorem bigMOf_reorder (hwf : p.WellFormed) (horder : order.Perm (List.range p.width)) :
    Tableau.bigMOf (p.reorder order).normalisedRows (p.reorder order).costs
      = Tableau.bigMOf p.normalisedRows p.costs := by
  have hrows : ∀ r ∈ p.normalisedRows, r.coefficients.length = p.width :=
    Tableau.Program.row_length_normalised hwf
  have hcosts : (pick order p.costs).Perm p.costs := by
    apply pick_perm
    rwa [costs, List.length_map]
  have hcoefficients : ((p.normalisedRows.map (·.reorder order)).map (·.coefficients)).flatten.Perm
      (p.normalisedRows.map (·.coefficients)).flatten := by
    rw [List.map_map]
    apply List.Perm.flatten_congr
    rw [List.forall₂_map_left_iff, List.forall₂_map_right_iff, List.forall₂_same]
    intro r hr
    apply pick_perm
    rwa [hrows r hr]
  have hneeds : (p.normalisedRows.map (·.reorder order)).any (·.relation.needsArtificial)
      = p.normalisedRows.any (·.relation.needsArtificial) := by
    rw [List.any_map]
    rfl
  have hrhs : (p.normalisedRows.map (·.reorder order)).map (·.rhs)
      = p.normalisedRows.map (·.rhs) := by
    rw [List.map_map]
    rfl
  unfold Tableau.bigMOf Tableau.penalty
  rw [normalisedRows_reorder, costs_reorder, hneeds, hrhs]
  dsimp only
  rw [foldl_largest_eq_of_perm ((hcoefficients.append_right _).append hcosts)]

section Points

variable (hwf : p.WellFormed) (horder : order.Perm (List.range p.width)) {x s : List ℚ}

include horder in
theorem objective_reorder (hx : x.length = p.width) :
    (p.reorder order).objective (pick order x) = p.objective x := by
  unfold objective
  rw [costs_reorder]
  exact dot_pick (List.length_map _) hx horder

include hwf horder in
theorem penalisedCost_reorder (direction : Direction) (hx : x.length = p.width) :
    (p.reorder order).penalisedCost direction (pick order x) s
      = p.penalisedCost direction x s := by
  unfold penalisedCost
  rw [objective_reorder horder hx, bigMOf_reorder hwf horder]

include hwf horder in
theorem relaxed_reorder_iff (hx : x.length = p.width) :
    (p.reorder order).Relaxed (pick order x) s ↔ p.Relaxed x s := by
  have hrows : ∀ r ∈ p.normalisedRows, r.coefficients.length = p.width :=
    Tableau.Program.row_length_normalised hwf
  have hvalues : (pick order x).Perm x := pick_perm (by rwa [hx])
  have hlength : (pick order x).length = (p.reorder order).width := by
    rw [width_reorder horder, hvalues.length_eq, hx]
  have hshort : List.Forall₂ (fun r t => r.HoldsShort (pick order x) t)
        (p.reorder order).normalisedRows s
      ↔ List.Forall₂ (fun r t => r.HoldsShort x t) p.normalisedRows s := by
    have hrow : ∀ {r t}, (r, t) ∈ p.normalisedRows.zip s →
        ((r.reorder order).HoldsShort (pick order x) t ↔ r.HoldsShort x t) := fun hmem =>
      Constraint.holdsShort_reorder_iff (hrows _ (List.of_mem_zip hmem).1) hx horder
    rw [normalisedRows_reorder, List.forall₂_map_left_iff, List.forall₂_iff_zip,
      List.forall₂_iff_zip]
    apply and_congr_right
    intro _
    constructor
    · intro h r t hmem
      exact (hrow hmem).mp (h hmem)
    · intro h r t hmem
      exact (hrow hmem).mpr (h hmem)
  constructor
  · rintro ⟨-, hnonneg, hholds⟩
    exact ⟨hx, fun v hv => hnonneg v (hvalues.mem_iff.mpr hv), hshort.mp hholds⟩
  · rintro ⟨-, hnonneg, hholds⟩
    exact ⟨hlength, fun v hv => hnonneg v (hvalues.mem_iff.mp hv), hshort.mpr hholds⟩

include hwf horder in
/-- The relaxed points of the reordered program are the relaxed points in the new order. -/
theorem exists_relaxed_of_reorder {y : List ℚ} (hy : (p.reorder order).Relaxed y s) :
    ∃ x, p.Relaxed x s ∧ pick order x = y := by
  obtain ⟨x, hx, rfl⟩ := exists_pick_eq horder (hy.length_eq.trans (width_reorder horder))
  exact ⟨x, (relaxed_reorder_iff hwf horder hx).mp hy, rfl⟩

end Points

end Program

end LinProg
