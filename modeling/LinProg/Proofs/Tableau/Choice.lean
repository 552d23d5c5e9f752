import LinProg.Tableau.Run

/-!
# The choice of a pivot

Over any linear order of the scalars, the column that enters is the first one with the lowest
reduced cost, and the row that leaves is the first one with the least ratio among the rows whose
entry exceeds the tolerance. Both searches are folds, and the lemmas about them say what a fold has
found when it starts anywhere in the list and with anything found before.
-/

namespace LinProg.Tableau

variable {α : Type} [Scalar α] [Std.IsLinearOrder α] [Std.LawfulOrderLT α]

/-! ### The column -/

/-- Either nothing undercuts what was found before, or the first of the lowest values is found. -/
theorem foldl_lower (values : List α) (first : Nat) (best : Option Nat × α) :
    ((values.zipIdx first).foldl lower best = best ∧ ∀ w ∈ values, best.2 ≤ w) ∨
      ∃ i v, values[i]? = some v ∧ (values.zipIdx first).foldl lower best = (some (first + i), v) ∧
        v < best.2 ∧ (∀ w ∈ values, v ≤ w) ∧ ∀ w ∈ values.take i, v < w := by
  induction values generalizing first best with
  | nil => exact .inl ⟨rfl, fun w hw => absurd hw List.not_mem_nil⟩
  | cons x values ih =>
      rw [List.zipIdx_cons, List.foldl_cons]
      by_cases hx : x < best.2
      · have hstep : lower best (x, first) = (some first, x) := if_pos hx
        rw [hstep]
        rcases ih (first + 1) (some first, x) with ⟨hfold, hmin⟩ | ⟨i, v, hi, hfold, hlt, hmin, htake⟩
        · exact .inr ⟨0, x, rfl, hfold, hx, List.forall_mem_cons.mpr ⟨Std.le_refl x, hmin⟩,
            fun w hw => absurd hw List.not_mem_nil⟩
        · rw [Nat.add_assoc, Nat.add_comm 1] at hfold
          exact .inr ⟨i + 1, v, hi, hfold, Std.lt_trans hlt hx,
            List.forall_mem_cons.mpr ⟨Std.le_of_lt hlt, hmin⟩,
            List.forall_mem_cons.mpr ⟨hlt, htake⟩⟩
      · have hstep : lower best (x, first) = best := if_neg hx
        have hle : best.2 ≤ x := Std.not_lt.mp hx
        rw [hstep]
        rcases ih (first + 1) best with ⟨hfold, hmin⟩ | ⟨i, v, hi, hfold, hlt, hmin, htake⟩
        · exact .inl ⟨hfold, List.forall_mem_cons.mpr ⟨hle, hmin⟩⟩
        · have hvx : v < x := Std.lt_of_lt_of_le hlt hle
          rw [Nat.add_assoc, Nat.add_comm 1] at hfold
          exact .inr ⟨i + 1, v, hi, hfold, hlt,
            List.forall_mem_cons.mpr ⟨Std.le_of_lt hvx, hmin⟩,
            List.forall_mem_cons.mpr ⟨hvx, htake⟩⟩

theorem le_cost_of_enteringColumn_eq_none {tolerance : α} {t : Tableau α}
    (h : t.enteringColumn tolerance = none) : ∀ v ∈ t.cost, -tolerance ≤ v := by
  unfold enteringColumn at h
  rcases foldl_lower t.cost 0 (none, -tolerance) with ⟨-, hmin⟩ | ⟨i, v, -, hfold, -⟩
  · exact hmin
  · rw [hfold] at h
    simp at h

/-- The column that enters is the first of those with the lowest reduced cost. -/
theorem cost_of_enteringColumn_eq_some {tolerance : α} {t : Tableau α} {column : Nat}
    (h : t.enteringColumn tolerance = some column) :
    ∃ v, t.cost[column]? = some v ∧ v < -tolerance ∧ (∀ w ∈ t.cost, v ≤ w) ∧
      ∀ w ∈ t.cost.take column, v < w := by
  unfold enteringColumn at h
  rcases foldl_lower t.cost 0 (none, -tolerance) with ⟨hfold, -⟩ | ⟨i, v, hi, hfold, hlt, hmin, htake⟩
  · rw [hfold] at h
    simp at h
  · rw [hfold, Nat.zero_add] at h
    obtain rfl : i = column := by simpa using h
    exact ⟨v, hi, hlt, hmin, htake⟩

/-! ### The row -/

/-- How far the variable of a column can rise before the equation's basic variable is zero. -/
def ratio (column : Nat) (e : Equation α) : α := e.rhs / e.entry column

/-- The ratios of a part of the equations, with the rows counted from `first`. -/
def ratiosFrom (column : Nat) (tolerance : α) (first : Nat) (equations : List (Equation α)) :
    List (Nat × α) :=
  (equations.zipIdx first).filterMap fun (e, i) =>
    if e.entry column ≤ tolerance then none else some (i, ratio column e)

omit [Std.IsLinearOrder α] [Std.LawfulOrderLT α] in
theorem ratiosFrom_cons (column : Nat) (tolerance : α) (first : Nat) (e : Equation α)
    (equations : List (Equation α)) :
    ratiosFrom column tolerance first (e :: equations) =
      if e.entry column ≤ tolerance then ratiosFrom column tolerance (first + 1) equations
      else (first, ratio column e) :: ratiosFrom column tolerance (first + 1) equations := by
  unfold ratiosFrom
  rw [List.zipIdx_cons, List.filterMap_cons]
  by_cases he : e.entry column ≤ tolerance
  · simp [he]
  · simp [he]

/-- A candidate either replaces what was found before, which it undercuts, or it does not. -/
theorem lesser_cases (best : Option (Nat × α)) (candidate : Nat × α) :
    (lesser best candidate = some candidate ∧ ∀ b ∈ best, candidate.2 < b.2) ∨
      (lesser best candidate = best ∧ ∃ b ∈ best, b.2 ≤ candidate.2) := by
  cases best with
  | none => exact .inl ⟨rfl, fun b hb => absurd hb (Option.not_mem_none b)⟩
  | some b =>
      by_cases hle : b.2 ≤ candidate.2
      · exact .inr ⟨if_pos hle, b, rfl, hle⟩
      · refine .inl ⟨if_neg hle, ?_⟩
        intro c hc
        obtain rfl := Option.mem_some.mp hc
        exact Std.not_le.mp hle

/-- Either no ratio is below what was found before, or the first of the least ratios is found. -/
theorem foldl_lesser (column : Nat) (tolerance : α) (equations : List (Equation α)) (first : Nat)
    (best : Option (Nat × α)) :
    ((ratiosFrom column tolerance first equations).foldl lesser best = best ∧
        ∀ f ∈ equations, tolerance < f.entry column → ∃ b ∈ best, b.2 ≤ ratio column f) ∨
      ∃ i e, equations[i]? = some e ∧ tolerance < e.entry column ∧
        (ratiosFrom column tolerance first equations).foldl lesser best
          = some (first + i, ratio column e) ∧
        (∀ b ∈ best, ratio column e < b.2) ∧
        (∀ f ∈ equations, tolerance < f.entry column → ratio column e ≤ ratio column f) ∧
        ∀ f ∈ equations.take i, tolerance < f.entry column → ratio column e < ratio column f := by
  induction equations generalizing first best with
  | nil => exact .inl ⟨rfl, fun f hf => absurd hf List.not_mem_nil⟩
  | cons x equations ih =>
      rw [ratiosFrom_cons]
      by_cases hx : x.entry column ≤ tolerance
      · have hskip : ¬ tolerance < x.entry column := Std.not_lt.mpr hx
        rw [if_pos hx]
        rcases ih (first + 1) best with ⟨hfold, hmin⟩ | ⟨i, e, hi, he, hfold, hbest, hmin, htake⟩
        · exact .inl ⟨hfold, List.forall_mem_cons.mpr ⟨fun hentry => absurd hentry hskip, hmin⟩⟩
        · rw [Nat.add_assoc, Nat.add_comm 1] at hfold
          exact .inr ⟨i + 1, e, hi, he, hfold, hbest,
            List.forall_mem_cons.mpr ⟨fun hentry => absurd hentry hskip, hmin⟩,
            List.forall_mem_cons.mpr ⟨fun hentry => absurd hentry hskip, htake⟩⟩
      · have hentry : tolerance < x.entry column := Std.not_le.mp hx
        rw [if_neg hx, List.foldl_cons]
        rcases lesser_cases best (first, ratio column x) with ⟨hstep, hless⟩ | ⟨hstep, b, hb, hle⟩
        · rw [hstep]
          rcases ih (first + 1) (some (first, ratio column x)) with
            ⟨hfold, hmin⟩ | ⟨i, e, hi, he, hfold, hbest, hmin, htake⟩
          · refine .inr ⟨0, x, rfl, hentry, hfold, hless,
              List.forall_mem_cons.mpr ⟨fun _ => Std.le_refl _, fun f hf hf' => ?_⟩,
              fun f hf => absurd hf List.not_mem_nil⟩
            obtain ⟨c, hc, hcf⟩ := hmin f hf hf'
            obtain rfl := Option.mem_some.mp hc
            exact hcf
          · have hex : ratio column e < ratio column x := hbest _ rfl
            rw [Nat.add_assoc, Nat.add_comm 1] at hfold
            exact .inr ⟨i + 1, e, hi, he, hfold, fun c hc => Std.lt_trans hex (hless c hc),
              List.forall_mem_cons.mpr ⟨fun _ => Std.le_of_lt hex, hmin⟩,
              List.forall_mem_cons.mpr ⟨fun _ => hex, htake⟩⟩
        · rw [hstep]
          rcases ih (first + 1) best with ⟨hfold, hmin⟩ | ⟨i, e, hi, he, hfold, hbest, hmin, htake⟩
          · exact .inl ⟨hfold, List.forall_mem_cons.mpr ⟨fun _ => ⟨b, hb, hle⟩, hmin⟩⟩
          · have hex : ratio column e < ratio column x := Std.lt_of_lt_of_le (hbest b hb) hle
            rw [Nat.add_assoc, Nat.add_comm 1] at hfold
            exact .inr ⟨i + 1, e, hi, he, hfold, hbest,
              List.forall_mem_cons.mpr ⟨fun _ => Std.le_of_lt hex, hmin⟩,
              List.forall_mem_cons.mpr ⟨fun _ => hex, htake⟩⟩

theorem entry_le_of_leavingRow_eq_none {column : Nat} {tolerance : α} {t : Tableau α}
    (h : t.leavingRow column tolerance = none) :
    ∀ e ∈ t.equations, e.entry column ≤ tolerance := by
  have hratios : t.ratios column tolerance = ratiosFrom column tolerance 0 t.equations := rfl
  unfold leavingRow at h
  rw [hratios] at h
  rcases foldl_lesser column tolerance t.equations 0 none with
    ⟨-, hmin⟩ | ⟨i, e, -, -, hfold, -⟩
  · intro e he
    apply Std.not_lt.mp
    intro hentry
    obtain ⟨b, hb, -⟩ := hmin e he hentry
    exact absurd hb (Option.not_mem_none b)
  · rw [hfold] at h
    simp at h

/-- The row that leaves is the first of those with the least ratio, out of the rows whose entry
exceeds the tolerance. -/
theorem ratio_of_leavingRow_eq_some {column row : Nat} {tolerance : α} {t : Tableau α}
    (h : t.leavingRow column tolerance = some row) :
    ∃ e, t.equations[row]? = some e ∧ tolerance < e.entry column ∧
      (∀ f ∈ t.equations, tolerance < f.entry column → ratio column e ≤ ratio column f) ∧
      ∀ f ∈ t.equations.take row, tolerance < f.entry column → ratio column e < ratio column f := by
  have hratios : t.ratios column tolerance = ratiosFrom column tolerance 0 t.equations := rfl
  unfold leavingRow at h
  rw [hratios] at h
  rcases foldl_lesser column tolerance t.equations 0 none with
    ⟨hfold, -⟩ | ⟨i, e, hi, he, hfold, -, hmin, htake⟩
  · rw [hfold] at h
    simp at h
  · rw [hfold, Nat.zero_add] at h
    obtain rfl : i = row := by simpa using h
    exact ⟨e, hi, he, hmin, htake⟩

/-! ### The two together -/

theorem le_cost_of_choose_optimal {tolerance : α} {t : Tableau α}
    (h : t.choose tolerance = .optimal) : ∀ v ∈ t.cost, -tolerance ≤ v := by
  unfold choose at h
  split at h
  · next hentering => exact le_cost_of_enteringColumn_eq_none hentering
  · split at h <;> simp at h

theorem entry_le_of_choose_unbounded {tolerance : α} {t : Tableau α} {column : Nat}
    (h : t.choose tolerance = .unbounded column) :
    (∃ v, t.cost[column]? = some v ∧ v < -tolerance) ∧
      ∀ e ∈ t.equations, e.entry column ≤ tolerance := by
  unfold choose at h
  split at h
  · simp at h
  · next entering hentering =>
      split at h
      · next hleaving =>
          obtain rfl : entering = column := by simpa using h
          obtain ⟨v, hv, hlt, -⟩ := cost_of_enteringColumn_eq_some hentering
          exact ⟨⟨v, hv, hlt⟩, entry_le_of_leavingRow_eq_none hleaving⟩
      · simp at h

theorem ratio_of_choose_pivot {tolerance : α} {t : Tableau α} {row column : Nat}
    (h : t.choose tolerance = .pivot row column) :
    (∃ v, t.cost[column]? = some v ∧ v < -tolerance) ∧
      ∃ e, t.equations[row]? = some e ∧ tolerance < e.entry column ∧
        ∀ f ∈ t.equations, tolerance < f.entry column → ratio column e ≤ ratio column f := by
  unfold choose at h
  split at h
  · simp at h
  · next entering hentering =>
      split at h
      · simp at h
      · next leaving hleaving =>
          obtain ⟨rfl, rfl⟩ : leaving = row ∧ entering = column := by simpa using h
          obtain ⟨v, hv, hlt, -⟩ := cost_of_enteringColumn_eq_some hentering
          obtain ⟨e, he, hentry, hmin, -⟩ := ratio_of_leavingRow_eq_some hleaving
          exact ⟨⟨v, hv, hlt⟩, e, he, hentry, hmin⟩

end LinProg.Tableau
