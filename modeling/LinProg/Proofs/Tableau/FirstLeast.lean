import LinProg.Proofs.Tableau.Choice
import Mathlib.Algebra.Order.Ring.Rat
import Mathlib.Order.Bounds.Basic

/-!
# Where the least value is first attained

The column that enters and the row that leaves are both the first of the places where a value is
least: the reduced cost over all columns, and the ratio over the rows whose entry exceeds the
tolerance. Only the order of the scalars counts, so they may be those of any linearly ordered field.
-/

namespace LinProg.Tableau

variable {α : Type}

/-! ### Places of the least value -/

/-- The places where the least value is attained, out of those that have a value. -/
def attaining [LE α] (value : Nat → Option α) : Set Nat :=
  {i | ∃ v, value i = some v ∧ ∀ j w, value j = some w → v ≤ w}

variable [Scalar α] [Std.IsLinearOrder α] [Std.LawfulOrderLT α]

theorem isLeast_attaining {value : Nat → Option α} {i : Nat} {v : α} (hv : value i = some v)
    (hmin : ∀ j w, value j = some w → v ≤ w) (hbefore : ∀ j < i, ∀ w, value j = some w → v < w) :
    IsLeast (attaining value) i := by
  refine ⟨⟨v, hv, hmin⟩, ?_⟩
  rintro j ⟨w, hw, hleast⟩
  apply Nat.not_lt.mp
  intro hj
  exact Std.not_le.mpr (hbefore j hj w hw) (hleast i v hv)

theorem mem_take_of_lt {β : Type} {values : List β} {i j : Nat} {w : β} (hj : j < i)
    (hw : values[j]? = some w) : w ∈ values.take i := by
  apply List.mem_of_getElem?
  rw [List.getElem?_take_of_lt hj, hw]

/-! ### The column -/

variable {t : Tableau α} {tolerance : α} {column row : Nat}

theorem enteringColumn_eq_none_iff :
    t.enteringColumn tolerance = none ↔ ∀ v ∈ t.cost, ¬ v < -tolerance := by
  constructor
  · intro h v hv
    exact Std.not_lt.mpr (le_cost_of_enteringColumn_eq_none h v hv)
  · intro h
    cases hcolumn : t.enteringColumn tolerance with
    | none => rfl
    | some column =>
        obtain ⟨v, hv, hlt, -⟩ := cost_of_enteringColumn_eq_some hcolumn
        exact absurd hlt (h v (List.mem_of_getElem? hv))

theorem isLeast_of_enteringColumn (h : t.enteringColumn tolerance = some column) :
    IsLeast (attaining fun j => t.cost[j]?) column := by
  obtain ⟨v, hv, -, hmin, hbefore⟩ := cost_of_enteringColumn_eq_some h
  apply isLeast_attaining hv
  · intro j w hw
    exact hmin w (List.mem_of_getElem? hw)
  · intro j hj w hw
    exact hbefore w (mem_take_of_lt hj hw)

theorem enteringColumn_eq_some_iff : t.enteringColumn tolerance = some column ↔
    (∃ v ∈ t.cost, v < -tolerance) ∧ IsLeast (attaining fun j => t.cost[j]?) column := by
  constructor
  · intro h
    obtain ⟨v, hv, hlt, -⟩ := cost_of_enteringColumn_eq_some h
    exact ⟨⟨v, List.mem_of_getElem? hv, hlt⟩, isLeast_of_enteringColumn h⟩
  · rintro ⟨⟨v, hv, hlt⟩, hleast⟩
    cases hcolumn : t.enteringColumn tolerance with
    | none => exact absurd hlt (enteringColumn_eq_none_iff.mp hcolumn v hv)
    | some other => rw [(isLeast_of_enteringColumn hcolumn).unique hleast]

/-! ### The row -/

/-- The ratio of a row, if its entry in the column exceeds the tolerance. -/
def ratioAt? (column : Nat) (tolerance : α) (t : Tableau α) (row : Nat) : Option α :=
  t.equations[row]?.bind fun e => if tolerance < e.entry column then some (ratio column e) else none

omit [Std.IsLinearOrder α] [Std.LawfulOrderLT α] in
theorem ratioAt?_eq_some_iff {v : α} : t.ratioAt? column tolerance row = some v ↔
    ∃ e, t.equations[row]? = some e ∧ tolerance < e.entry column ∧ ratio column e = v := by
  unfold ratioAt?
  rw [Option.bind_eq_some_iff]
  simp only [Option.ite_none_right_eq_some, Option.some.injEq]

theorem leavingRow_eq_none_iff :
    t.leavingRow column tolerance = none ↔ ∀ e ∈ t.equations, ¬ tolerance < e.entry column := by
  constructor
  · intro h e he
    exact Std.not_lt.mpr (entry_le_of_leavingRow_eq_none h e he)
  · intro h
    cases hrow : t.leavingRow column tolerance with
    | none => rfl
    | some row =>
        obtain ⟨e, he, hentry, -⟩ := ratio_of_leavingRow_eq_some hrow
        exact absurd hentry (h e (List.mem_of_getElem? he))

theorem isLeast_of_leavingRow (h : t.leavingRow column tolerance = some row) :
    IsLeast (attaining (t.ratioAt? column tolerance)) row := by
  obtain ⟨e, he, hentry, hmin, hbefore⟩ := ratio_of_leavingRow_eq_some h
  apply isLeast_attaining (ratioAt?_eq_some_iff.mpr ⟨e, he, hentry, rfl⟩)
  · intro i w hw
    obtain ⟨f, hf, hexceeds, rfl⟩ := ratioAt?_eq_some_iff.mp hw
    exact hmin f (List.mem_of_getElem? hf) hexceeds
  · intro i hi w hw
    obtain ⟨f, hf, hexceeds, rfl⟩ := ratioAt?_eq_some_iff.mp hw
    exact hbefore f (mem_take_of_lt hi hf) hexceeds

theorem leavingRow_eq_some_iff : t.leavingRow column tolerance = some row ↔
    IsLeast (attaining (t.ratioAt? column tolerance)) row := by
  constructor
  · exact isLeast_of_leavingRow
  · intro hleast
    obtain ⟨v, hv, -⟩ := hleast.1
    obtain ⟨e, he, hentry, -⟩ := ratioAt?_eq_some_iff.mp hv
    cases hrow : t.leavingRow column tolerance with
    | none => exact absurd hentry (leavingRow_eq_none_iff.mp hrow e (List.mem_of_getElem? he))
    | some other => rw [(isLeast_of_leavingRow hrow).unique hleast]

/-! ### Both searches -/

/-- No column enters exactly if no reduced cost is below `-tolerance`, and no row leaves exactly if
no entry of the column exceeds the tolerance. Otherwise each search finds the first place of the
least value. The search for the row has an answer for every column of the tableau. -/
theorem selects_first_least (t : Tableau α) (tolerance : α) :
    (t.enteringColumn tolerance = none ↔ ∀ v ∈ t.cost, ¬ v < -tolerance) ∧
    (∀ column, t.enteringColumn tolerance = some column ↔
      (∃ v ∈ t.cost, v < -tolerance) ∧ IsLeast (attaining fun j => t.cost[j]?) column) ∧
    ∀ column < t.width, ∃ leaving, t.leavingRow? column tolerance = .ok leaving ∧
      (leaving = none ↔ ∀ e ∈ t.equations, ¬ tolerance < e.entry column) ∧
      ∀ row, leaving = some row ↔ IsLeast (attaining (t.ratioAt? column tolerance)) row := by
  refine ⟨enteringColumn_eq_none_iff, fun column => enteringColumn_eq_some_iff, ?_⟩
  intro column hcolumn
  refine ⟨t.leavingRow column tolerance, if_pos hcolumn, leavingRow_eq_none_iff, ?_⟩
  exact fun row => leavingRow_eq_some_iff

/-- Two columns with the lowest cost, and two rows with the least ratio among those whose entry in
the first of these columns exceeds one half. -/
def tied : Tableau ℚ where
  decisionCount := 3
  columns := [⟨.decision, 0⟩, ⟨.decision, 1⟩, ⟨.decision, 2⟩, ⟨.slack, 3⟩, ⟨.slack, 4⟩, ⟨.slack, 5⟩]
  equations :=
    [⟨[1, 1 / 2, 0, 1, 0, 0], 1, ⟨.slack, 3⟩⟩, ⟨[0, 1, 1, 0, 1, 0], 4, ⟨.slack, 4⟩⟩,
      ⟨[1, 2, 1, 0, 0, 1], 8, ⟨.slack, 5⟩⟩]
  cost := [-1 / 2, -3, -3, 0, 0, 0]
  artificialCount := 0
  bigM := 6

theorem isLeast_tied :
    tied.enteringColumn (1 / 2) = some 1 ∧ IsLeast (attaining fun j => tied.cost[j]?) 1 ∧
      tied.leavingRow? 1 (1 / 2) = .ok (some 1) ∧
      IsLeast (attaining (tied.ratioAt? 1 (1 / 2))) 1 := by
  have hcolumn : tied.enteringColumn (1 / 2) = some 1 := by decide +kernel
  have hrow : tied.leavingRow? 1 (1 / 2) = .ok (some 1) := by decide +kernel
  obtain ⟨-, hentering, hleaving⟩ := selects_first_least tied (1 / 2)
  obtain ⟨leaving, hleaving, -, hratio⟩ := hleaving 1 (by decide)
  obtain rfl : leaving = some 1 := Except.ok.inj (hleaving.symm.trans hrow)
  exact ⟨hcolumn, ((hentering 1).mp hcolumn).2, hrow, (hratio 1).mp rfl⟩

end LinProg.Tableau
