import LinProg.Proofs.Program.EditSteps
import LinProg.Proofs.Program.Reorder
import Mathlib.Data.List.Sort

/-!
# Growing a program

An insertion puts a row or a column between the old ones, which keep their order and all their
parts. Whether a row or a column goes in first makes no difference: what is built up line by line
depends only on where each line is in the end.
-/

namespace LinProg

/-! ### Lists with one more entry -/

/-- Where the `k`-th of the old entries is after an insertion at `i`. -/
def place (i k : Nat) : Nat := if k < i then k else k + 1

section Lists

variable {β γ δ : Type} {i : Nat}

theorem getElem?_insertIdx_place (xs : List β) (i k : Nat) (x : β) :
    (xs.insertIdx i x)[place i k]? = xs[k]? := by
  unfold place
  by_cases hk : k < i
  · rw [if_pos hk, List.getElem?_insertIdx_of_lt hk]
  · have hgt : i < k + 1 := by omega
    rw [if_neg hk, List.getElem?_insertIdx_of_gt hgt, Nat.add_sub_cancel]

theorem getElem?_insertIdx_same {xs : List β} (hi : i ≤ xs.length) (x : β) :
    (xs.insertIdx i x)[i]? = some x := by
  rw [List.getElem?_insertIdx_self, if_pos hi]

theorem zipWith_insertIdx (f : β → γ → δ) {xs : List β} {ys : List γ} (hi : i ≤ xs.length)
    (hlength : ys.length = xs.length) (x : β) (y : γ) :
    (xs.insertIdx i x).zipWith f (ys.insertIdx i y) = (xs.zipWith f ys).insertIdx i (f x y) := by
  induction xs generalizing ys i with
  | nil =>
      obtain rfl := List.length_eq_zero_iff.mp hlength
      obtain rfl := Nat.le_zero.mp hi
      simp
  | cons a xs ih =>
      cases ys with
      | nil => simp at hlength
      | cons b ys =>
          cases i with
          | zero => simp
          | succ i => simp [ih (Nat.le_of_succ_le_succ hi) (Nat.succ.inj hlength)]

/-- The entries at one place of each list. -/
def EntriesAt (j : Nat) (rows : List (List β)) (xs : List β) : Prop :=
  List.Forall₂ (fun row x => row[j]? = some x) rows xs

theorem exists_entriesAt {rows : List (List β)} {j : Nat} (hrows : ∀ row ∈ rows, j < row.length) :
    ∃ xs, EntriesAt j rows xs := by
  induction rows with
  | nil => exact ⟨[], .nil⟩
  | cons row rows ih =>
      obtain ⟨hrow, hrows⟩ := List.forall_mem_cons.mp hrows
      obtain ⟨xs, hxs⟩ := ih hrows
      exact ⟨row[j] :: xs, .cons (List.getElem?_eq_getElem hrow) hxs⟩

theorem entriesAt_insertIdx {rows : List (List β)} {xs : List β} {j : Nat}
    (hrows : ∀ row ∈ rows, j ≤ row.length) (hlength : xs.length = rows.length) :
    EntriesAt j (rows.zipWith (fun row x => row.insertIdx j x) xs) xs := by
  induction rows generalizing xs with
  | nil =>
      obtain rfl := List.length_eq_zero_iff.mp hlength
      exact .nil
  | cons row rows ih =>
      cases xs with
      | nil => simp at hlength
      | cons x xs =>
          obtain ⟨hrow, hrows⟩ := List.forall_mem_cons.mp hrows
          exact .cons (getElem?_insertIdx_same hrow x) (ih hrows (Nat.succ.inj hlength))

theorem EntriesAt.insertIdx {rows : List (List β)} {xs ys : List β} {j k : Nat}
    (h : EntriesAt k rows ys) (hlength : xs.length = rows.length) :
    EntriesAt (place j k) (rows.zipWith (fun row x => row.insertIdx j x) xs) ys := by
  induction h generalizing xs with
  | nil => exact .nil
  | @cons row y rows ys hy _ ih =>
      cases xs with
      | nil => simp at hlength
      | cons x xs =>
          have hfound : (row.insertIdx j x)[place j k]? = some y := by
            rw [getElem?_insertIdx_place, hy]
          exact .cons hfound (ih (Nat.succ.inj hlength))

end Lists

/-! ### Rows and columns in the separate vectors -/

namespace Vectors

variable {α : Type} {v w : Vectors α}

/-- A row stands at an index, each part of it in its own vector. -/
structure RowAt (v : Vectors α) (i : Nat) (r : Constraint α) : Prop where
  coefficients : v.coefficients[i]? = some r.coefficients
  relation : v.relations[i]? = some r.relation
  rhs : v.rhs[i]? = some r.rhs
  label : v.rowLabels[i]? = some r.label

structure ColumnAt (v : Vectors α) (j : Nat) (c : Column α) : Prop where
  coefficients : EntriesAt j v.coefficients c.coefficients
  cost : v.costs[j]? = some c.cost
  label : v.columnLabels[j]? = some c.label

/-- No answer is known: all values are zero. -/
def Unsolved [Scalar α] (v : Vectors α) : Prop :=
  v.solution = List.replicate v.columnCount 0 ∧ v.objectiveValue = 0

/-- From `v` to `w` a row has been put in at `i`, and nothing else has changed but the results. -/
structure RowInserted [Scalar α] (i : Nat) (r : Constraint α) (v w : Vectors α) : Prop where
  fits : w.Fits
  rowAt_new : w.RowAt i r
  rowAt_old : ∀ k, k < v.rowCount → ∃ s, v.RowAt k s ∧ w.RowAt (place i k) s
  rowCount : w.rowCount = v.rowCount + 1
  columnCount : w.columnCount = v.columnCount
  costs : w.costs = v.costs
  columnLabels : w.columnLabels = v.columnLabels
  objectiveLabel : w.objectiveLabel = v.objectiveLabel
  direction : w.direction = v.direction
  unsolved : w.Unsolved

structure ColumnInserted [Scalar α] (j : Nat) (c : Column α) (v w : Vectors α) : Prop where
  fits : w.Fits
  columnAt_new : w.ColumnAt j c
  columnAt_old : ∀ k, k < v.columnCount → ∃ d, v.ColumnAt k d ∧ w.ColumnAt (place j k) d
  columnCount : w.columnCount = v.columnCount + 1
  rowCount : w.rowCount = v.rowCount
  rhs : w.rhs = v.rhs
  relations : w.relations = v.relations
  rowLabels : w.rowLabels = v.rowLabels
  objectiveLabel : w.objectiveLabel = v.objectiveLabel
  direction : w.direction = v.direction
  unsolved : w.Unsolved

theorem rowAt_vectors {p : Program α} {i : Nat} {r : Constraint α} (hr : p.rows[i]? = some r) :
    p.vectors.RowAt i r where
  coefficients := by simp [Program.vectors, Program.coefficients, hr]
  relation := by simp [Program.vectors, Program.relations, hr]
  rhs := by simp [Program.vectors, Program.rhs, hr]
  label := by simp [Program.vectors, Program.rowLabels, hr]

theorem columnAt_vectors {p : Program α} {j : Nat} {c : Column α}
    (hcoefficients : EntriesAt j p.coefficients c.coefficients)
    (hdecision : p.decisions[j]? = some ⟨c.cost, c.label⟩) : p.vectors.ColumnAt j c where
  coefficients := hcoefficients
  cost := by simp [Program.vectors, Program.costs, hdecision]
  label := by simp [Program.vectors, Program.columnLabels, hdecision]

end Vectors

namespace Program

variable {α : Type} [Scalar α] {p q : Program α} {i j : Nat} {r : Constraint α} {c : Column α}

/-! ### One insertion -/

theorem insertRow_eq (hi : i ≤ p.height) (hlength : r.coefficients.length = p.width) :
    p.insertRow i r = .ok ((Edit.insertRow i r).target p) := by
  unfold insertRow
  rw [checkIndex, if_pos (Nat.lt_succ_of_le hi), checkLength, if_pos hlength.symm]
  rfl

theorem insertColumn_eq (hj : j ≤ p.width) (hlength : c.coefficients.length = p.height) :
    p.insertColumn j c = .ok ((Edit.insertColumn j c).target p) := by
  unfold insertColumn
  rw [checkIndex, if_pos (Nat.lt_succ_of_le hj), checkLength, if_pos hlength.symm]
  rfl

/-- The steps of an edit that is not refused. -/
theorem execute_of_apply (h : p.WellFormed) (edit : Edit α) (hq : edit.apply p = .ok q) :
    Vectors.execute edit.steps p.vectors = some (.ok (), q.vectors) := by
  rw [Vectors.execute_steps h]
  show some ((p.outcome (edit.apply p)).map id vectors) = _
  rw [hq]
  rfl

theorem rowInserted (h : p.WellFormed) (hi : i ≤ p.height)
    (hlength : r.coefficients.length = p.width) :
    Vectors.RowInserted i r p.vectors ((Edit.insertRow i r).target p).vectors where
  fits := Vectors.fits_vectors_iff.mpr (wellFormed_insertRow h hi hlength)
  rowAt_new := Vectors.rowAt_vectors (getElem?_insertIdx_same hi r)
  rowAt_old k hk := by
    have hold : p.rows[k]? = some p.rows[k] := List.getElem?_eq_getElem hk
    refine ⟨p.rows[k], Vectors.rowAt_vectors hold, Vectors.rowAt_vectors ?_⟩
    show (p.rows.insertIdx i r)[place i k]? = _
    rw [getElem?_insertIdx_place, hold]
  rowCount := List.length_insertIdx_of_le_length hi r
  columnCount := rfl
  costs := rfl
  columnLabels := rfl
  objectiveLabel := rfl
  direction := rfl
  unsolved := ⟨rfl, rfl⟩

theorem columnInserted (h : p.WellFormed) (hj : j ≤ p.width)
    (hlength : c.coefficients.length = p.height) :
    Vectors.ColumnInserted j c p.vectors ((Edit.insertColumn j c).target p).vectors := by
  have hfits := Vectors.fits_vectors_iff.mpr (wellFormed_insertColumn h hj hlength)
  have hcount : c.coefficients.length = p.coefficients.length :=
    hlength.trans (List.length_map _).symm
  have hrows : ∀ row ∈ p.coefficients, row.length = p.width :=
    (Vectors.fits_vectors_iff.mpr h).row_length
  rw [Vectors.vectors_insertColumn hj hlength] at hfits ⊢
  refine
    { fits := hfits
      columnAt_new := ?_
      columnAt_old := ?_
      columnCount := rfl
      rowCount := rfl
      rhs := rfl
      relations := rfl
      rowLabels := rfl
      objectiveLabel := rfl
      direction := rfl
      unsolved := ⟨rfl, rfl⟩ }
  · have hnew : (p.decisions.insertIdx j ⟨c.cost, c.label⟩)[j]? = some ⟨c.cost, c.label⟩ :=
      getElem?_insertIdx_same hj _
    refine ⟨entriesAt_insertIdx (fun row hrow => by rwa [hrows row hrow]) hcount, ?_, ?_⟩
    · rw [List.getElem?_map, hnew]
      rfl
    · rw [List.getElem?_map, hnew]
      rfl
  · intro k hk
    have hold : p.decisions[k]? = some p.decisions[k] := List.getElem?_eq_getElem hk
    obtain ⟨xs, hxs⟩ := exists_entriesAt fun row hrow => (hrows row hrow).ge.trans_lt' hk
    refine ⟨⟨xs, p.decisions[k].cost, p.decisions[k].label⟩, Vectors.columnAt_vectors hxs hold,
      hxs.insertIdx hcount, ?_, ?_⟩
    · rw [List.getElem?_map, getElem?_insertIdx_place, hold]
      rfl
    · rw [List.getElem?_map, getElem?_insertIdx_place, hold]
      rfl

end Program

/-! ### A row and a column -/

section Commuting

variable {α : Type}

/-- The row with one more coefficient. -/
def Constraint.grow (r : Constraint α) (j : Nat) (x : α) : Constraint α :=
  { r with coefficients := r.coefficients.insertIdx j x }

/-- The column without its coefficient in one of the rows. -/
def Column.without (c : Column α) (i : Nat) : Column α :=
  { c with coefficients := c.coefficients.eraseIdx i }

variable [Scalar α] {p : Program α} {i j : Nat} {r : Constraint α} {c : Column α} {x : α}

/-- The new entry of the column is where the new row and the new column meet. -/
theorem Program.target_insertRow_insertColumn (hi : i ≤ p.height)
    (hc : c.coefficients.length = p.height + 1) (hx : c.coefficients[i]? = some x) :
    (Edit.insertColumn j c).target ((Edit.insertRow i r).target p)
      = (Edit.insertRow i (r.grow j x)).target
          ((Edit.insertColumn j (c.without i)).target p) := by
  obtain ⟨hlt, rfl⟩ := List.getElem?_eq_some_iff.mp hx
  have hcoefficients : (c.coefficients.eraseIdx i).insertIdx i c.coefficients[i]
      = c.coefficients := List.insertIdx_eraseIdx_getElem hlt
  have hlength : (c.coefficients.eraseIdx i).length = p.rows.length := by
    rw [List.length_eraseIdx_of_lt hlt, hc]
    rfl
  have hrows : (p.rows.insertIdx i r).zipWith (fun r x => r.grow j x) c.coefficients
      = (p.rows.zipWith (fun r x => r.grow j x) (c.coefficients.eraseIdx i)).insertIdx i
          (r.grow j c.coefficients[i]) := by
    conv_lhs => rw [← hcoefficients]
    exact zipWith_insertIdx (fun r x => r.grow j x) hi hlength r _
  show Program.clearSolution { p with
      rows := (p.rows.insertIdx i r).zipWith (fun r x => r.grow j x) c.coefficients
      decisions := p.decisions.insertIdx j ⟨c.cost, c.label⟩ } = _
  rw [hrows]
  rfl

theorem Program.insertRow_insertColumn (hi : i ≤ p.height) (hj : j ≤ p.width)
    (hr : r.coefficients.length = p.width) (hc : c.coefficients.length = p.height + 1)
    (hx : c.coefficients[i]? = some x) :
    ∃ q, (p.insertRow i r >>= fun grown => grown.insertColumn j c) = .ok q ∧
      (p.insertColumn j (c.without i) >>= fun grown => grown.insertRow i (r.grow j x)) = .ok q := by
  have hlt : i < c.coefficients.length := (List.getElem?_eq_some_iff.mp hx).1
  have hwithout : (c.without i).coefficients.length = p.height := by
    rw [Column.without, List.length_eraseIdx_of_lt hlt, hc]
    rfl
  have hheight : ((Edit.insertRow i r).target p).height = p.height + 1 :=
    List.length_insertIdx_of_le_length hi r
  have hwidth : ((Edit.insertColumn j (c.without i)).target p).width = p.width + 1 :=
    List.length_insertIdx_of_le_length hj _
  have hgrown : (r.grow j x).coefficients.length = p.width + 1 := by
    rw [Constraint.grow, List.length_insertIdx_of_le_length (hr ▸ hj), hr]
  have hkept : ((Edit.insertColumn j (c.without i)).target p).height = p.height := by
    show (p.rows.zipWith _ _).length = _
    rw [List.length_zipWith, hwithout]
    exact Nat.min_self _
  refine ⟨(Edit.insertColumn j c).target ((Edit.insertRow i r).target p), ?_, ?_⟩
  · rw [insertRow_eq hi hr]
    exact insertColumn_eq hj (hc.trans hheight.symm)
  · rw [insertColumn_eq hj hwithout, target_insertRow_insertColumn hi hc hx]
    exact insertRow_eq (hkept.ge.trans' hi) (hgrown.trans hwidth.symm)

end Commuting

/-! ### Building up a program -/

/-- A row or a column of a finished program. -/
inductive Line where
  | row (i : Nat)
  | column (j : Nat)
  deriving DecidableEq

/-- The rows and the columns of a finished program that are there so far, in ascending order. -/
structure Layout where
  rows : List Nat
  columns : List Nat

namespace Layout

def add (l : Layout) : Line → Layout
  | .row i => { l with rows := l.rows.orderedInsert (· ≤ ·) i }
  | .column j => { l with columns := l.columns.orderedInsert (· ≤ ·) j }

/-- The count of the lines that come before a new one. -/
def before (lines : List Nat) (i : Nat) : Nat := lines.countP (· < i)

end Layout

namespace Program

variable {α : Type}

/-- The coefficients of some rows in one column. -/
def columnEntries (rows : List (Constraint α)) (j : Nat) : List α :=
  rows.filterMap (·.coefficients[j]?)

variable [Scalar α]

/-- What there is of a program when only the lines of a layout are there. -/
def part (p : Program α) (l : Layout) : Program α :=
  clearSolution { p with
    rows := (pick l.rows p.rows).map (·.reorder l.columns)
    decisions := pick l.columns p.decisions }

/-- Puts a line of the finished program `p` into the unfinished `q`, as much of it as belongs to
what is there. -/
def addLine (p : Program α) (l : Layout) (q : Program α) : Line → Except Error (Program α)
  | .row i => do
    let r ← p.row i
    q.insertRow (Layout.before l.rows i) (r.reorder l.columns)
  | .column j => do
    let d ← p.decision j
    q.insertColumn (Layout.before l.columns j)
      ⟨columnEntries (pick l.rows p.rows) j, d.cost, d.label⟩

/-- Puts lines in one after the other. -/
def build (p : Program α) : Layout → List Line → Program α → Except Error (Program α)
  | _, [], q => .ok q
  | l, line :: lines, q => do
    let q ← p.addLine l q line
    p.build (l.add line) lines q

end Program

/-- Each number once, in ascending order and below a bound. -/
structure Ascending (lines : List Nat) (n : Nat) : Prop where
  pairwise : lines.Pairwise (· < ·)
  lt : ∀ i ∈ lines, i < n

section Ascending

variable {β : Type} {lines : List Nat} {i n : Nat}

theorem Ascending.orderedInsert (h : Ascending lines n) (hi : i < n) (hnew : i ∉ lines) :
    Ascending (lines.orderedInsert (· ≤ ·) i) n where
  pairwise := by
    have hordered : (lines.orderedInsert (· ≤ ·) i).Pairwise (· ≤ ·) :=
      (h.pairwise.imp Nat.le_of_lt).orderedInsert i lines
    have hnodup : (lines.orderedInsert (· ≤ ·) i).Nodup := by
      rw [(List.perm_orderedInsert (· ≤ ·) i lines).nodup_iff, List.nodup_cons]
      exact ⟨hnew, h.pairwise.imp Nat.ne_of_lt⟩
    exact (hordered.and hnodup).imp fun hle => lt_of_le_of_ne hle.1 hle.2
  lt k hk := by
    rcases (List.mem_orderedInsert (· ≤ ·)).mp hk with rfl | hk
    · exact hi
    · exact h.lt k hk

theorem Ascending.length_pick (h : Ascending lines n) {xs : List β} (hlength : xs.length = n) :
    (pick lines xs).length = lines.length := by
  have hfound : ∀ k ∈ lines, (xs[k]?).isSome := by
    intro k hk
    rw [List.getElem?_eq_getElem (hlength ▸ h.lt k hk)]
    rfl
  unfold pick
  rw [List.length_filterMap_eq_countP]
  exact List.countP_eq_length.mpr hfound

/-- The new element goes behind those of the lines before its own. -/
theorem Ascending.pick_orderedInsert (h : Ascending lines n) {xs : List β} {x : β}
    (hlength : xs.length = n) (hx : xs[i]? = some x) (hnew : i ∉ lines) :
    pick (lines.orderedInsert (· ≤ ·) i) xs
      = (pick lines xs).insertIdx (Layout.before lines i) x := by
  have hi : i < xs.length := (List.getElem?_eq_some_iff.mp hx).1
  obtain rfl : xs[i] = x := (List.getElem?_eq_some_iff.mp hx).2
  unfold Layout.before
  induction lines with
  | nil => exact pick_cons hi []
  | cons k lines ih =>
      obtain ⟨hk, hrest⟩ := List.pairwise_cons.mp h.pairwise
      obtain ⟨hne, hnew⟩ := List.ne_and_not_mem_of_not_mem_cons hnew
      have hklt : k < xs.length := hlength ▸ h.lt k List.mem_cons_self
      by_cases hle : i ≤ k
      · have hcount : (k :: lines).countP (· < i) = 0 := by
          rw [List.countP_eq_zero]
          intro m hm
          have hmk : k ≤ m := by
            rcases List.mem_cons.mp hm with rfl | hm
            · exact le_rfl
            · exact (hk m hm).le
          simp only [decide_eq_true_eq]
          omega
        rw [List.orderedInsert_cons_of_le _ _ hle, pick_cons hi, hcount, List.insertIdx_zero]
      · have hcount : (k :: lines).countP (· < i) = lines.countP (· < i) + 1 :=
          List.countP_cons_of_pos (by simpa using hle)
        have htail : Ascending lines n := ⟨hrest, fun m hm => h.lt m (List.mem_cons_of_mem k hm)⟩
        rw [List.orderedInsert_of_not_le _ _ hle, pick_cons hklt, pick_cons hklt, hcount,
          List.insertIdx_succ_cons, ih htail hnew]

theorem Ascending.eq_range (h : Ascending lines n) (hall : ∀ k, k < n → k ∈ lines) :
    lines = List.range n := by
  have hperm : lines.Perm (List.range n) := by
    rw [List.perm_ext_iff_of_nodup (h.pairwise.imp Nat.ne_of_lt) List.nodup_range]
    intro k
    rw [List.mem_range]
    exact ⟨h.lt k, hall k⟩
  refine hperm.eq_of_pairwise ?_ h.pairwise List.pairwise_lt_range
  intro a b _ _ hab hba
  exact absurd hab hba.asymm

end Ascending

namespace Program

variable {α : Type} {p : Program α} {l : Layout} {line : Line} {lines : List Line}

structure Within (p : Program α) (l : Layout) : Prop where
  rows : Ascending l.rows p.height
  columns : Ascending l.columns p.width

/-- The line belongs to the program and is not there yet. -/
def Lacks (p : Program α) (l : Layout) : Line → Prop
  | .row i => i < p.height ∧ i ∉ l.rows
  | .column j => j < p.width ∧ j ∉ l.columns

/-- All that is missing, in any order. -/
structure Completes (p : Program α) (l : Layout) (lines : List Line) : Prop where
  nodup : lines.Nodup
  mem_iff : ∀ line, line ∈ lines ↔ p.Lacks l line

theorem Within.add (h : p.Within l) (hline : p.Lacks l line) : p.Within (l.add line) := by
  cases line with
  | row i => exact ⟨h.rows.orderedInsert hline.1 hline.2, h.columns⟩
  | column j => exact ⟨h.rows, h.columns.orderedInsert hline.1 hline.2⟩

theorem lacks_add_iff {other : Line} :
    p.Lacks (l.add line) other ↔ other ≠ line ∧ p.Lacks l other := by
  cases line <;> cases other <;>
    simp [Lacks, Layout.add, List.mem_orderedInsert, and_left_comm]

theorem Completes.tail (h : p.Completes l (line :: lines)) : p.Completes (l.add line) lines where
  nodup := (List.nodup_cons.mp h.nodup).2
  mem_iff other := by
    have hnew := (List.nodup_cons.mp h.nodup).1
    rw [lacks_add_iff, ← h.mem_iff, List.mem_cons]
    constructor
    · intro hother
      refine ⟨?_, .inr hother⟩
      rintro rfl
      exact hnew hother
    · rintro ⟨hne, rfl | hother⟩
      · exact absurd rfl hne
      · exact hother

variable [Scalar α]

theorem height_part (h : p.Within l) : (p.part l).height = l.rows.length :=
  (List.length_map _).trans (h.rows.length_pick rfl)

theorem width_part (h : p.Within l) : (p.part l).width = l.columns.length :=
  h.columns.length_pick rfl

omit [Scalar α] in
theorem mem_of_mem_pick {β : Type} {order : List Nat} {xs : List β} {x : β}
    (hx : x ∈ pick order xs) : x ∈ xs := by
  obtain ⟨i, -, hi⟩ := List.mem_filterMap.mp hx
  exact List.mem_of_getElem? hi

omit [Scalar α] in
theorem length_columnEntries {rows : List (Constraint α)} {j : Nat}
    (hrows : ∀ r ∈ rows, j < r.coefficients.length) :
    (columnEntries rows j).length = rows.length := by
  have hfound : ∀ r ∈ rows, (r.coefficients[j]?).isSome := by
    intro r hr
    rw [List.getElem?_eq_getElem (hrows r hr)]
    rfl
  unfold columnEntries
  rw [List.length_filterMap_eq_countP]
  exact List.countP_eq_length.mpr hfound

omit [Scalar α] in
/-- Each row takes its entry of the new column. -/
theorem zipWith_columnEntries {n j : Nat} {columns : List Nat} (hcolumns : Ascending columns n)
    (hj : j < n) (hnew : j ∉ columns) {rows : List (Constraint α)}
    (hrows : ∀ r ∈ rows, r.coefficients.length = n) :
    (rows.map (·.reorder columns)).zipWith (fun r x => r.grow (Layout.before columns j) x)
        (columnEntries rows j)
      = rows.map (·.reorder (columns.orderedInsert (· ≤ ·) j)) := by
  induction rows with
  | nil => rfl
  | cons r rows ih =>
      obtain ⟨hr, hrows⟩ := List.forall_mem_cons.mp hrows
      obtain ⟨x, hentry⟩ : ∃ x, r.coefficients[j]? = some x :=
        ⟨_, List.getElem?_eq_getElem (hr ▸ hj)⟩
      have hgrow := hcolumns.pick_orderedInsert hr hentry hnew
      unfold columnEntries at ih ⊢
      rw [List.filterMap_cons, hentry, List.map_cons, List.zipWith_cons_cons, ih hrows,
        List.map_cons, Constraint.grow, Constraint.reorder, ← hgrow]
      rfl

/-- What is there is still a part of the finished program after one more line. -/
theorem addLine_part (h : p.WellFormed) (hl : p.Within l) (hline : p.Lacks l line) :
    p.addLine l (p.part l) line = .ok (p.part (l.add line)) := by
  have hlength : ∀ r ∈ pick l.rows p.rows, r.coefficients.length = p.width :=
    fun r hr => h.row_length r (mem_of_mem_pick hr)
  cases line with
  | row i =>
      obtain ⟨hi, hnew⟩ := hline
      have hrow : p.rows[i]? = some p.rows[i] := List.getElem?_eq_getElem hi
      have hwhole : p.rows[i].coefficients.length = p.width := h.row_length _ (List.getElem_mem hi)
      have hindex : Layout.before l.rows i ≤ (p.part l).height := by
        rw [height_part hl]
        exact List.countP_le_length
      have hcoefficients : (p.rows[i].reorder l.columns).coefficients.length
          = (p.part l).width := by
        rw [width_part hl]
        exact hl.columns.length_pick hwhole
      have hrows := hl.rows.pick_orderedInsert rfl hrow hnew
      have hfound : p.row i = .ok p.rows[i] := by
        rw [Program.row, hrow]
      rw [addLine, hfound]
      show (p.part l).insertRow _ _ = _
      rw [insertRow_eq hindex hcoefficients]
      show Except.ok (clearSolution { p with
        rows := ((pick l.rows p.rows).map _).insertIdx _ _
        decisions := pick l.columns p.decisions }) = _
      rw [← List.map_insertIdx, ← hrows]
      rfl
  | column j =>
      obtain ⟨hj, hnew⟩ := hline
      have hdecision : p.decisions[j]? = some p.decisions[j] := List.getElem?_eq_getElem hj
      have hindex : Layout.before l.columns j ≤ (p.part l).width := by
        rw [width_part hl]
        exact List.countP_le_length
      have hrows := zipWith_columnEntries hl.columns hj hnew hlength
      have hcoefficients : (columnEntries (pick l.rows p.rows) j).length = (p.part l).height := by
        rw [length_columnEntries fun r hr => hlength r hr ▸ hj]
        exact (List.length_map _).symm
      have hdecisions := hl.columns.pick_orderedInsert rfl hdecision hnew
      have hfound : p.decision j = .ok p.decisions[j] := by
        rw [Program.decision, hdecision]
      rw [addLine, hfound]
      show (p.part l).insertColumn _ _ = _
      rw [insertColumn_eq hindex hcoefficients]
      show Except.ok (clearSolution { p with
        rows := ((pick l.rows p.rows).map _).zipWith _ _
        decisions := (pick l.columns p.decisions).insertIdx _ p.decisions[j] }) = _
      rw [← hdecisions]
      exact congrArg (fun rows => Except.ok (clearSolution { p with rows, decisions := _ })) hrows

theorem part_eq_of_completes (h : p.WellFormed) (hl : p.Within l) (hnone : p.Completes l []) :
    p.part l = p.clearSolution := by
  have hrows : l.rows = List.range p.height := by
    apply hl.rows.eq_range
    intro i hi
    by_contra hmissing
    exact List.not_mem_nil ((hnone.mem_iff (.row i)).mpr ⟨hi, hmissing⟩)
  have hcolumns : l.columns = List.range p.width := by
    apply hl.columns.eq_range
    intro j hj
    by_contra hmissing
    exact List.not_mem_nil ((hnone.mem_iff (.column j)).mpr ⟨hj, hmissing⟩)
  have hwhole : ∀ r ∈ p.rows, r.reorder (List.range p.width) = r := by
    intro r hr
    rw [Constraint.reorder, ← h.row_length r hr, pick_range]
  unfold part
  rw [hrows, hcolumns, height, width, pick_range, pick_range]
  exact congrArg (fun rows => clearSolution { p with rows }) ((List.map_congr_left hwhole).trans
    (List.map_id _))

/-- Whatever the order of the missing lines, the finished program comes out. -/
theorem build_part (h : p.WellFormed) (hl : p.Within l) (hlines : p.Completes l lines) :
    p.build l lines (p.part l) = .ok p.clearSolution := by
  induction lines generalizing l with
  | nil => exact congrArg Except.ok (part_eq_of_completes h hl hlines)
  | cons line lines ih =>
      have hline : p.Lacks l line := (hlines.mem_iff line).mp List.mem_cons_self
      rw [build, addLine_part h hl hline]
      exact ih (hl.add hline) hlines.tail

/-- A new row or column comes where it is put, between the old ones, and a row and a column may be
put in either one first. So a program that is built up line by line is the same for every order. -/
theorem layout_of_insertions {p : Program α} (h : p.WellFormed) :
    (∀ i r, i ≤ p.height → r.coefficients.length = p.width →
      ∃ q, p.insertRow i r = .ok q ∧
        Vectors.execute (Edit.insertRow i r).steps p.vectors = some (.ok (), q.vectors) ∧
        Vectors.RowInserted i r p.vectors q.vectors) ∧
    (∀ j c, j ≤ p.width → c.coefficients.length = p.height →
      ∃ q, p.insertColumn j c = .ok q ∧
        Vectors.execute (Edit.insertColumn j c).steps p.vectors = some (.ok (), q.vectors) ∧
        Vectors.ColumnInserted j c p.vectors q.vectors) ∧
    (∀ i r j c x, i ≤ p.height → j ≤ p.width → r.coefficients.length = p.width →
      c.coefficients.length = p.height + 1 → c.coefficients[i]? = some x →
      ∃ q, (p.insertRow i r >>= fun grown => grown.insertColumn j c) = .ok q ∧
        (p.insertColumn j (c.without i) >>= fun grown => grown.insertRow i (r.grow j x))
          = .ok q) ∧
    ∀ l lines, p.Within l → p.Completes l lines →
      p.build l lines (p.part l) = .ok p.clearSolution := by
  refine ⟨?_, ?_, ?_, ?_⟩
  · intro i r hi hr
    have hq := insertRow_eq hi hr
    exact ⟨_, hq, execute_of_apply h (.insertRow i r) hq, rowInserted h hi hr⟩
  · intro j c hj hc
    have hq := insertColumn_eq hj hc
    exact ⟨_, hq, execute_of_apply h (.insertColumn j c) hq, columnInserted h hj hc⟩
  · intro i r j c x hi hj hr hc hx
    exact insertRow_insertColumn hi hj hr hc hx
  · intro l lines hl hlines
    exact build_part h hl hlines

/-- Two products on two machines. -/
def workshop : Program Float :=
  .ofRows [⟨[1, 2], .lessEq, 4, some "lathe"⟩, ⟨[3, 1], .lessEq, 6, some "press"⟩]
    [⟨5, some "bolts"⟩, ⟨4, some "nuts"⟩]

theorem layout_workshop :
    (∃ q, workshop.insertRow 1 ⟨[7, 8], .equal, 9, none⟩ = .ok q ∧
      Vectors.RowInserted 1 ⟨[7, 8], .equal, 9, none⟩ workshop.vectors q.vectors) ∧
    (∃ q, workshop.insertColumn 2 ⟨[7, 8], 9, none⟩ = .ok q ∧
      Vectors.ColumnInserted 2 ⟨[7, 8], 9, none⟩ workshop.vectors q.vectors) ∧
    (∃ q, (workshop.insertRow 1 ⟨[7, 8], .equal, 9, none⟩ >>=
        fun grown => grown.insertColumn 0 ⟨[2, 4, 6], 3, none⟩) = .ok q ∧
      (workshop.insertColumn 0 ⟨[2, 6], 3, none⟩ >>=
        fun grown => grown.insertRow 1 ⟨[4, 7, 8], .equal, 9, none⟩) = .ok q) ∧
    workshop.build ⟨[1], []⟩ [.column 1, .row 0, .column 0] (workshop.part ⟨[1], []⟩)
      = .ok workshop := by
  have h : workshop.WellFormed := ⟨by decide, by decide, by decide, rfl⟩
  obtain ⟨hrow, hcolumn, hboth, hbuild⟩ := layout_of_insertions h
  obtain ⟨q, hq, -, hinserted⟩ := hrow 1 ⟨[7, 8], .equal, 9, none⟩ (by decide) rfl
  obtain ⟨w, hw, -, hwidened⟩ := hcolumn 2 ⟨[7, 8], 9, none⟩ (by decide) rfl
  have hwithin : workshop.Within ⟨[1], []⟩ := ⟨⟨by decide, by decide⟩, ⟨by decide, by decide⟩⟩
  have hcompletes : workshop.Completes ⟨[1], []⟩ [.column 1, .row 0, .column 0] := by
    refine ⟨by decide, ?_⟩
    rintro (i | j)
    · have hheight : workshop.height = 2 := rfl
      simp only [Lacks, hheight, List.mem_cons, List.not_mem_nil, Line.row.injEq, reduceCtorEq,
        false_or, or_false]
      omega
    · have hwidth : workshop.width = 2 := rfl
      simp only [Lacks, hwidth, List.mem_cons, List.not_mem_nil, Line.column.injEq, reduceCtorEq,
        or_false, false_or, not_false_eq_true, and_true]
      omega
  exact ⟨⟨q, hq, hinserted⟩, ⟨w, hw, hwidened⟩,
    hboth 1 _ 0 ⟨[2, 4, 6], 3, none⟩ 4 (by decide) (by decide) rfl rfl rfl,
    hbuild _ _ hwithin hcompletes⟩

end Program

end LinProg
