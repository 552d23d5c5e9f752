import LinProg.Engine.Basic
import LinProg.Proofs.Tableau.Shape
import Mathlib.Data.List.Forall2

/-!
# Every index is in range

A solve reads by index: from one store with the entries of all rows, from the right sides, the cost
row, the basis and the columns, and it writes by index into the values that it hands out. Here its
steps are written with each index checked, and with a count of artificial variables that must not
fall below zero. On a tableau of the right shape no check fails, whatever the numbers are.
-/

namespace LinProg

/-! ### Rows of one length in one store -/

section Flatten

variable {α : Type} {rows : List (List α)} {width : Nat}

theorem length_flatten_of_length (hrows : ∀ r ∈ rows, r.length = width) :
    rows.flatten.length = rows.length * width := by
  induction rows with
  | nil => simp
  | cons r rows ih =>
      rw [List.forall_mem_cons] at hrows
      rw [List.flatten_cons, List.length_append, hrows.1, ih hrows.2, List.length_cons,
        Nat.succ_mul, Nat.add_comm]

/-- Behind the rows above it, a row starts the store. -/
theorem drop_flatten_of_length (hrows : ∀ r ∈ rows, r.length = width) (i : Nat) :
    rows.flatten.drop (i * width) = (rows.drop i).flatten := by
  induction i generalizing rows with
  | zero => simp
  | succ i ih =>
      cases rows with
      | nil => simp
      | cons r rows =>
          rw [List.forall_mem_cons] at hrows
          rw [List.flatten_cons, List.drop_succ_cons, ← ih hrows.2, Nat.succ_mul, Nat.add_comm,
            ← List.drop_drop, ← hrows.1, List.drop_left]

theorem getElem?_flatten_of_length (hrows : ∀ r ∈ rows, r.length = width) {i j : Nat} {r : List α}
    (hi : rows[i]? = some r) (hj : j < width) : rows.flatten[i * width + j]? = r[j]? := by
  obtain ⟨hlt, hget⟩ := List.getElem?_eq_some_iff.mp hi
  have hlength : r.length = width := hrows r (List.mem_of_getElem? hi)
  rw [← List.getElem?_drop, drop_flatten_of_length hrows, List.drop_eq_getElem_cons hlt, hget,
    List.flatten_cons, List.getElem?_append_left (by rwa [hlength])]

theorem take_drop_flatten_of_length (hrows : ∀ r ∈ rows, r.length = width) {i : Nat} {r : List α}
    (hi : rows[i]? = some r) : (rows.flatten.drop (i * width)).take width = r := by
  obtain ⟨hlt, hget⟩ := List.getElem?_eq_some_iff.mp hi
  have hlength : r.length = width := hrows r (List.mem_of_getElem? hi)
  rw [drop_flatten_of_length hrows, List.drop_eq_getElem_cons hlt, hget, List.flatten_cons,
    ← hlength, List.take_left]

/-- A loop over all indices that finds each element makes up the list. -/
theorem mapM_range_eq_some {β : Type} {xs : List β} {f : Nat → Option β}
    (hf : ∀ i x, xs[i]? = some x → f i = some x) : (List.range xs.length).mapM f = some xs := by
  have hall : List.Forall₂ (fun i x => f i = some x) (List.range xs.length) xs := by
    rw [List.forall₂_iff_get]
    refine ⟨List.length_range, ?_⟩
    intro i hi hlt
    simp only [List.get_eq_getElem, List.getElem_range]
    exact hf i _ (List.getElem?_eq_getElem hlt)
  clear hf
  generalize List.range xs.length = indices at hall
  induction hall with
  | nil => rfl
  | cons hfirst _ ih => simp [List.mapM_cons, hfirst, ih]

end Flatten

namespace Tableau

variable {α : Type}

/-- The entries of all rows, row after row. -/
def cells (t : Tableau α) : List α := (t.equations.map (·.entries)).flatten

/-! ### Steps with checked indices -/

namespace Checked

def cell (t : Tableau α) (row column : Nat) : Option α :=
  if row < t.height ∧ column < t.width then t.cells[row * t.width + column]? else none

/-- The cells of one row. -/
def slice (t : Tableau α) (row : Nat) : Option (List α) :=
  if (row + 1) * t.width ≤ t.cells.length then some ((t.cells.drop (row * t.width)).take t.width)
  else none

def equation (t : Tableau α) (row : Nat) : Option (Equation α) := do
  let entries ← slice t row
  let rhs ← t.rhs[row]?
  let basic ← t.basis[row]?
  return ⟨entries, rhs, basic⟩

/-- The new count of artificial basic variables. None is left to take away from zero. -/
def recount (count : Nat) (leaving entering : Variable) : Option Nat :=
  match leaving.isArtificial, entering.isArtificial with
  | true, false => if count = 0 then none else some (count - 1)
  | false, true => some (count + 1)
  | _, _ => some count

variable [Scalar α]

def ratio (t : Tableau α) (column : Nat) (tolerance : α) (row : Nat) :
    Option (Option (Nat × α)) := do
  let entry ← cell t row column
  if entry ≤ tolerance then
    return none
  else
    let rhs ← t.rhs[row]?
    return some (row, rhs / entry)

def leavingRow (t : Tableau α) (column : Nat) (tolerance : α) : Option (Option Nat) := do
  let ratios ← (List.range t.height).mapM (ratio t column tolerance)
  return ((ratios.filterMap id).foldl lesser none).map (·.1)

def eliminated (t : Tableau α) (column : Nat) (pivotRow : Equation α) (row : Nat) :
    Option (Equation α) := do
  let factor ← cell t row column
  let e ← equation t row
  return if factor == 0 then e
    else
      { e with
        entries := subtractMultiple factor pivotRow.entries e.entries
        rhs := e.rhs - factor * pivotRow.rhs }

def pivot (t : Tableau α) (row column : Nat) : Option (Tableau α) := do
  let divisor ← cell t row column
  let e ← equation t row
  let factor ← t.cost[column]?
  let entering ← t.columns[column]?
  let artificialCount ← recount t.artificialCount e.basic entering
  let pivotRow := e.divide divisor
  let equations ← (List.range t.height).mapM fun i =>
    if i = row then some { pivotRow with basic := entering } else eliminated t column pivotRow i
  return { t with
    equations
    cost := subtractMultiple factor pivotRow.entries t.cost
    artificialCount }

def run (tolerance : α) : Nat → Tableau α → Option (Run α)
  | limit, t =>
    match t.enteringColumn tolerance with
    | none => some ⟨[], t, .optimal⟩
    | some column => do
      match ← leavingRow t column tolerance with
      | none => return ⟨[], t, .unbounded column⟩
      | some row =>
        match limit with
        | 0 => return ⟨[], t, .truncated⟩
        | limit + 1 =>
          let leaving ← t.basis[row]?
          let entering ← t.columns[column]?
          let next ← pivot t row column
          let rest ← run tolerance limit next
          let exchange : Exchange := ⟨row, column, some leaving, some entering⟩
          return { rest with exchanges := exchange :: rest.exchanges }

def decisionValues (t : Tableau α) (count : Nat) : Option (List α) :=
  t.equations.foldlM
    (fun x e =>
      if e.basic.role = .decision then
        if e.basic.column < x.length then some (x.set e.basic.column e.rhs) else none
      else some x)
    (List.replicate count 0)

end Checked

/-! ### No check fails -/

section Reads

variable {t : Tableau α} (h : t.Shaped) {row column : Nat} {e : Equation α}

include h in
theorem Shaped.row_length : ∀ r ∈ t.equations.map (·.entries), r.length = t.width :=
  List.forall_mem_map.mpr h.entries_length

include h in
theorem Shaped.length_cells : t.cells.length = t.height * t.width := by
  unfold cells
  rw [length_flatten_of_length h.row_length, List.length_map]
  rfl

include h in
theorem checked_slice (hrow : t.equations[row]? = some e) :
    Checked.slice t row = some e.entries := by
  have hlt : row < t.height := (List.getElem?_eq_some_iff.mp hrow).1
  have hentries : (t.equations.map (·.entries))[row]? = some e.entries := by simp [hrow]
  have hfits : (row + 1) * t.width ≤ t.cells.length := by
    rw [h.length_cells]
    exact Nat.mul_le_mul_right _ hlt
  unfold Checked.slice
  rw [if_pos hfits]
  exact congrArg some (take_drop_flatten_of_length h.row_length hentries)

include h in
theorem checked_equation (hrow : t.equations[row]? = some e) : Checked.equation t row = some e := by
  have hrhs : t.rhs[row]? = some e.rhs := by simp [rhs, hrow]
  have hbasic : t.basis[row]? = some e.basic := by simp [basis, hrow]
  simp [Checked.equation, checked_slice h hrow, hrhs, hbasic]

include h in
/-- An artificial variable that leaves has been counted. -/
theorem checked_recount (hrow : t.equations[row]? = some e) (entering : Variable) :
    Checked.recount t.artificialCount e.basic entering
      = some (recount t.artificialCount e.basic entering) := by
  unfold Checked.recount recount
  cases hleaving : e.basic.isArtificial with
  | false => cases entering.isArtificial <;> rfl
  | true =>
      have hcounted := h.count_pos_iff.mpr ⟨e, List.mem_of_getElem? hrow, hleaving⟩
      cases entering.isArtificial with
      | false => exact if_neg (Nat.ne_of_gt hcounted)
      | true => rfl

variable [Scalar α]

include h in
theorem checked_cell (hrow : t.equations[row]? = some e) (hcolumn : column < t.width) :
    Checked.cell t row column = some (e.entry column) := by
  have hlt : row < t.height := (List.getElem?_eq_some_iff.mp hrow).1
  have hentries : (t.equations.map (·.entries))[row]? = some e.entries := by simp [hrow]
  have hinside : column < e.entries.length := by
    rwa [h.entries_length e (List.mem_of_getElem? hrow)]
  unfold Checked.cell cells Equation.entry
  rw [if_pos ⟨hlt, hcolumn⟩, getElem?_flatten_of_length h.row_length hentries hcolumn,
    List.getD_eq_getElem?_getD, List.getElem?_eq_getElem hinside, Option.getD_some]

include h in
theorem checked_leavingRow (hcolumn : column < t.width) (tolerance : α) :
    Checked.leavingRow t column tolerance = some (t.leavingRow column tolerance) := by
  let candidate (row : Nat) (e : Equation α) : Option (Nat × α) :=
    if e.entry column ≤ tolerance then none else some (row, e.rhs / e.entry column)
  have hratios : (List.range t.height).mapM (Checked.ratio t column tolerance)
      = some (t.equations.mapIdx candidate) := by
    have hlength : t.height = (t.equations.mapIdx candidate).length := by simp [height]
    rw [hlength]
    apply mapM_range_eq_some
    intro i x hi
    rw [List.getElem?_mapIdx] at hi
    obtain ⟨e, hrow, rfl⟩ := Option.map_eq_some_iff.mp hi
    have hrhs : t.rhs[i]? = some e.rhs := by simp [rhs, hrow]
    by_cases hentry : e.entry column ≤ tolerance
    · simp [Checked.ratio, candidate, checked_cell h hrow hcolumn, hentry]
    · simp [Checked.ratio, candidate, checked_cell h hrow hcolumn, hentry, hrhs]
  have hkept : (t.equations.mapIdx candidate).filterMap id = t.ratios column tolerance := by
    rw [List.mapIdx_eq_zipIdx_map, List.filterMap_map]
    rfl
  unfold Checked.leavingRow leavingRow
  rw [hratios, ← hkept]
  rfl

include h in
theorem checked_eliminated (hrow : t.equations[row]? = some e) (hcolumn : column < t.width)
    (pivotRow : Equation α) :
    Checked.eliminated t column pivotRow row = some (e.eliminate column pivotRow) := by
  simp [Checked.eliminated, checked_cell h hrow hcolumn, checked_equation h hrow,
    Equation.eliminate]

include h in
theorem checked_pivot (hrow : row < t.height) (hcolumn : column < t.width) :
    Checked.pivot t row column = some (t.pivot row column) := by
  have he : t.equations[row]? = some t.equations[row] := List.getElem?_eq_getElem hrow
  have hentering : t.columns[column]? = some t.columns[column] := List.getElem?_eq_getElem hcolumn
  have hcost : t.cost[column]? = some (t.cost.getD column 0) := by
    have hinside : column < t.cost.length := by rwa [h.cost_length]
    rw [List.getD_eq_getElem?_getD, List.getElem?_eq_getElem hinside, Option.getD_some]
  generalize t.equations[row] = e at he
  generalize t.columns[column] = entering at hentering
  let pivotRow := e.divide (e.entry column)
  let place (i : Nat) (other : Equation α) : Equation α :=
    if i = row then { pivotRow with basic := entering } else other.eliminate column pivotRow
  have hequations : ((List.range t.height).mapM fun i =>
      if i = row then some { pivotRow with basic := entering }
      else Checked.eliminated t column pivotRow i) = some (t.equations.mapIdx place) := by
    have hlength : t.height = (t.equations.mapIdx place).length := by simp [height]
    rw [hlength]
    apply mapM_range_eq_some
    intro i x hi
    rw [List.getElem?_mapIdx] at hi
    obtain ⟨other, hother, rfl⟩ := Option.map_eq_some_iff.mp hi
    by_cases hi : i = row
    · simp [place, hi]
    · simp [place, hi, checked_eliminated h hother hcolumn]
  rw [pivot_eq he hentering]
  simp only [Checked.pivot, checked_cell h he hcolumn, checked_equation h he, hcost, hentering,
    checked_recount h he, Option.bind_eq_bind, Option.bind_some]
  rw [hequations]
  rfl

end Reads

/-! ### What a choice points at -/

section Choices

variable [Scalar α]

theorem mem_of_foldl_lower {candidates : List (α × Nat)} {best : Option Nat × α} {column : Nat}
    (hfound : (candidates.foldl lower best).1 = some column) :
    best.1 = some column ∨ ∃ candidate ∈ candidates, candidate.2 = column := by
  induction candidates generalizing best with
  | nil => exact .inl hfound
  | cons candidate candidates ih =>
      rw [List.foldl_cons] at hfound
      rcases ih hfound with hbest | ⟨other, hmem, hother⟩
      · unfold lower at hbest
        split at hbest
        · exact .inr ⟨candidate, List.mem_cons_self, Option.some.inj hbest⟩
        · exact .inl hbest
      · exact .inr ⟨other, List.mem_cons_of_mem _ hmem, hother⟩

theorem Shaped.enteringColumn_lt {t : Tableau α} (h : t.Shaped) {tolerance : α} {column : Nat}
    (hentering : t.enteringColumn tolerance = some column) : column < t.width := by
  unfold enteringColumn at hentering
  rcases mem_of_foldl_lower hentering with hnone | ⟨⟨v, i⟩, hmem, rfl⟩
  · cases hnone
  · rw [← h.cost_length]
    simpa using List.snd_lt_of_mem_zipIdx hmem

theorem mem_of_foldl_lesser {candidates : List (Nat × α)} {best : Option (Nat × α)} {c : Nat × α}
    (hfound : candidates.foldl lesser best = some c) : best = some c ∨ c ∈ candidates := by
  induction candidates generalizing best with
  | nil => exact .inl hfound
  | cons candidate candidates ih =>
      rw [List.foldl_cons] at hfound
      rcases ih hfound with hbest | hmem
      · unfold lesser at hbest
        split at hbest
        · split at hbest
          · exact .inl hbest
          · exact .inr (Option.some.inj hbest ▸ List.mem_cons_self)
        · exact .inr (Option.some.inj hbest ▸ List.mem_cons_self)
      · exact .inr (List.mem_cons_of_mem _ hmem)

theorem leavingRow_lt {t : Tableau α} {column row : Nat} {tolerance : α}
    (hleaving : t.leavingRow column tolerance = some row) : row < t.height := by
  unfold leavingRow at hleaving
  obtain ⟨c, hfound, rfl⟩ := Option.map_eq_some_iff.mp hleaving
  rcases mem_of_foldl_lesser hfound with hnone | hmem
  · cases hnone
  · unfold ratios at hmem
    obtain ⟨⟨e, i⟩, hrow, hratio⟩ := List.mem_filterMap.mp hmem
    have hlt : i < t.equations.length := by simpa using List.snd_lt_of_mem_zipIdx hrow
    dsimp only at hratio
    split at hratio
    · cases hratio
    · cases hratio
      exact hlt

end Choices

/-! ### A whole solve -/

section Solves

variable [Scalar α] {t : Tableau α} (h : t.Shaped)

include h in
theorem checked_run (tolerance : α) (limit : Nat) :
    Checked.run tolerance limit t = some (run tolerance limit t) := by
  induction limit generalizing t with
  | zero =>
      unfold Checked.run run choose
      cases hentering : t.enteringColumn tolerance with
      | none => rfl
      | some column =>
          simp only [checked_leavingRow h (h.enteringColumn_lt hentering), Option.bind_eq_bind,
            Option.bind_some]
          cases t.leavingRow column tolerance <;> rfl
  | succ limit ih =>
      unfold Checked.run run choose
      cases hentering : t.enteringColumn tolerance with
      | none => rfl
      | some column =>
          have hcolumn := h.enteringColumn_lt hentering
          simp only [checked_leavingRow h hcolumn, Option.bind_eq_bind, Option.bind_some]
          cases hleaving : t.leavingRow column tolerance with
          | none => rfl
          | some row =>
              have hrow := leavingRow_lt hleaving
              have hbasic : t.basis[row]? = some t.equations[row].basic := by
                simp [basis, List.getElem?_eq_getElem hrow]
              have hvariable : t.columns[column]? = some t.columns[column] :=
                List.getElem?_eq_getElem hcolumn
              simp only [checked_pivot h hrow hcolumn, ih (h.pivot row column), hbasic, hvariable,
                Option.bind_some, exchange]
              rfl

include h in
theorem checked_decisionValues :
    Checked.decisionValues t t.decisionCount = some (t.decisionValues t.decisionCount) := by
  have hcolumns : ∀ e ∈ t.equations, e.basic.role = .decision → e.basic.column < t.decisionCount :=
    fun e he => (h.basic_decision_iff he).mp
  have hlength : (List.replicate t.decisionCount (0 : α)).length = t.decisionCount :=
    List.length_replicate
  unfold Checked.decisionValues decisionValues
  generalize List.replicate t.decisionCount (0 : α) = x at hlength
  generalize t.equations = equations at hcolumns
  induction equations generalizing x with
  | nil => rfl
  | cons e equations ih =>
      rw [List.forall_mem_cons] at hcolumns
      rw [List.foldlM_cons, List.foldl_cons]
      by_cases hdecision : e.basic.role = .decision
      · have hinside : e.basic.column < x.length := hlength ▸ hcolumns.1 hdecision
        rw [if_pos hdecision, if_pos hdecision, if_pos hinside]
        exact ih _ (by rw [List.length_set, hlength]) hcolumns.2
      · rw [if_neg hdecision, if_neg hdecision]
        exact ih x hlength hcolumns.2

end Solves

end Tableau

end LinProg
