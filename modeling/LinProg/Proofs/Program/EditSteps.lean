import LinProg.Proofs.Program.Operations
import LinProg.Proofs.Program.Vectors

/-!
# Edits one vector at a time

An edit checks what it is given and then changes one vector after the other, so that in between the
vectors do not fit each other. Here each edit is the list of its steps in their order. What a step
has changed stays changed if a later step fails, and a change that needs a place which its vector
does not have gives no state at all. On a well-formed program the steps come to the same as the edit
of the program at once, and a refused edit has changed nothing.
-/

namespace LinProg

/-! ### Lists that keep their length -/

section Lists

variable {β γ : Type} {xs : List β} {i : Nat}

def replaceAt (xs : List β) (i : Nat) (x : β) : Option (List β) :=
  if i < xs.length then some (xs.set i x) else none

def insertAt (xs : List β) (i : Nat) (x : β) : Option (List β) :=
  if i ≤ xs.length then some (xs.insertIdx i x) else none

/-- New values for all places of a list. -/
def overwrite (xs ys : List β) : Option (List β) :=
  if xs.length = ys.length then some ys else none

/-- Puts a value into each list, as far as there are values. -/
def insertEach (i : Nat) : List (List β) → List β → Option (List (List β))
  | row :: rows, x :: xs => do
    let row ← insertAt row i x
    let rows ← insertEach i rows xs
    return row :: rows
  | rows, _ => some rows

theorem insertEach_eq {rows : List (List β)} {xs : List β} (hrows : ∀ row ∈ rows, i ≤ row.length)
    (hlength : rows.length = xs.length) :
    insertEach i rows xs = some (rows.zipWith (fun row x => row.insertIdx i x) xs) := by
  induction rows generalizing xs with
  | nil => cases xs <;> rfl
  | cons row rows ih =>
      cases xs with
      | nil => simp at hlength
      | cons x xs =>
          rw [List.forall_mem_cons] at hrows
          have hrest := ih hrows.2 (Nat.succ.inj hlength)
          simp [insertEach, insertAt, hrows.1, hrest]

/-- A change that a field does not see. -/
theorem map_modify_of_eq {f : β → β} {g : β → γ} (h : ∀ x, g (f x) = g x) :
    (xs.modify i f).map g = xs.map g := by
  apply List.ext_getElem?
  intro k
  rw [List.getElem?_map, List.getElem?_map, List.getElem?_modify]
  cases xs[k]? with
  | none => rfl
  | some x =>
      by_cases hk : i = k
      · simp [hk, h]
      · simp [hk]

theorem map_modify_eq_set {f : β → β} {g : β → γ} {y : γ} (h : ∀ x, xs[i]? = some x → g (f x) = y) :
    (xs.modify i f).map g = (xs.map g).set i y := by
  apply List.ext_getElem?
  intro k
  rw [List.getElem?_map, List.getElem?_modify, List.getElem?_set, List.getElem?_map,
    List.length_map]
  by_cases hk : i = k
  · subst hk
    cases hx : xs[i]? with
    | none => simp [List.getElem?_eq_none_iff.mp hx]
    | some x => simp [(List.getElem?_eq_some_iff.mp hx).1, h x hx]
  · simp [hk]

theorem map_zipWith_eq_left {δ : Type} {ys : List γ} {f : β → γ → β} {g : β → δ}
    (h : ∀ x y, g (f x y) = g x) (hlength : xs.length ≤ ys.length) :
    (xs.zipWith f ys).map g = xs.map g := by
  induction xs generalizing ys with
  | nil => rfl
  | cons x xs ih =>
      cases ys with
      | nil => simp at hlength
      | cons y ys => simp [h, ih (Nat.le_of_succ_le_succ hlength)]

theorem map_zipWith_eq_right {ys : List γ} {f : β → γ → β} {g : β → γ}
    (h : ∀ x y, g (f x y) = y) (hlength : ys.length ≤ xs.length) :
    (xs.zipWith f ys).map g = ys := by
  induction xs generalizing ys with
  | nil => cases ys with
    | nil => rfl
    | cons y ys => simp at hlength
  | cons x xs ih =>
      cases ys with
      | nil => rfl
      | cons y ys => simp [h, ih (Nat.le_of_succ_le_succ hlength)]

theorem replaceAt_eq {x : β} (hi : i < xs.length) : replaceAt xs i x = some (xs.set i x) :=
  if_pos hi

theorem insertAt_eq {x : β} (hi : i ≤ xs.length) : insertAt xs i x = some (xs.insertIdx i x) :=
  if_pos hi

theorem insertAt_map (f : β → γ) (hi : i ≤ xs.length) (x : β) :
    insertAt (xs.map f) i (f x) = some ((xs.insertIdx i x).map f) := by
  rw [List.map_insertIdx]
  apply insertAt_eq
  rwa [List.length_map]

theorem overwrite_eq {ys : List β} (h : xs.length = ys.length) : overwrite xs ys = some ys :=
  if_pos h

end Lists

namespace Vectors

variable {α : Type}

/-- One of the vectors, as it is read and as it is put in place. -/
structure Field (α β : Type) where
  get : Vectors α → β
  set : Vectors α → β → Vectors α

namespace Field

def coefficients : Field α (List (List α)) :=
  ⟨(·.coefficients), fun v coefficients => { v with coefficients }⟩

def rhs : Field α (List α) := ⟨(·.rhs), fun v rhs => { v with rhs }⟩

def relations : Field α (List Relation) := ⟨(·.relations), fun v relations => { v with relations }⟩

def costs : Field α (List α) := ⟨(·.costs), fun v costs => { v with costs }⟩

def rowLabels : Field α (List (Option String)) :=
  ⟨(·.rowLabels), fun v rowLabels => { v with rowLabels }⟩

def columnLabels : Field α (List (Option String)) :=
  ⟨(·.columnLabels), fun v columnLabels => { v with columnLabels }⟩

end Field

inductive Step (α : Type) where
  | check (test : Vectors α → Except Error Unit)
  | change (f : Vectors α → Option (Vectors α))

/-- Takes the steps one after the other up to the first failure. -/
def execute : List (Step α) → Vectors α → Option (Except Error Unit × Vectors α)
  | [], v => some (.ok (), v)
  | .check test :: steps, v =>
    match test v with
    | .ok _ => execute steps v
    | .error error => some (.error error, v)
  | .change f :: steps, v => do
    let v ← f v
    execute steps v

def Field.change {β : Type} (field : Field α β) (f : β → Option β) : Step α :=
  .change fun v => (f (field.get v)).map (field.set v)

def assign (f : Vectors α → Vectors α) : Step α := .change fun v => some (f v)

def checkRow (i : Nat) : Step α := .check fun v => checkIndex .row i v.rowCount

def checkColumn (j : Nat) : Step α := .check fun v => checkIndex .column j v.columnCount

def checkRowLength (coefficients : List α) : Step α :=
  .check fun v => checkLength .constraintRow v.columnCount coefficients.length

def inRow (i : Nat) (f : List α → Option (List α)) (rows : List (List α)) :
    Option (List (List α)) := do
  let row ← rows[i]?
  let row ← f row
  replaceAt rows i row

variable [Scalar α]

def clear (v : Vectors α) : Vectors α :=
  { v with solution := v.solution.map fun _ => 0, objectiveValue := 0 }

end Vectors

open Vectors in
def Edit.steps {α : Type} [Scalar α] : Edit α → List (Vectors.Step α)
  | setDirection direction => [assign fun v => { v with direction }]
  | setCoefficient i j value =>
    [checkRow i, checkColumn j, Field.coefficients.change (inRow i (replaceAt · j value))]
  | setRhs i value => [checkRow i, Field.rhs.change (replaceAt · i value)]
  | setCost j value => [checkColumn j, Field.costs.change (replaceAt · j value)]
  | setRelation i relation => [checkRow i, Field.relations.change (replaceAt · i relation)]
  | setRow i coefficients relation rhs =>
    [checkRow i, checkRowLength coefficients,
      Field.coefficients.change (inRow i (overwrite · coefficients)),
      Field.relations.change (replaceAt · i relation), Field.rhs.change (replaceAt · i rhs)]
  | setObjective costs =>
    [.check fun v => checkLength .objective v.columnCount costs.length,
      Field.costs.change (overwrite · costs)]
  | setRowLabel i label => [checkRow i, Field.rowLabels.change (replaceAt · i (some label))]
  | setColumnLabel j label =>
    [checkColumn j, Field.columnLabels.change (replaceAt · j (some label))]
  | setObjectiveLabel label => [assign fun v => { v with objectiveLabel := some label }]
  | insertRow i row =>
    [.check fun v => checkIndex .row i (v.rowCount + 1), checkRowLength row.coefficients,
      Field.coefficients.change (insertAt · i row.coefficients),
      Field.rhs.change (insertAt · i row.rhs),
      Field.relations.change (insertAt · i row.relation),
      Field.rowLabels.change (insertAt · i row.label),
      assign fun v => { v with rowCount := v.rowCount + 1 },
      assign clear]
  | insertColumn j column =>
    [.check fun v => checkIndex .column j (v.columnCount + 1),
      .check fun v => checkLength .column v.rowCount column.coefficients.length,
      Field.coefficients.change (insertEach j · column.coefficients),
      Field.costs.change (insertAt · j column.cost),
      Field.columnLabels.change (insertAt · j column.label),
      assign fun v => { v with columnCount := v.columnCount + 1 },
      assign fun v =>
        { v with solution := List.replicate v.columnCount 0, objectiveValue := 0 }]

namespace Vectors

section Refinement

variable {α : Type} {p q : Program α} {v w : Vectors α} {steps : List (Step α)}

theorem execute_change {f : Vectors α → Option (Vectors α)} (hf : f v = some w) :
    execute (.change f :: steps) v = execute steps w := by
  rw [execute, hf]
  rfl

theorem execute_field {β : Type} {field : Field α β} {f : β → Option β} {x : β}
    (hf : f (field.get v) = some x) :
    execute (field.change f :: steps) v = execute steps (field.set v x) := by
  apply execute_change
  rw [hf]
  rfl

theorem execute_assign {f : Vectors α → Vectors α} :
    execute (assign f :: steps) v = execute steps (f v) := rfl

theorem execute_append {more : List (Step α)} (h : execute steps v = some (.ok (), w)) :
    execute (steps ++ more) v = execute more w := by
  induction steps generalizing v with
  | nil =>
      obtain rfl := (Prod.mk.inj (Option.some.inj h)).2
      rfl
  | cons step steps ih =>
      cases step with
      | check test =>
          rw [List.cons_append, execute]
          rw [execute] at h
          cases htest : test v with
          | ok u =>
              rw [htest] at h
              exact ih h
          | error error =>
              rw [htest] at h
              cases h
      | change f =>
          rw [List.cons_append, execute]
          rw [execute] at h
          cases hf : f v with
          | none =>
              rw [hf] at h
              cases h
          | some w =>
              rw [hf] at h
              exact ih h

/-- The steps leave what the change of the program at once leaves. -/
def Leaves (p : Program α) (steps : List (Step α)) (result : Except Error (Program α)) : Prop :=
  execute steps p.vectors = some ((p.outcome result).map id Program.vectors)

theorem leaves_of_execute (h : execute steps p.vectors = some (.ok (), q.vectors)) :
    Leaves p steps (.ok q) := h

theorem leaves_check {test : Vectors α → Except Error Unit} {check : Except Error Unit}
    {rest : Except Error (Program α)} (htest : test p.vectors = check)
    (hrest : check = .ok () → Leaves p steps rest) :
    Leaves p (.check test :: steps) (check >>= fun _ => rest) := by
  unfold Leaves execute
  rw [htest]
  cases check with
  | error error => rfl
  | ok u => exact hrest rfl

/-- Two checks in a row, the second only after the first has succeeded. -/
theorem leaves_checks {test test' : Vectors α → Except Error Unit}
    {check check' : Except Error Unit} (htest : test p.vectors = check) (htest' : test' p.vectors = check')
    (hrest : check = .ok () → check' = .ok () → Leaves p steps (.ok q)) :
    Leaves p (.check test :: .check test' :: steps)
      ((check >>= fun _ => check') >>= fun _ => .ok q) := by
  rw [bind_assoc]
  apply leaves_check htest
  intro hcheck
  exact leaves_check htest' (hrest hcheck)

theorem vectors_modifyRow (p : Program α) (i : Nat) (f : Constraint α → Constraint α) :
    (p.modifyRow i f).vectors =
      { p.vectors with
        coefficients := (p.rows.modify i f).map (·.coefficients)
        rhs := (p.rows.modify i f).map (·.rhs)
        relations := (p.rows.modify i f).map (·.relation)
        rowLabels := (p.rows.modify i f).map (·.label) } := by
  unfold Program.vectors
  rw [Program.height_modifyRow]
  rfl

theorem vectors_withDecisions (p : Program α) {decisions : List (Decision α)}
    (hlength : decisions.length = p.width) :
    { p with decisions }.vectors =
      { p.vectors with
        costs := decisions.map (·.cost)
        columnLabels := decisions.map (·.label) } := by
  unfold Program.vectors
  rw [← hlength]
  rfl

end Refinement

section Edits

variable {α : Type} [Scalar α] {p : Program α}

theorem vectors_clearSolution (hlength : p.solution.length = p.width) :
    p.clearSolution.vectors = p.vectors.clear := by
  unfold Vectors.clear
  show { p.vectors with solution := List.replicate p.width 0, objectiveValue := 0 } = _
  rw [← hlength, ← List.map_const']
  rfl

omit [Scalar α] in
theorem leaves_row {β : Type} {field : Field α (List β)} {i : Nat} {x : β}
    {f : Constraint α → Constraint α} (hlength : (field.get p.vectors).length = p.height)
    (hset : (p.modifyRow i f).vectors = field.set p.vectors ((field.get p.vectors).set i x)) :
    Leaves p [checkRow i, field.change (replaceAt · i x)]
      (checkIndex .row i p.height >>= fun _ => .ok (p.modifyRow i f)) := by
  apply leaves_check rfl
  intro hi
  apply leaves_of_execute
  rw [execute_field (replaceAt_eq (hlength ▸ checkIndex_eq_ok_iff.mp hi)), hset]
  rfl

omit [Scalar α] in
theorem leaves_column {β : Type} {field : Field α (List β)} {j : Nat} {x : β}
    {f : Decision α → Decision α} (hlength : (field.get p.vectors).length = p.width)
    (hset : (p.modifyDecision j f).vectors = field.set p.vectors ((field.get p.vectors).set j x)) :
    Leaves p [checkColumn j, field.change (replaceAt · j x)]
      (checkIndex .column j p.width >>= fun _ => .ok (p.modifyDecision j f)) := by
  apply leaves_check rfl
  intro hj
  apply leaves_of_execute
  rw [execute_field (replaceAt_eq (hlength ▸ checkIndex_eq_ok_iff.mp hj)), hset]
  rfl

theorem leaves_setRhs (i : Nat) (value : α) :
    Leaves p (Edit.setRhs i value).steps
      (checkIndex .row i p.height >>= fun _ => .ok ((Edit.setRhs i value).target p)) := by
  apply leaves_row (List.length_map _)
  rw [vectors_modifyRow]
  simp only [map_modify_of_eq, map_modify_eq_set, implies_true]
  rfl

theorem leaves_setRelation (i : Nat) (relation : Relation) :
    Leaves p (Edit.setRelation i relation).steps
      (checkIndex .row i p.height >>= fun _ => .ok ((Edit.setRelation i relation).target p)) := by
  apply leaves_row (List.length_map _)
  rw [vectors_modifyRow]
  simp only [map_modify_of_eq, map_modify_eq_set, implies_true]
  rfl

theorem leaves_setRowLabel (i : Nat) (label : String) :
    Leaves p (Edit.setRowLabel i label).steps
      (checkIndex .row i p.height >>= fun _ => .ok ((Edit.setRowLabel i label).target p)) := by
  apply leaves_row (List.length_map _)
  rw [vectors_modifyRow]
  simp only [map_modify_of_eq, map_modify_eq_set, implies_true]
  rfl

theorem leaves_setCost (j : Nat) (value : α) :
    Leaves p (Edit.setCost j value).steps
      (checkIndex .column j p.width >>= fun _ => .ok ((Edit.setCost j value).target p)) := by
  apply leaves_column (List.length_map _)
  rw [Program.modifyDecision, vectors_withDecisions p (List.length_modify ..)]
  simp only [map_modify_of_eq, map_modify_eq_set, implies_true]
  rfl

theorem leaves_setColumnLabel (j : Nat) (label : String) :
    Leaves p (Edit.setColumnLabel j label).steps
      (checkIndex .column j p.width >>= fun _ => .ok ((Edit.setColumnLabel j label).target p)) := by
  apply leaves_column (List.length_map _)
  rw [Program.modifyDecision, vectors_withDecisions p (List.length_modify ..)]
  simp only [map_modify_of_eq, map_modify_eq_set, implies_true]
  rfl

omit [Scalar α] in
theorem inRow_eq {i : Nat} {r : Constraint α} (hr : p.rows[i]? = some r)
    {f : List α → Option (List α)} {row : List α} (hf : f r.coefficients = some row) :
    inRow i f p.coefficients = some (p.coefficients.set i row) := by
  have hrow : p.coefficients[i]? = some r.coefficients := by
    rw [Program.coefficients, List.getElem?_map, hr]
    rfl
  unfold inRow
  simp only [hrow, hf, Option.bind_eq_bind, Option.bind_some]
  exact replaceAt_eq (List.getElem?_eq_some_iff.mp hrow).1

theorem leaves_setCoefficient (h : p.WellFormed) {i j : Nat} (hi : i < p.height) (hj : j < p.width)
    (value : α) :
    Leaves p [Field.coefficients.change (inRow i (replaceAt · j value))]
      (.ok ((Edit.setCoefficient i j value).target p)) := by
  have hr : p.rows[i]? = some p.rows[i] := List.getElem?_eq_getElem hi
  have hlength := h.row_length _ (List.getElem_mem hi)
  have hrow := inRow_eq (f := (replaceAt · j value)) hr (replaceAt_eq (hlength ▸ hj))
  have hset : ∀ r, p.rows[i]? = some r →
      r.coefficients.set j value = p.rows[i].coefficients.set j value := by
    intro r hfound
    rw [Option.some.inj (hr.symm.trans hfound)]
  apply leaves_of_execute
  rw [execute_field hrow, Edit.target, vectors_modifyRow, map_modify_eq_set hset]
  simp only [map_modify_of_eq, implies_true]
  rfl

theorem leaves_setRow (h : p.WellFormed) {i : Nat} (hi : i < p.height) {coefficients : List α}
    (hlength : coefficients.length = p.width) (relation : Relation) (rhs : α) :
    Leaves p
      [Field.coefficients.change (inRow i (overwrite · coefficients)),
        Field.relations.change (replaceAt · i relation), Field.rhs.change (replaceAt · i rhs)]
      (.ok ((Edit.setRow i coefficients relation rhs).target p)) := by
  have hr : p.rows[i]? = some p.rows[i] := List.getElem?_eq_getElem hi
  have hold : p.rows[i].coefficients.length = coefficients.length := by
    rw [h.row_length _ (List.getElem_mem hi), hlength]
  have hrow := inRow_eq (f := (overwrite · coefficients)) hr (overwrite_eq hold)
  have hrelations : replaceAt p.relations i relation = some (p.relations.set i relation) := by
    apply replaceAt_eq
    rwa [Program.relations, List.length_map]
  have hrhs : replaceAt p.rhs i rhs = some (p.rhs.set i rhs) := by
    apply replaceAt_eq
    rwa [Program.rhs, List.length_map]
  apply leaves_of_execute
  rw [execute_field hrow, execute_field hrelations, execute_field hrhs, Edit.target,
    vectors_modifyRow]
  simp only [map_modify_of_eq, map_modify_eq_set, implies_true]
  rfl

theorem leaves_setObjective {costs : List α} (hlength : costs.length = p.width) :
    Leaves p [Field.costs.change (overwrite · costs)]
      (.ok ((Edit.setObjective costs).target p)) := by
  have hcosts : overwrite p.costs costs = some costs := by
    apply overwrite_eq
    rw [Program.costs, List.length_map, hlength]
    rfl
  have hdecisions : (p.decisions.zipWith (fun d cost => { d with cost }) costs).length
      = p.width := by
    rw [List.length_zipWith, hlength]
    exact Nat.min_self _
  have hset : (p.decisions.zipWith (fun d cost => { d with cost }) costs).map (·.cost) = costs :=
    map_zipWith_eq_right (fun _ _ => rfl) hlength.le
  have hlabels : (p.decisions.zipWith (fun d cost => { d with cost }) costs).map (·.label)
      = p.columnLabels := map_zipWith_eq_left (fun _ _ => rfl) hlength.ge
  apply leaves_of_execute
  rw [execute_field hcosts, Edit.target, vectors_withDecisions p hdecisions, hset, hlabels]
  rfl

theorem leaves_insertRow (h : p.WellFormed) {i : Nat} (hi : i ≤ p.height) (row : Constraint α) :
    Leaves p
      [Field.coefficients.change (insertAt · i row.coefficients),
        Field.rhs.change (insertAt · i row.rhs), Field.relations.change (insertAt · i row.relation),
        Field.rowLabels.change (insertAt · i row.label),
        assign fun v => { v with rowCount := v.rowCount + 1 },
        assign clear]
      (.ok ((Edit.insertRow i row).target p)) := by
  have hheight : { p with rows := p.rows.insertIdx i row }.height = p.height + 1 :=
    List.length_insertIdx_of_le_length hi row
  have hclear := vectors_clearSolution (p := { p with rows := p.rows.insertIdx i row })
    h.solution_length
  apply leaves_of_execute
  rw [execute_field (insertAt_map (·.coefficients) hi row),
    execute_field (insertAt_map (·.rhs) hi row), execute_field (insertAt_map (·.relation) hi row),
    execute_field (insertAt_map (·.label) hi row), execute_assign, execute_assign, Edit.target,
    hclear]
  unfold Program.vectors
  rw [hheight]
  rfl

/-- A new column grows the coefficients and leaves the rest of each row. -/
theorem vectors_insertColumn {j : Nat} (hj : j ≤ p.width) {column : Column α}
    (hlength : column.coefficients.length = p.height) :
    ((Edit.insertColumn j column).target p).vectors =
      { p.vectors with
        columnCount := p.width + 1
        coefficients := p.coefficients.zipWith (fun row x => row.insertIdx j x) column.coefficients
        costs := (p.decisions.insertIdx j ⟨column.cost, column.label⟩).map (·.cost)
        columnLabels := (p.decisions.insertIdx j ⟨column.cost, column.label⟩).map (·.label)
        solution := List.replicate (p.width + 1) 0
        objectiveValue := 0 } := by
  let grow (r : Constraint α) (x : α) : Constraint α :=
    { r with coefficients := r.coefficients.insertIdx j x }
  let rows := p.rows.zipWith grow column.coefficients
  have hcoefficients : rows.map (·.coefficients)
      = p.coefficients.zipWith (fun row x => row.insertIdx j x) column.coefficients := by
    rw [List.map_zipWith, Program.coefficients, List.zipWith_map_left]
  have hrhs : rows.map (·.rhs) = p.rhs := map_zipWith_eq_left (fun _ _ => rfl) hlength.ge
  have hrelations : rows.map (·.relation) = p.relations :=
    map_zipWith_eq_left (fun _ _ => rfl) hlength.ge
  have hlabels : rows.map (·.label) = p.rowLabels :=
    map_zipWith_eq_left (fun _ _ => rfl) hlength.ge
  have hheight : rows.length = p.height := by
    rw [List.length_zipWith, hlength]
    exact Nat.min_self _
  have hwidth : (p.decisions.insertIdx j ⟨column.cost, column.label⟩).length = p.width + 1 :=
    List.length_insertIdx_of_le_length hj _
  rw [← hcoefficients, ← hwidth]
  unfold Program.vectors
  rw [← hheight, ← hrhs, ← hrelations, ← hlabels]
  rfl

theorem leaves_insertColumn (h : p.WellFormed) {j : Nat} (hj : j ≤ p.width) {column : Column α}
    (hlength : column.coefficients.length = p.height) :
    Leaves p
      [Field.coefficients.change (insertEach j · column.coefficients),
        Field.costs.change (insertAt · j column.cost),
        Field.columnLabels.change (insertAt · j column.label),
        assign fun v => { v with columnCount := v.columnCount + 1 },
        assign fun v =>
          { v with solution := List.replicate v.columnCount 0, objectiveValue := 0 }]
      (.ok ((Edit.insertColumn j column).target p)) := by
  have heach : insertEach j p.coefficients column.coefficients
      = some (p.coefficients.zipWith (fun row x => row.insertIdx j x) column.coefficients) := by
    apply insertEach_eq
    · intro row hrow
      obtain ⟨r, hr, rfl⟩ := List.mem_map.mp hrow
      rwa [h.row_length r hr]
    · rw [Program.coefficients, List.length_map, hlength]
      rfl
  let d : Decision α := ⟨column.cost, column.label⟩
  apply leaves_of_execute
  rw [execute_field heach, execute_field (insertAt_map (·.cost) hj d),
    execute_field (insertAt_map (·.label) hj d), execute_assign, execute_assign,
    vectors_insertColumn hj hlength]
  rfl

theorem execute_steps (h : p.WellFormed) (edit : Edit α) :
    execute edit.steps p.vectors = some ((p.perform (.edit edit)).map id Program.vectors) := by
  show Leaves p edit.steps (edit.apply p)
  -- The checks are the same on both sides, so the steps behind them run on a program that fits.
  rw [Program.apply_eq h]
  cases edit with
  | setDirection direction => rfl
  | setCoefficient i j value =>
      apply leaves_checks rfl rfl
      intro hi hj
      exact leaves_setCoefficient h (checkIndex_eq_ok_iff.mp hi) (checkIndex_eq_ok_iff.mp hj) value
  | setRhs i value => exact leaves_setRhs i value
  | setCost j value => exact leaves_setCost j value
  | setRelation i relation => exact leaves_setRelation i relation
  | setRow i coefficients relation rhs =>
      apply leaves_checks rfl rfl
      intro hi hlength
      exact leaves_setRow h (checkIndex_eq_ok_iff.mp hi) (checkLength_eq_ok_iff.mp hlength).symm ..
  | setObjective costs =>
      apply leaves_check rfl
      intro hlength
      exact leaves_setObjective (checkLength_eq_ok_iff.mp hlength).symm
  | setRowLabel i label => exact leaves_setRowLabel i label
  | setColumnLabel j label => exact leaves_setColumnLabel j label
  | setObjectiveLabel label => rfl
  | insertRow i row =>
      apply leaves_checks rfl rfl
      intro hi _
      exact leaves_insertRow h (Nat.lt_succ_iff.mp (checkIndex_eq_ok_iff.mp hi)) row
  | insertColumn j column =>
      apply leaves_checks rfl rfl
      intro hj hlength
      exact leaves_insertColumn h (Nat.lt_succ_iff.mp (checkIndex_eq_ok_iff.mp hj))
        (checkLength_eq_ok_iff.mp hlength).symm

end Edits

end Vectors

end LinProg
