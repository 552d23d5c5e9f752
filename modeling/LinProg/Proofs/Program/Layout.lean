import LinProg.Proofs.Program.EditSteps

/-!
# The start tableau in one store

The start tableau is laid out in a store of zeros, row after row, by offset. A cursor counts the
columns that the rows have got so far, and the cost row is long enough for all of them from the
beginning. Here each index and each copy is checked. From vectors that fit, no check fails, and the
store holds the equations of the start tableau in their order.
-/

namespace LinProg

variable {α : Type}

/-- A tableau whose rows stand in one store. -/
structure Flat (α : Type) where
  height : Nat
  width : Nat
  decisionCount : Nat
  entries : List α
  rhs : List α
  cost : List α
  basis : List Variable
  columns : List Variable
  artificialCount : Nat
  bigM : α

def Tableau.flat (t : Tableau α) : Flat α where
  height := t.height
  width := t.width
  decisionCount := t.decisionCount
  entries := t.cells
  rhs := t.rhs
  cost := t.cost
  basis := t.basis
  columns := t.columns
  artificialCount := t.artificialCount
  bigM := t.bigM

/-! ### Steps with checked indices -/

/-- Copies a list over as many places from an offset on. -/
def copyAt (store : List α) (offset count : Nat) (xs : List α) : Option (List α) :=
  if offset + count ≤ store.length ∧ xs.length = count then
    some (store.take offset ++ xs ++ store.drop (offset + count))
  else none

/-- A start tableau while its rows are laid out. -/
structure Draft (α : Type) where
  entries : List α
  cost : List α
  columns : List Variable
  basis : List Variable
  artificialCount : Nat
  /-- The first column that no row has got yet. -/
  next : Nat

variable [Scalar α]

namespace Draft

/-- Takes the multiples of a row out of the costs from a column on. -/
def charge (bigM : α) : Nat → List α → List α → Option (List α)
  | _, [], cost => some cost
  | j, x :: xs, cost => do
    let c ← cost[j]?
    let cost ← replaceAt cost j (c - x * bigM)
    charge bigM (j + 1) xs cost

def addColumn (offset : Nat) (role : Role) (entry : α) (d : Draft α) : Option (Draft α) := do
  let entries ← replaceAt d.entries (offset + d.next) entry
  return { d with entries, columns := d.columns ++ [⟨role, d.next⟩], next := d.next + 1 }

/-- The column that the cursor stands at, with the variable that starts as basic. -/
def addBasic (offset : Nat) (role : Role) (d : Draft α) : Option (Draft α) :=
  addColumn offset role 1 { d with basis := d.basis ++ [⟨role, d.next⟩] }

def addExtras (bigM : α) (offset : Nat) (relation : Relation) (d : Draft α) : Option (Draft α) :=
  match relation with
  | .lessEq => d.addBasic offset .slack
  | .equal => d.addBasic offset .artificial
  | .greaterEq => do
    let cost ← replaceAt d.cost d.next bigM
    let d ← addColumn offset .surplus (-1) { d with cost }
    d.addBasic offset .artificial

/-- A row whose basic variable costs `M` is taken out of the costs. -/
def chargeRow (bigM : α) (relation : Relation) (row cost : List α) : Option (List α) :=
  if relation.needsArtificial then charge bigM 0 row cost else some cost

def addRow (bigM : α) (width count : Nat) (coefficients : List (List α)) (i : Nat)
    (relation : Relation) (d : Draft α) : Option (Draft α) := do
  let row ← coefficients[i]?
  let entries ← copyAt d.entries (i * width) count row
  let cost ← chargeRow bigM relation row d.cost
  let count := if relation.needsArtificial then d.artificialCount + 1 else d.artificialCount
  addExtras bigM (i * width) relation { d with entries, cost, artificialCount := count }

def addRows (bigM : α) (width count : Nat) (coefficients : List (List α)) :
    Nat → List Relation → Draft α → Option (Draft α)
  | _, [], d => some d
  | i, relation :: relations, d => do
    let d ← addRow bigM width count coefficients i relation d
    addRows bigM width count coefficients (i + 1) relations d

end Draft

namespace Vectors

/-- Negates a row in place if its right side is negative. -/
def normaliseRow (v : Vectors α) (i : Nat) : Option (Vectors α) := do
  let value ← v.rhs[i]?
  if value < 0 then
    let rhs ← replaceAt v.rhs i (-value)
    let coefficients ← inRow i (fun row => some (row.map (-·))) v.coefficients
    let relation ← v.relations[i]?
    let relations ← replaceAt v.relations i relation.flipped
    return { v with rhs, coefficients, relations }
  else return v

/-- The penalty of vectors whose right sides are not negative. -/
def bigM (v : Vectors α) : α :=
  if v.relations.any (·.needsArtificial) then
    (1 + 1) * (v.coefficients.flatten ++ v.rhs ++ v.costs).foldl
      (fun largest x => if largest < Scalar.abs x then Scalar.abs x else largest) 1
  else 0

def width (v : Vectors α) : Nat := v.columnCount + (v.relations.map (·.extraColumns)).sum

/-- The store of zeros, the costs with zeros for all further columns, and no row yet. -/
def draft (v : Vectors α) (direction : Direction) : Draft α :=
  let signed := Tableau.signedCosts direction v.costs
  { entries := List.replicate (v.rowCount * v.width) 0
    cost := signed.take v.width ++ List.replicate (v.width - signed.length) 0
    columns := (List.range v.columnCount).map fun j => ⟨.decision, j⟩
    basis := []
    artificialCount := 0
    next := v.columnCount }

def augment (v : Vectors α) (direction : Direction) : Option (Flat α) := do
  let v ← (List.range v.rowCount).foldlM normaliseRow v
  let d ← Draft.addRows v.bigM v.width v.columnCount v.coefficients 0 v.relations (v.draft direction)
  return {
    height := v.rowCount, width := v.width, decisionCount := v.columnCount, entries := d.entries
    rhs := v.rhs, cost := d.cost, basis := d.basis, columns := d.columns
    artificialCount := d.artificialCount, bigM := v.bigM }

end Vectors

/-! ### No check fails -/

section Places

variable {left right xs : List α} {x : α}

omit [Scalar α]

theorem replaceAt_middle {i : Nat} (hi : left.length = i) (y : α) :
    replaceAt (left ++ x :: right) i y = some (left ++ y :: right) := by
  subst hi
  rw [replaceAt_eq (by simp), List.set_append_right _ _ le_rfl, Nat.sub_self, List.set_cons_zero]

theorem getElem?_middle {i : Nat} (hi : left.length = i) : (left ++ x :: right)[i]? = some x := by
  rw [List.getElem?_append_right hi.le, hi, Nat.sub_self]
  rfl

theorem copyAt_middle {mid : List α} {offset count : Nat} (hoffset : left.length = offset)
    (hmid : mid.length = count) (hlength : xs.length = count) :
    copyAt (left ++ (mid ++ right)) offset count xs = some (left ++ (xs ++ right)) := by
  subst hoffset hmid
  have hinside : left.length + mid.length ≤ (left ++ (mid ++ right)).length := by
    rw [List.length_append, List.length_append]
    omega
  rw [copyAt, if_pos ⟨hinside, hlength⟩, List.take_left, ← List.append_assoc left mid right,
    ← List.length_append, List.drop_left, List.append_assoc]

end Places

namespace Draft

variable {bigM : α}

theorem charge_middle {left mid right xs : List α} {j : Nat} (hj : left.length = j)
    (hlength : xs.length = mid.length) :
    charge bigM j xs (left ++ (mid ++ right))
      = some (left ++ (mid.zipWith (fun c x => c - x * bigM) xs ++ right)) := by
  induction xs generalizing left mid j with
  | nil =>
      cases mid with
      | nil => rfl
      | cons c mid => simp at hlength
  | cons x xs ih =>
      cases mid with
      | nil => simp at hlength
      | cons c mid =>
          have hget : (left ++ (c :: mid ++ right))[j]? = some c := by
            rw [List.getElem?_append_right hj.le, hj, Nat.sub_self]
            rfl
          have hset : replaceAt (left ++ (c :: mid ++ right)) j (c - x * bigM)
              = some (left ++ [c - x * bigM] ++ (mid ++ right)) := by
            rw [List.append_assoc]
            exact replaceAt_middle hj _
          have hnext : (left ++ [c - x * bigM]).length = j + 1 := by
            rw [List.length_append, List.length_singleton, hj]
          have hrest := ih hnext (Nat.succ.inj hlength)
          simp only [charge, hget, hset, hrest, Option.bind_eq_bind, Option.bind_some]
          simp

section Columns

variable {d : Draft α} {offset : Nat} {left right : List α} {x : α}

omit [Scalar α] in
theorem addColumn_middle (hentries : d.entries = left ++ x :: right)
    (hleft : left.length = offset + d.next) (role : Role) (y : α) :
    d.addColumn offset role y =
      some { d with
        entries := left ++ y :: right
        columns := d.columns ++ [⟨role, d.next⟩]
        next := d.next + 1 } := by
  rw [addColumn, hentries, replaceAt_middle hleft]
  rfl

theorem addBasic_middle (hentries : d.entries = left ++ x :: right)
    (hleft : left.length = offset + d.next) (role : Role) :
    d.addBasic offset role =
      some { d with
        entries := left ++ 1 :: right
        columns := d.columns ++ [⟨role, d.next⟩]
        basis := d.basis ++ [⟨role, d.next⟩]
        next := d.next + 1 } :=
  addColumn_middle (d := { d with basis := d.basis ++ [⟨role, d.next⟩] }) hentries hleft role 1

theorem addExtras_eq {relation : Relation} {head tail : List α}
    (hentries : d.entries = left ++ (List.replicate relation.extraColumns 0 ++ right))
    (hcost : d.cost = head ++ (List.replicate relation.extraColumns 0 ++ tail))
    (hleft : left.length = offset + d.next) (hhead : head.length = d.next) :
    d.addExtras bigM offset relation =
      some { d with
        entries := left ++ (relation.extraEntries ++ right)
        cost := head ++ (relation.extraCosts bigM ++ tail)
        columns := d.columns ++ Tableau.numbered d.next relation.extraRoles
        basis := d.basis ++ [⟨relation.basicRole, d.next + relation.extraColumns - 1⟩]
        next := d.next + relation.extraColumns } := by
  cases relation with
  | lessEq =>
      have hbasic := addBasic_middle hentries hleft .slack
      rw [hcost] at hbasic
      exact hbasic
  | equal =>
      have hbasic := addBasic_middle hentries hleft .artificial
      rw [hcost] at hbasic
      exact hbasic
  | greaterEq =>
      let priced : Draft α := { d with cost := head ++ bigM :: 0 :: tail }
      let opened : Draft α :=
        { priced with
          entries := left ++ [-1] ++ 0 :: right
          columns := d.columns ++ [⟨.surplus, d.next⟩]
          next := d.next + 1 }
      have hpriced : replaceAt d.cost d.next bigM = some (head ++ bigM :: 0 :: tail) := by
        rw [hcost]
        exact replaceAt_middle hhead bigM
      have hopened : priced.addColumn offset .surplus (-1) = some opened := by
        rw [addColumn_middle (d := priced) hentries hleft, List.append_cons]
        rfl
      have hlength : (left ++ [-1]).length = offset + opened.next := by
        rw [List.length_append, hleft]
        rfl
      show (replaceAt d.cost d.next bigM).bind (fun cost =>
        (addColumn offset .surplus (-1) { d with cost }).bind (addBasic offset .artificial)) = _
      rw [hpriced, Option.bind_some, hopened, Option.bind_some, addBasic_middle rfl hlength]
      simp [opened, priced, Relation.extraEntries, Relation.extraCosts, Relation.extraRoles,
        Relation.extraColumns, Relation.basicRole, Tableau.numbered]

end Columns

omit [Scalar α] in
theorem numbered_append (first : Nat) (roles more : List Role) :
    Tableau.numbered first (roles ++ more)
      = Tableau.numbered first roles ++ Tableau.numbered (first + roles.length) more := by
  have hshift : ∀ k, first + (k + roles.length) = first + roles.length + k := by omega
  unfold Tableau.numbered
  rw [List.mapIdx_append]
  simp only [hshift]

section Rows

variable (width count : Nat)

/-- A draft with the rows from the `i`-th on still to come: behind what is there, all places are
zero. -/
structure Awaits (i before : Nat) (left head tail : List α) (rows : List (Constraint α))
    (d : Draft α) : Prop where
  row_length : ∀ r ∈ rows, r.coefficients.length = count
  width_eq : width = count + before + Tableau.extraCount rows
  entries_eq : d.entries = left ++ List.replicate (rows.length * width) 0
  cost_eq : d.cost = head ++ (tail ++ List.replicate (Tableau.extraCount rows) 0)
  next_eq : d.next = count + before
  left_length : left.length = i * width
  head_length : head.length = count
  tail_length : tail.length = before

/-- The draft with the coefficients of one more row, and with what they cost. -/
def fill (bigM : α) (before : Nat) (left head tail : List α) (r : Constraint α)
    (rows : List (Constraint α)) (d : Draft α) : Draft α :=
  { d with
    entries := left ++ (r.coefficients ++ (List.replicate before 0
      ++ (List.replicate r.relation.extraColumns 0
        ++ (List.replicate (Tableau.extraCount rows) 0 ++ List.replicate (rows.length * width) 0))))
    cost := Tableau.reduceCost bigM head r ++ (tail ++ (List.replicate r.relation.extraColumns 0
      ++ List.replicate (Tableau.extraCount rows) 0))
    artificialCount :=
      if r.relation.needsArtificial then d.artificialCount + 1 else d.artificialCount }

def extend (bigM : α) (before : Nat) (left head tail : List α) (r : Constraint α)
    (rows : List (Constraint α)) (d : Draft α) : Draft α where
  entries := left ++ (Tableau.startEquation before (Tableau.extraCount rows) r).entries
    ++ List.replicate (rows.length * width) 0
  cost := Tableau.reduceCost bigM head r
    ++ (tail ++ r.relation.extraCosts bigM ++ List.replicate (Tableau.extraCount rows) 0)
  columns := d.columns ++ Tableau.numbered d.next r.relation.extraRoles
  basis := d.basis ++ [(Tableau.startEquation before (Tableau.extraCount rows) r).basic]
  artificialCount :=
    if r.relation.needsArtificial then d.artificialCount + 1 else d.artificialCount
  next := d.next + r.relation.extraColumns

variable {width count} {i before : Nat} {left head tail : List α} {r : Constraint α}
  {rows : List (Constraint α)} {d : Draft α} {coefficients : List (List α)}

theorem Awaits.extend (h : Awaits width count i before left head tail (r :: rows) d) :
    Awaits width count (i + 1) (before + r.relation.extraColumns)
      (left ++ (Tableau.startEquation before (Tableau.extraCount rows) r).entries)
      (Tableau.reduceCost bigM head r) (tail ++ r.relation.extraCosts bigM) rows
      (d.extend width bigM before left head tail r rows) := by
  have hlength := h.row_length r List.mem_cons_self
  have hwidth := h.width_eq
  rw [Tableau.extraCount] at hwidth
  refine
    { row_length := fun s hs => h.row_length s (List.mem_cons_of_mem r hs)
      width_eq := by rw [hwidth]; omega
      entries_eq := rfl
      cost_eq := rfl
      next_eq := by rw [Draft.extend, h.next_eq, Nat.add_assoc]
      left_length := ?_
      head_length := ?_
      tail_length := by rw [List.length_append, h.tail_length, Relation.length_extraCosts] }
  · simp only [Tableau.startEquation, List.length_append, List.length_replicate, h.left_length,
      Relation.length_extraEntries, hlength]
    rw [Nat.succ_mul]
    omega
  · rw [Tableau.length_reduceCost bigM (hlength.trans h.head_length.symm), h.head_length]

theorem Awaits.copy_eq (h : Awaits width count i before left head tail (r :: rows) d) :
    copyAt d.entries (i * width) count r.coefficients
      = some (d.fill width bigM before left head tail r rows).entries := by
  have hwidth := h.width_eq
  rw [Tableau.extraCount] at hwidth
  have hcount : (r :: rows).length * width = count + (before + (r.relation.extraColumns
      + (Tableau.extraCount rows + rows.length * width))) := by
    rw [List.length_cons, Nat.succ_mul]
    omega
  rw [h.entries_eq, hcount]
  simp only [← List.replicate_append_replicate]
  exact copyAt_middle h.left_length List.length_replicate (h.row_length r List.mem_cons_self)

theorem Awaits.charge_eq (h : Awaits width count i before left head tail (r :: rows) d) :
    chargeRow bigM r.relation r.coefficients d.cost
      = some (d.fill width bigM before left head tail r rows).cost := by
  have hlength := (h.row_length r List.mem_cons_self).trans h.head_length.symm
  rw [h.cost_eq, Tableau.extraCount, ← List.replicate_append_replicate]
  unfold chargeRow fill Tableau.reduceCost
  dsimp only
  split
  · exact charge_middle List.length_nil hlength
  · rfl

/-- The cursor stands behind the columns of the rows above, in the row and in the costs. -/
theorem Awaits.extras_eq (h : Awaits width count i before left head tail (r :: rows) d) :
    (d.fill width bigM before left head tail r rows).addExtras bigM (i * width) r.relation
      = some (d.extend width bigM before left head tail r rows) := by
  have hlength := h.row_length r List.mem_cons_self
  have hreduced := Tableau.length_reduceCost bigM (hlength.trans h.head_length.symm)
  have hentries : (d.fill width bigM before left head tail r rows).entries
      = (left ++ (r.coefficients ++ List.replicate before 0))
        ++ (List.replicate r.relation.extraColumns 0
          ++ (List.replicate (Tableau.extraCount rows) 0
            ++ List.replicate (rows.length * width) 0)) := by
    simp only [fill, List.append_assoc]
  have hcost : (d.fill width bigM before left head tail r rows).cost
      = (Tableau.reduceCost bigM head r ++ tail) ++ (List.replicate r.relation.extraColumns 0
        ++ List.replicate (Tableau.extraCount rows) 0) := by
    simp only [fill, List.append_assoc]
  have hplace : (left ++ (r.coefficients ++ List.replicate before 0)).length
      = i * width + d.next := by
    rw [List.length_append, List.length_append, h.left_length, hlength, List.length_replicate,
      h.next_eq]
  have hcursor : (Tableau.reduceCost bigM head r ++ tail).length = d.next := by
    rw [List.length_append, hreduced, h.head_length, h.tail_length, h.next_eq]
  rw [addExtras_eq hentries hcost hplace hcursor]
  simp [fill, Draft.extend, Tableau.startEquation, h.next_eq, hlength]

/-- A row takes its places among the zeros, and zeros are left for the rows below. -/
theorem Awaits.addRow_eq (h : Awaits width count i before left head tail (r :: rows) d)
    (hrow : coefficients[i]? = some r.coefficients) :
    d.addRow bigM width count coefficients i r.relation
      = some (d.extend width bigM before left head tail r rows) := by
  have hcopy : copyAt d.entries (i * width) count r.coefficients
      = some (d.fill width bigM before left head tail r rows).entries := h.copy_eq
  rw [addRow, hrow, Option.bind_eq_bind, Option.bind_some, hcopy, Option.bind_some, h.charge_eq,
    Option.bind_some]
  exact h.extras_eq

theorem Awaits.addRows_eq (h : Awaits width count i before left head tail rows d)
    (hrows : ∀ (k : Nat) r, rows[k]? = some r → coefficients[i + k]? = some r.coefficients) :
    d.addRows bigM width count coefficients i (rows.map (·.relation)) =
      some
        { entries := left ++ ((Tableau.startEquations before rows).map (·.entries)).flatten
          cost := rows.foldl (Tableau.reduceCost bigM) head
            ++ (tail ++ (rows.map (·.relation.extraCosts bigM)).flatten)
          columns := d.columns
            ++ Tableau.numbered d.next (rows.map (·.relation.extraRoles)).flatten
          basis := d.basis ++ (Tableau.startEquations before rows).map (·.basic)
          artificialCount := d.artificialCount + rows.countP (·.relation.needsArtificial)
          next := d.next + Tableau.extraCount rows } := by
  -- `left`, `head` and `tail` grow by what each row adds, and `extend` is the invariant.
  induction rows generalizing d left head tail before i with
  | nil =>
      have hentries : d.entries = left := by simpa using h.entries_eq
      have hcost : d.cost = head ++ tail := by simpa [Tableau.extraCount] using h.cost_eq
      simp [addRows, ← hentries, ← hcost, Tableau.startEquations, Tableau.extraCount,
        Tableau.numbered]
  | cons r rows ih =>
      have hrest : ∀ (k : Nat) s, rows[k]? = some s →
          coefficients[i + 1 + k]? = some s.coefficients := by
        intro k s hs
        rw [Nat.add_assoc, Nat.add_comm 1 k]
        exact hrows (k + 1) s hs
      have hrow : d.addRow bigM width count coefficients i r.relation
          = some (d.extend width bigM before left head tail r rows) := h.addRow_eq (hrows 0 r rfl)
      rw [List.map_cons, addRows, hrow, Option.bind_eq_bind, Option.bind_some, ih h.extend hrest]
      have hcount : (if r.relation.needsArtificial then d.artificialCount + 1
            else d.artificialCount) + rows.countP (·.relation.needsArtificial)
          = d.artificialCount + (r :: rows).countP (·.relation.needsArtificial) := by
        rw [List.countP_cons]
        split <;> omega
      simp [Draft.extend, Tableau.startEquations, numbered_append, Tableau.extraCount, hcount,
        Nat.add_assoc]

end Rows

end Draft

namespace Vectors

section Normalising

variable {p : Program α}

theorem normaliseRow_middle (done todo : List (Constraint α)) (r : Constraint α) :
    { p with rows := done ++ r :: todo }.vectors.normaliseRow done.length
      = some { p with rows := done ++ r.normalised :: todo }.vectors := by
  have hlength {β : Type} (f : Constraint α → β) : (done.map f).length = done.length :=
    List.length_map _
  have hget {β : Type} (f : Constraint α → β) :
      ((done ++ r :: todo).map f)[done.length]? = some (f r) := by
    rw [List.map_append, List.map_cons]
    exact getElem?_middle (hlength f)
  have hset {β : Type} (f : Constraint α → β) (y : β) :
      replaceAt ((done ++ r :: todo).map f) done.length y
        = some (done.map f ++ y :: todo.map f) := by
    rw [List.map_append, List.map_cons]
    exact replaceAt_middle (hlength f) y
  have hrow : inRow done.length (fun row => some (row.map (-·)))
        ((done ++ r :: todo).map (·.coefficients))
      = some (done.map (·.coefficients)
        ++ r.coefficients.map (-·) :: todo.map (·.coefficients)) := by
    unfold inRow
    simp only [hget, Option.bind_eq_bind, Option.bind_some]
    exact hset _ _
  unfold normaliseRow
  simp only [Program.vectors, Program.rhs, Program.coefficients, Program.relations, hget, hset, hrow,
    Option.bind_eq_bind, Option.bind_some]
  by_cases hnegative : r.rhs < 0
  · have hnormalised : r.normalised = { r with
        coefficients := r.coefficients.map (-·), relation := r.relation.flipped
        rhs := -r.rhs } := if_pos hnegative
    rw [if_pos hnegative, hnormalised]
    simp only [Program.height, Program.rowLabels, List.map_append, List.map_cons,
      List.length_append, List.length_cons]
    rfl
  · have hnormalised : r.normalised = r := if_neg hnegative
    rw [if_neg hnegative, hnormalised]
    rfl

theorem foldlM_normaliseRow (done todo : List (Constraint α)) :
    (List.range' done.length todo.length).foldlM normaliseRow { p with rows := done ++ todo }.vectors
      = some { p with rows := done ++ todo.map Constraint.normalised }.vectors := by
  induction todo generalizing done with
  | nil => rfl
  | cons r todo ih =>
      have hrest := ih (done ++ [r.normalised])
      rw [List.length_append, List.append_assoc, List.append_assoc] at hrest
      rw [List.length_cons, List.range'_succ, List.foldlM_cons, normaliseRow_middle,
        Option.bind_eq_bind, Option.bind_some]
      exact hrest

end Normalising

section Start

variable {p : Program α}

omit [Scalar α] in
theorem width_vectors (p : Program α) : p.vectors.width = p.width + Tableau.extraCount p.rows := by
  unfold width
  congr 1
  show ((p.rows.map (·.relation)).map _).sum = _
  induction p.rows with
  | nil => rfl
  | cons r rows ih => rw [List.map_cons, List.map_cons, List.sum_cons, ih, Tableau.extraCount]

theorem bigM_vectors (p : Program α) : p.vectors.bigM = Tableau.bigMOf p.rows p.costs := by
  unfold bigM Tableau.bigMOf
  show (if (p.rows.map (·.relation)).any _ then _ else _) = _
  rw [List.any_map]
  rfl

theorem awaits_draft (hrows : ∀ r ∈ p.rows, r.coefficients.length = p.width)
    (direction : Direction) :
    Draft.Awaits p.vectors.width p.width 0 0 [] (Tableau.signedCosts direction p.costs) [] p.rows
      (p.vectors.draft direction) := by
  have hwidth := width_vectors p
  have hlength := Tableau.length_signedCosts_costs p direction
  have hcost : (p.vectors.draft direction).cost = Tableau.signedCosts direction p.costs
      ++ List.replicate (Tableau.extraCount p.rows) 0 := by
    show (Tableau.signedCosts direction p.costs).take _
      ++ List.replicate (_ - (Tableau.signedCosts direction p.costs).length) 0 = _
    rw [hlength, List.take_of_length_le (by omega), hwidth, Nat.add_sub_cancel_left]
  exact
    { row_length := hrows
      width_eq := hwidth
      entries_eq := rfl
      cost_eq := hcost
      next_eq := rfl
      left_length := (Nat.zero_mul _).symm
      head_length := hlength
      tail_length := rfl }

theorem numbered_replicate_decision (count : Nat) :
    Tableau.numbered 0 (List.replicate count .decision)
      = (List.range count).map fun j => ⟨.decision, j⟩ := by
  unfold Tableau.numbered
  apply List.ext_getElem?
  intro j
  by_cases hj : j < count
  · simp [hj]
  · simp [hj]

theorem rhs_startEquations (before : Nat) (rows : List (Constraint α)) :
    (Tableau.startEquations before rows).map (·.rhs) = rows.map (·.rhs) := by
  induction rows generalizing before with
  | nil => rfl
  | cons r rows ih =>
      rw [Tableau.startEquations, List.map_cons, ih, List.map_cons]
      rfl

/-- No check fails, and the layout is that of the start tableau. -/
theorem augment_vectors (h : p.WellFormed) (direction : Direction) :
    p.vectors.augment direction = some (Tableau.augment p direction).flat := by
  let q : Program α := { p with rows := p.rows.map Constraint.normalised }
  have hloop : (List.range p.vectors.rowCount).foldlM normaliseRow p.vectors = some q.vectors := by
    rw [List.range_eq_range']
    exact foldlM_normaliseRow (p := p) [] p.rows
  have hdraft := awaits_draft (p := q) (Tableau.Program.row_length_normalised h) direction
  have hrows : ∀ (k : Nat) r, q.rows[k]? = some r →
      q.vectors.coefficients[0 + k]? = some r.coefficients := by
    intro k r hr
    rw [Nat.zero_add]
    show (q.rows.map _)[k]? = _
    rw [List.getElem?_map, hr]
    rfl
  unfold augment
  rw [hloop, Option.bind_eq_bind, Option.bind_some]
  show (Draft.addRows _ _ q.width _ 0 (q.rows.map (·.relation)) _).bind _ = _
  rw [hdraft.addRows_eq hrows, Option.bind_some, bigM_vectors]
  have hheight : q.vectors.rowCount = (Tableau.augment p direction).height :=
    (List.length_map _).trans (Tableau.height_augment p direction).symm
  have hwidth : q.vectors.width = (Tableau.augment p direction).width := by
    rw [width_vectors, Tableau.width_augment]
    rfl
  have hrhs : q.vectors.rhs = (Tableau.augment p direction).rhs := (rhs_startEquations 0 _).symm
  have hcolumns : (q.vectors.draft direction).columns
      ++ Tableau.numbered q.width (q.rows.map (·.relation.extraRoles)).flatten
      = (Tableau.augment p direction).columns := by
    show _ = Tableau.numbered 0 (List.replicate p.width .decision ++ _)
    rw [Draft.numbered_append, numbered_replicate_decision, List.length_replicate, Nat.zero_add]
    rfl
  have hcount : (q.vectors.draft direction).artificialCount
      + q.rows.countP (·.relation.needsArtificial) = (Tableau.augment p direction).artificialCount :=
    Nat.zero_add _
  simp only [Tableau.flat, Option.pure_def, Option.some.injEq, Flat.mk.injEq]
  exact ⟨hheight, hwidth, rfl, rfl, hrhs, rfl, rfl, hcolumns, hcount, rfl⟩

end Start

end Vectors

end LinProg
