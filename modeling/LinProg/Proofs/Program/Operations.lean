import LinProg.Program.Edit
import LinProg.Proofs.Engine.Bookkeeping
import LinProg.Proofs.Engine.Outcome
import LinProg.Proofs.Format.RoundTrip

/-!
# Programs that can be reached

A program is made in one of three ways and then goes through edits and through the hands of engines.
Edits that are refused change nothing. Each operation keeps a program well formed, and each engine
on it holds a tableau that fits it, whatever the numbers are.
-/

namespace LinProg

inductive Edit (α : Type) where
  | setDirection (direction : Direction)
  | setCoefficient (i j : Nat) (value : α)
  | setRhs (i : Nat) (value : α)
  | setCost (j : Nat) (value : α)
  | setRelation (i : Nat) (relation : Relation)
  | setRow (i : Nat) (coefficients : List α) (relation : Relation) (rhs : α)
  | setObjective (costs : List α)
  | setRowLabel (i : Nat) (label : String)
  | setColumnLabel (j : Nat) (label : String)
  | setObjectiveLabel (label : String)
  | insertRow (i : Nat) (row : Constraint α)
  | insertColumn (j : Nat) (column : Column α)

/-- A call to an engine. Where there is no limit on pivots, `fuel` is how long it is waited for. -/
inductive Engine.Call where
  | setup (direction : Direction)
  | solve (fuel : Nat)
  | optimize (fuel : Nat) (direction : Direction)

/-- What an owner can do with a program: change it, or hand it to an engine for some calls. -/
inductive Operation (α : Type) where
  | edit (edit : Edit α)
  | engine (settings : Settings α) (calls : List Engine.Call)

variable {α : Type} [Scalar α]

def Edit.apply (p : Program α) : Edit α → Except Error (Program α)
  | setDirection direction => .ok (p.setDirection direction).2
  | setCoefficient i j value => (p.setCoefficient i j value).map (·.2)
  | setRhs i value => (p.setRhs i value).map (·.2)
  | setCost j value => (p.setCost j value).map (·.2)
  | setRelation i relation => (p.setRelation i relation).map (·.2)
  | setRow i coefficients relation rhs => p.setRow i coefficients relation rhs
  | setObjective costs => p.setObjective costs
  | setRowLabel i label => (p.setRowLabel i label).map (·.2)
  | setColumnLabel j label => (p.setColumnLabel j label).map (·.2)
  | setObjectiveLabel label => .ok (p.setObjectiveLabel label).2
  | insertRow i row => p.insertRow i row
  | insertColumn j column => p.insertColumn j column

def Engine.call (e : Engine α) : Call → Engine α
  | .setup direction => e.setup direction
  | .solve fuel => (e.solve fuel).2
  | .optimize fuel direction => (e.optimize fuel direction).2

/-- A new engine on a program after some calls. -/
def Engine.after (p : Program α) (settings : Settings α) (calls : List Call) : Engine α :=
  calls.foldl call (ofProgram p settings)

namespace Program

/-- What is left of a program after a change that may be refused. -/
def outcome (p : Program α) : Except Error (Program α) → Except Error Unit × Program α
  | .ok q => (.ok (), q)
  | .error error => (.error error, p)

def perform (p : Program α) : Operation α → Except Error Unit × Program α
  | .edit edit => p.outcome (edit.apply p)
  | .engine settings calls => (.ok (), (Engine.after p settings calls).program)

/-- The ways in which programs are made. -/
inductive Made : Program α → Prop
  | blank {p : Program α} {rows columns : Nat} (h : blank rows columns = .ok p) : Made p
  | ofParts {p : Program α} {a : List (List α)} {b : List α} {relations : List Relation}
      {c : List α} (h : ofParts a b relations c = .ok p) : Made p
  | ofText {p : Program α} {text : String} (h : ofText text = .ok p) : Made p

inductive Reachable : Program α → Prop
  | made {p : Program α} (h : p.Made) : Reachable p
  | perform {p : Program α} (h : Reachable p) (operation : Operation α) :
      Reachable (p.perform operation).2

end Program

/-! ### Checks that succeed -/

theorem checkIndex_eq_ok_iff {axis : Axis} {index length : Nat} {u : Unit} :
    checkIndex axis index length = .ok u ↔ index < length := by
  unfold checkIndex
  split
  · next h => simp [h]
  · next h => simp [h]

theorem checkLength_eq_ok_iff {part : Part} {expected found : Nat} {u : Unit} :
    checkLength part expected found = .ok u ↔ expected = found := by
  unfold checkLength
  split
  · next h => simp [h]
  · next h => simp [h]

namespace Program

theorem checkDimensions_eq_ok_iff {rows columns : Nat} {u : Unit} :
    checkDimensions rows columns = .ok u ↔ 0 < rows ∧ 0 < columns := by
  unfold checkDimensions
  split
  · next h =>
      have hnot : ¬ (0 < rows ∧ 0 < columns) := by omega
      simp [hnot]
  · next h =>
      have hpos : 0 < rows ∧ 0 < columns := by omega
      simp [hpos]

/-! ### Programs as they are made -/

/-- The results do not matter where they are cleared. -/
theorem wellFormed_clearSolution {p : Program α} (hheight : 0 < p.height) (hwidth : 0 < p.width)
    (hrows : ∀ r ∈ p.rows, r.coefficients.length = p.width) : p.clearSolution.WellFormed where
  height_pos := hheight
  width_pos := hwidth
  row_length := hrows
  solution_length := List.length_replicate

theorem Made.wellFormed {p : Program α} (h : p.Made) : p.WellFormed := by
  cases h with
  | @blank rows columns h =>
      unfold Program.blank at h
      obtain ⟨_, hdimensions, hp⟩ := bind_eq_ok_iff.mp h
      obtain ⟨hrows, hcolumns⟩ := checkDimensions_eq_ok_iff.mp hdimensions
      obtain rfl := Except.ok.inj hp
      apply wellFormed_clearSolution
      · rwa [height, List.length_replicate]
      · rwa [width, List.length_replicate]
      · intro r hr
        rw [List.eq_of_mem_replicate hr, width, List.length_replicate, List.length_replicate]
  | @ofParts a b relations c h =>
      unfold Program.ofParts at h
      simp only [bind_eq_ok_iff, forM_eq_ok_iff, checkLength_eq_ok_iff,
        checkDimensions_eq_ok_iff] at h
      obtain ⟨_, ⟨hrows, hcolumns⟩, _, hb, _, hrelations, _, ha, hp⟩ := h
      obtain rfl := Except.ok.inj hp
      apply wellFormed_clearSolution
      · rwa [height, List.length_map, List.length_zip, List.length_zip, ← hb, ← hrelations,
          Nat.min_self, Nat.min_self]
      · rwa [width, List.length_map]
      · intro r hr
        obtain ⟨⟨row, relation, rhs⟩, hmem, rfl⟩ := List.mem_map.mp hr
        rw [width, List.length_map]
        exact (ha row (List.of_mem_zip hmem).1).symm
  | ofText h =>
      obtain ⟨d, _, -, ⟨rows, columns, hagrees⟩, rfl⟩ := Program.ofText_eq_ok_iff.mp h
      exact hagrees.wellFormed_toProgram

end Program

/-! ### What an edit checks and what it changes -/

namespace Edit

/-- What an edit asks for, a row before a column and an index before a length. -/
def check (p : Program α) : Edit α → Except Error Unit
  | setDirection _ => .ok ()
  | setCoefficient i j _ => do
    checkIndex .row i p.height
    checkIndex .column j p.width
  | setRhs i _ => checkIndex .row i p.height
  | setCost j _ => checkIndex .column j p.width
  | setRelation i _ => checkIndex .row i p.height
  | setRow i coefficients _ _ => do
    checkIndex .row i p.height
    checkLength .constraintRow p.width coefficients.length
  | setObjective costs => checkLength .objective p.width costs.length
  | setRowLabel i _ => checkIndex .row i p.height
  | setColumnLabel j _ => checkIndex .column j p.width
  | setObjectiveLabel _ => .ok ()
  | insertRow i row => do
    checkIndex .row i (p.height + 1)
    checkLength .constraintRow p.width row.coefficients.length
  | insertColumn j column => do
    checkIndex .column j (p.width + 1)
    checkLength .column p.height column.coefficients.length

/-- The program after an edit that is not refused. -/
def target (p : Program α) : Edit α → Program α
  | setDirection direction => { p with direction }
  | setCoefficient i j value =>
    p.modifyRow i fun r => { r with coefficients := r.coefficients.set j value }
  | setRhs i value => p.modifyRow i fun r => { r with rhs := value }
  | setCost j value => p.modifyDecision j fun d => { d with cost := value }
  | setRelation i relation => p.modifyRow i fun r => { r with relation }
  | setRow i coefficients relation rhs =>
    p.modifyRow i fun r => { r with coefficients, relation, rhs }
  | setObjective costs =>
    { p with decisions := p.decisions.zipWith (fun d cost => { d with cost }) costs }
  | setRowLabel i label => p.modifyRow i fun r => { r with label := some label }
  | setColumnLabel j label => p.modifyDecision j fun d => { d with label := some label }
  | setObjectiveLabel label => { p with objectiveLabel := some label }
  | insertRow i row => { p with rows := p.rows.insertIdx i row }.clearSolution
  | insertColumn j column =>
    { p with
      rows := p.rows.zipWith
        (fun (r : Constraint α) value =>
          { r with coefficients := r.coefficients.insertIdx j value })
        column.coefficients
      decisions := p.decisions.insertIdx j ⟨column.cost, column.label⟩ }.clearSolution

end Edit

namespace Program

section Lookups

variable {β : Type} (p : Program α)

omit [Scalar α]

theorem row_bind (i : Nat) (rest : Except Error β) :
    (p.row i >>= fun _ => rest) = checkIndex .row i p.height >>= fun _ => rest := by
  unfold row checkIndex height
  by_cases hi : i < p.rows.length
  · rw [List.getElem?_eq_getElem hi, if_pos hi]
    rfl
  · rw [List.getElem?_eq_none (Nat.not_lt.mp hi), if_neg hi]
    rfl

/-- A change of a row does not depend on the old value that it returns. -/
theorem map_row_bind (i : Nat) (old : Constraint α → β) (q : Program α) :
    (p.row i >>= fun r => .ok (old r, q)).map (·.2)
      = checkIndex .row i p.height >>= fun _ => .ok q := by
  rw [← row_bind]
  cases p.row i <;> rfl

theorem map_decision_bind (j : Nat) (old : Decision α → β) (q : Program α) :
    (p.decision j >>= fun d => .ok (old d, q)).map (·.2)
      = checkIndex .column j p.width >>= fun _ => .ok q := by
  unfold decision checkIndex width
  by_cases hj : j < p.decisions.length
  · rw [List.getElem?_eq_getElem hj, if_pos hj]
    rfl
  · rw [List.getElem?_eq_none (Nat.not_lt.mp hj), if_neg hj]
    rfl

theorem map_coefficient_bind {p : Program α} (h : p.WellFormed) (i j : Nat) (q : Program α) :
    (p.coefficient i j >>= fun old => .ok (old, q)).map (·.2)
      = (do checkIndex .row i p.height; checkIndex .column j p.width) >>= fun _ => .ok q := by
  unfold coefficient row checkIndex
  cases hrow : p.rows[i]? with
  | none =>
      have hi : ¬ i < p.height := Nat.not_lt.mpr (List.getElem?_eq_none_iff.mp hrow)
      rw [if_neg hi]
      rfl
  | some r =>
      have hi : i < p.height := (List.getElem?_eq_some_iff.mp hrow).1
      have hlength := h.row_length r (List.mem_of_getElem? hrow)
      rw [if_pos hi]
      simp only [bind, Except.bind]
      by_cases hj : j < p.width
      · rw [if_pos hj, List.getElem?_eq_getElem (hlength ▸ hj)]
        rfl
      · rw [if_neg hj, List.getElem?_eq_none (hlength ▸ Nat.not_lt.mp hj)]
        rfl

end Lookups

variable {p q : Program α}

/-- An edit checks first and then changes. -/
theorem apply_eq (h : p.WellFormed) (edit : Edit α) :
    edit.apply p = edit.check p >>= fun _ => .ok (edit.target p) := by
  cases edit with
  | setDirection direction => rfl
  | setCoefficient i j value => exact map_coefficient_bind h i j _
  | setRhs i value => exact map_row_bind p i (·.rhs) _
  | setCost j value => exact map_decision_bind p j (·.cost) _
  | setRelation i relation => exact map_row_bind p i (·.relation) _
  | setRow i coefficients relation rhs =>
      show (p.row i >>= fun _ => _) = (checkIndex .row i p.height >>= fun _ => _) >>= fun _ => _
      rw [row_bind, bind_assoc]
      rfl
  | setObjective costs => rfl
  | setRowLabel i label => exact map_row_bind p i (·.label) _
  | setColumnLabel j label => exact map_decision_bind p j (·.label) _
  | setObjectiveLabel label => rfl
  | insertRow i row =>
      show _ = (checkIndex .row i (p.height + 1) >>= fun _ => _) >>= fun _ => _
      rw [bind_assoc]
      rfl
  | insertColumn j column =>
      show _ = (checkIndex .column j (p.width + 1) >>= fun _ => _) >>= fun _ => _
      rw [bind_assoc]
      rfl

theorem apply_eq_ok_iff (h : p.WellFormed) {edit : Edit α} :
    edit.apply p = .ok q ↔ edit.check p = .ok () ∧ q = edit.target p := by
  rw [apply_eq h, bind_eq_ok_iff]
  constructor
  · rintro ⟨⟨⟩, hcheck, hq⟩
    exact ⟨hcheck, (Except.ok.inj hq).symm⟩
  · rintro ⟨hcheck, rfl⟩
    exact ⟨(), hcheck, rfl⟩

omit [Scalar α] in
theorem wellFormed_modifyRow (h : p.WellFormed) (i : Nat) {f : Constraint α → Constraint α}
    (hf : ∀ r ∈ p.rows, (f r).coefficients.length = p.width) : (p.modifyRow i f).WellFormed where
  height_pos := by
    rw [height_modifyRow]
    exact h.height_pos
  width_pos := h.width_pos
  row_length := by
    intro r hr
    obtain ⟨k, hk, rfl⟩ := List.mem_iff_getElem.mp hr
    have hlt : k < p.rows.length := by rwa [Program.modifyRow, List.length_modify] at hk
    have hold := List.getElem_mem hlt
    simp only [Program.modifyRow, List.getElem_modify]
    split
    · exact hf _ hold
    · exact h.row_length _ hold
  solution_length := h.solution_length

theorem wellFormed_insertRow (h : p.WellFormed) {i : Nat} {row : Constraint α}
    (hi : i ≤ p.height) (hlength : row.coefficients.length = p.width) :
    ((Edit.insertRow i row).target p).WellFormed := by
  apply wellFormed_clearSolution
  · rw [height, List.length_insertIdx_of_le_length hi]
    exact Nat.succ_pos _
  · exact h.width_pos
  · intro r hr
    rcases (List.mem_insertIdx hi).mp hr with rfl | hr
    · exact hlength
    · exact h.row_length r hr

theorem wellFormed_insertColumn (h : p.WellFormed) {j : Nat} {column : Column α}
    (hj : j ≤ p.width) (hlength : column.coefficients.length = p.height) :
    ((Edit.insertColumn j column).target p).WellFormed := by
  have hwidth : ∀ d : Decision α, (p.decisions.insertIdx j d).length = p.width + 1 :=
    fun d => List.length_insertIdx_of_le_length hj d
  apply wellFormed_clearSolution
  · rw [height, List.length_zipWith, hlength]
    exact lt_min h.height_pos h.height_pos
  · rw [width, hwidth]
    exact Nat.succ_pos _
  · intro r hr
    obtain ⟨i, hi, rfl⟩ := List.mem_iff_getElem.mp hr
    rw [List.length_zipWith] at hi
    have hrow := h.row_length _ (List.getElem_mem (lt_min_iff.mp hi).1)
    rw [width, hwidth, List.getElem_zipWith]
    dsimp only
    rw [List.length_insertIdx_of_le_length (by rwa [hrow]), hrow]

theorem wellFormed_target (h : p.WellFormed) {edit : Edit α} (hcheck : edit.check p = .ok ()) :
    (edit.target p).WellFormed := by
  cases edit with
  | setDirection direction =>
      exact ⟨h.height_pos, h.width_pos, h.row_length, h.solution_length⟩
  | setCoefficient i j value =>
      apply wellFormed_modifyRow h
      intro r hr
      rw [List.length_set]
      exact h.row_length r hr
  | setRhs i value => exact wellFormed_modifyRow h i h.row_length
  | setCost j value => exact h.withDecisions (List.length_modify ..)
  | setRelation i relation => exact wellFormed_modifyRow h i h.row_length
  | setRow i coefficients relation rhs =>
      obtain ⟨_, -, hlength⟩ := bind_eq_ok_iff.mp hcheck
      apply wellFormed_modifyRow h
      intro r _
      exact (checkLength_eq_ok_iff.mp hlength).symm
  | setObjective costs =>
      apply h.withDecisions
      rw [List.length_zipWith, ← checkLength_eq_ok_iff.mp hcheck]
      exact Nat.min_self _
  | setRowLabel i label => exact wellFormed_modifyRow h i h.row_length
  | setColumnLabel j label => exact h.withDecisions (List.length_modify ..)
  | setObjectiveLabel label =>
      exact ⟨h.height_pos, h.width_pos, h.row_length, h.solution_length⟩
  | insertRow i row =>
      obtain ⟨_, hindex, hlength⟩ := bind_eq_ok_iff.mp hcheck
      apply wellFormed_insertRow h
      · exact Nat.lt_succ_iff.mp (checkIndex_eq_ok_iff.mp hindex)
      · exact (checkLength_eq_ok_iff.mp hlength).symm
  | insertColumn j column =>
      obtain ⟨_, hindex, hlength⟩ := bind_eq_ok_iff.mp hcheck
      apply wellFormed_insertColumn h
      · exact Nat.lt_succ_iff.mp (checkIndex_eq_ok_iff.mp hindex)
      · exact (checkLength_eq_ok_iff.mp hlength).symm

end Program

/-! ### Engines -/

namespace Engine

/-- The program is well formed, and the tableau is one of a program of its size. -/
structure Fits (e : Engine α) : Prop where
  wellFormed : e.program.WellFormed
  shaped : e.currentTableau.Shaped
  decisionCount_eq : e.currentTableau.decisionCount = e.program.width

variable {e : Engine α}

theorem fits_ofProgram {p : Program α} (h : p.WellFormed) (settings : Settings α) :
    (ofProgram p settings).Fits :=
  ⟨h, Tableau.shaped_augment h _, rfl⟩

theorem fits_setup (h : e.program.WellFormed) (direction : Direction) :
    (e.setup direction).Fits :=
  ⟨h.clearSolution, Tableau.shaped_augment h.clearSolution direction, rfl⟩

theorem Fits.setup (h : e.Fits) (direction : Direction) : (e.setup direction).Fits :=
  fits_setup h.wellFormed direction

theorem Fits.solve (h : e.Fits) (fuel : Nat) : (e.solve fuel).2.Fits := by
  have hfree := h.shaped.height_lt_width
  have hprogram := solve_program fuel e
  have htableau : (e.solve fuel).2.currentTableau = (e.loop fuel).final := by
    unfold currentTableau
    rw [solve_tableau hfree]
    rfl
  obtain ⟨hshaped, hframe⟩ :=
    Tableau.shaped_of_inRangePivots h.shaped (h.shaped.inRangePivots_run _ _)
  refine ⟨?_, ?_, ?_⟩
  · rw [hprogram]
    exact h.wellFormed
  · rw [htableau]
    exact hshaped
  · rw [htableau, hprogram, ← h.decisionCount_eq]
    exact hframe.decisionCount_eq

theorem Fits.optimize (h : e.Fits) (fuel : Nat) (direction : Direction) :
    (e.optimize fuel direction).2.Fits := by
  have hwf := h.wellFormed
  have htableau : (e.optimize fuel direction).2.currentTableau
      = (e.freshRun fuel direction).final := by
    unfold currentTableau
    rw [optimize_tableau hwf]
    rfl
  obtain ⟨hshaped, hframe⟩ := Tableau.shaped_of_inRangePivots (Tableau.shaped_augment hwf direction)
    ((Tableau.shaped_augment hwf direction).inRangePivots_run e.settings.tolerance
      (e.settings.maxIterations.getD fuel))
  have hprogram : (e.optimize fuel direction).2.program.WellFormed ∧
      (e.optimize fuel direction).2.program.width = e.program.width := by
    rw [optimize_program hwf]
    split
    · exact ⟨⟨hwf.height_pos, hwf.width_pos, hwf.row_length, length_storedPoint ..⟩, rfl⟩
    · exact ⟨⟨hwf.height_pos, hwf.width_pos, hwf.row_length, length_storedPoint ..⟩, rfl⟩
    · exact ⟨⟨hwf.height_pos, hwf.width_pos, hwf.row_length, List.length_replicate⟩, rfl⟩
  refine ⟨hprogram.1, ?_, ?_⟩
  · rw [htableau]
    exact hshaped
  · rw [htableau, hprogram.2]
    exact hframe.decisionCount_eq

theorem Fits.call (h : e.Fits) (call : Call) : (e.call call).Fits := by
  cases call with
  | setup direction => exact h.setup direction
  | solve fuel => exact h.solve fuel
  | optimize fuel direction => exact h.optimize fuel direction

theorem fits_after {p : Program α} (h : p.WellFormed) (settings : Settings α) (calls : List Call) :
    (after p settings calls).Fits := by
  unfold after
  have hstart := fits_ofProgram h settings
  generalize ofProgram p settings = e at hstart
  induction calls generalizing e with
  | nil => exact hstart
  | cons first calls ih => exact ih _ (hstart.call first)

end Engine

namespace Program

variable {p : Program α}

theorem wellFormed_perform (h : p.WellFormed) (operation : Operation α) :
    (p.perform operation).2.WellFormed := by
  cases operation with
  | edit edit =>
      show (p.outcome (edit.apply p)).2.WellFormed
      cases hq : edit.apply p with
      | ok q =>
          obtain ⟨hcheck, rfl⟩ := (apply_eq_ok_iff h).mp hq
          exact wellFormed_target h hcheck
      | error error => exact h
  | engine settings calls => exact (Engine.fits_after h settings calls).wellFormed

theorem Reachable.wellFormed (h : p.Reachable) : p.WellFormed := by
  induction h with
  | made h => exact h.wellFormed
  | perform _ operation ih => exact wellFormed_perform ih operation

end Program

end LinProg
