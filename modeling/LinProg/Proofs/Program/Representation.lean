import LinProg.Proofs.Format.Construction
import LinProg.Proofs.Program.Layout

/-!
# The separate vectors always fit

Whatever has been done to a program since it was made, its vectors have the lengths that its two
counts say. So each reader of them finds what it looks for, the start tableau can be laid out, each
edit goes through its steps, and a refused edit leaves every vector as it was.
-/

namespace LinProg

open LinProg.Format

variable {α : Type} [Scalar α]

/-! ### Vectors as they are made -/

namespace Vectors

def blank (rows columns : Nat) : Vectors α where
  direction := default
  rowCount := rows
  columnCount := columns
  coefficients := List.replicate rows (List.replicate columns 0)
  rhs := List.replicate rows 0
  relations := List.replicate rows default
  costs := List.replicate columns 0
  solution := List.replicate columns 0
  objectiveValue := 0
  rowLabels := List.replicate rows none
  columnLabels := List.replicate columns none
  objectiveLabel := none

def store (x : List α) (v : Vectors α) : Vectors α :=
  { v with objectiveValue := Scalar.dot v.costs x, solution := x }

/-- Stores a point with an answer that has one. -/
def settle (answer : Except Error Status) (x : List α) (v : Vectors α) : Vectors α :=
  match answer with
  | .ok .solution | .ok .unbounded => v.store x
  | _ => v

theorem vectors_ofRows (rows : List (Constraint α)) (decisions : List (Decision α)) :
    (Program.ofRows rows decisions).vectors =
      { blank rows.length decisions.length with
        coefficients := rows.map (·.coefficients)
        rhs := rows.map (·.rhs)
        relations := rows.map (·.relation)
        rowLabels := rows.map (·.label)
        costs := decisions.map (·.cost)
        columnLabels := decisions.map (·.label) } := rfl

theorem vectors_blank {p : Program α} {rows columns : Nat}
    (h : Program.blank rows columns = .ok p) : p.vectors = blank rows columns := by
  obtain ⟨_, -, hp⟩ := bind_eq_ok_iff.mp h
  obtain rfl := Except.ok.inj hp
  rw [vectors_ofRows]
  simp [blank]

theorem vectors_ofParts {p : Program α} {a : List (List α)} {b : List α}
    {relations : List Relation} {c : List α} (h : Program.ofParts a b relations c = .ok p) :
    p.vectors = { blank a.length c.length with
      coefficients := a, rhs := b, relations, costs := c } := by
  unfold Program.ofParts at h
  simp only [bind_eq_ok_iff, checkLength_eq_ok_iff] at h
  obtain ⟨_, -, _, hb, _, hrelations, _, -, hp⟩ := h
  obtain rfl := Except.ok.inj hp
  have hpairs : (relations.zip b).length = a.length := by
    rw [List.length_zip, ← hb, ← hrelations, Nat.min_self]
  have hheight : (a.zip (relations.zip b)).length = a.length := by
    rw [List.length_zip, hpairs, Nat.min_self]
  have hfirst : (a.zip (relations.zip b)).map (·.1) = a := List.map_fst_zip hpairs.ge
  have hrest : (a.zip (relations.zip b)).map (·.2) = relations.zip b := List.map_snd_zip hpairs.le
  have hrelation : (a.zip (relations.zip b)).map (·.2.1) = relations := by
    have hfst := List.map_fst_zip (hrelations.symm.trans hb).le
    rwa [← hrest, List.map_map] at hfst
  have hright : (a.zip (relations.zip b)).map (·.2.2) = b := by
    have hsnd := List.map_snd_zip (hb.symm.trans hrelations).le
    rwa [← hrest, List.map_map] at hsnd
  rw [vectors_ofRows, List.length_map, List.length_map, hheight]
  simp only [List.map_map, Function.comp_def, hfirst, hrelation, hright, List.map_id',
    List.map_const', hheight]
  rfl

theorem execute_edits {p q : Program α} (h : p.WellFormed) {edits : List (Edit α)}
    (hq : p.edited edits = .ok q) :
    execute (edits.flatMap Edit.steps) p.vectors = some (.ok (), q.vectors) := by
  induction edits generalizing p with
  | nil =>
      obtain rfl := Except.ok.inj hq
      rfl
  | cons edit edits ih =>
      unfold Program.edited at hq
      rw [List.foldlM_cons] at hq
      obtain ⟨next, hnext, hrest⟩ := bind_eq_ok_iff.mp hq
      have hsteps : execute edit.steps p.vectors = some (.ok (), next.vectors) := by
        rw [execute_steps h]
        show some ((p.outcome (edit.apply p)).map id Program.vectors) = _
        rw [hnext]
        rfl
      obtain ⟨hcheck, rfl⟩ := (Program.apply_eq_ok_iff h).mp hnext
      rw [List.flatMap_cons, execute_append hsteps]
      exact ih (Program.wellFormed_target h hcheck) hrest

/-- The edits of a text go through on blank vectors. -/
theorem exists_execute_ofText {p : Program α} {text : String} (h : Program.ofText text = .ok p) :
    ∃ d rows columns, Document.ofText text = .ok d ∧
      execute (d.edits.flatMap Edit.steps) (blank rows columns) = some (.ok (), p.vectors) := by
  unfold Program.ofText at h
  obtain ⟨d, hd, hcheck⟩ := bind_eq_ok_iff.mp h
  obtain ⟨_, hagrees, hp⟩ := bind_eq_ok_iff.mp hcheck
  obtain ⟨rows, columns, hagrees⟩ := Document.check_eq_ok_iff.mp hagrees
  obtain rfl := Except.ok.inj hp
  obtain ⟨start, hstart, hedited⟩ := hagrees.edited (α := α)
  have hwf : start.WellFormed := (Program.Made.blank hstart).wellFormed
  refine ⟨d, rows, columns, hd, ?_⟩
  rw [← vectors_blank hstart]
  exact execute_edits hwf hedited

end Vectors

/-! ### What an engine does to the vectors -/

namespace Engine

def vectorsAfter (e : Engine α) : Call → Vectors α
  | .setup _ => e.program.vectors.clear
  | .solve _ => e.program.vectors
  | .optimize fuel direction =>
    { e.program.vectors with direction }.clear.settle (e.answer fuel direction)
      (e.storedPoint fuel direction)

variable {e : Engine α}

theorem Fits.vectors_call (h : e.Fits) (call : Call) :
    (e.call call).program.vectors = e.vectorsAfter call := by
  have hwf := h.wellFormed
  cases call with
  | setup direction => exact Vectors.vectors_clearSolution hwf.solution_length
  | solve fuel =>
      show (e.solve fuel).2.program.vectors = e.program.vectors
      rw [solve_program]
  | optimize fuel direction =>
      have hclear := Vectors.vectors_clearSolution (p := { e.program with direction })
        hwf.solution_length
      show (e.optimize fuel direction).2.program.vectors
        = Vectors.settle (e.answer fuel direction) (e.storedPoint fuel direction) _
      rw [optimize_program hwf]
      cases e.answer fuel direction with
      | error error => exact hclear
      | ok status =>
          cases status with
          | noSolution => exact hclear
          | solution => rfl
          | unbounded => rfl

/-- The only error of an engine is that its search was cut short. -/
theorem Fits.error_eq (h : e.Fits) {fuel : Nat} {direction : Direction} {error : Error}
    (herror : (e.solve fuel).1 = .error error ∨ (e.optimize fuel direction).1 = .error error) :
    error = e.cutShort fuel := by
  rcases herror with hsolve | hoptimize
  · rw [solve_eq h.shaped.height_lt_width] at hsolve
    dsimp only at hsolve
    split at hsolve
    · cases hsolve
    · exact (Except.error.inj hsolve).symm
  · rw [optimize_answer h.wellFormed] at hoptimize
    unfold answer at hoptimize
    split at hoptimize
    · exact (Except.error.inj hoptimize).symm
    · cases hoptimize

/-- What holds of an engine whatever it is called for next. -/
structure Safe (e : Engine α) : Prop where
  inOrder : ∀ fuel, e.InOrder fuel
  vectors_call : ∀ call, (e.call call).program.vectors = e.vectorsAfter call
  error_eq : ∀ {fuel direction error},
    (e.solve fuel).1 = .error error ∨ (e.optimize fuel direction).1 = .error error →
      error = e.cutShort fuel

theorem Fits.safe (h : e.Fits) : e.Safe where
  inOrder := inOrder_of_shaped h.shaped h.decisionCount_eq
  vectors_call := h.vectors_call
  error_eq := h.error_eq

end Engine

/-! ### Every program that can be reached -/

namespace Program

/-- The vectors at first: blank, or with the given parts as they are, or what edits make of blank
ones on the word of a text. -/
structure Founded (p : Program α) : Prop where
  blank_eq : ∀ {rows columns}, blank rows columns = .ok p →
    p.vectors = Vectors.blank rows columns
  ofParts_eq : ∀ {a b relations c}, ofParts a b relations c = .ok p →
    p.vectors = { Vectors.blank a.length c.length with
      coefficients := a, rhs := b, relations, costs := c }
  exists_ofText : ∀ {text}, ofText text = .ok p →
    ∃ d rows columns, Document.ofText text = .ok d ∧
      Vectors.execute (d.edits.flatMap Edit.steps) (Vectors.blank rows columns)
        = some (.ok (), p.vectors)

theorem founded (p : Program α) : p.Founded where
  blank_eq := Vectors.vectors_blank
  ofParts_eq := Vectors.vectors_ofParts
  exists_ofText := Vectors.exists_execute_ofText

/-- Each reader of the vectors finds the places that it looks for, and gives what the program has. -/
structure Readable [NumberText α] (p : Program α) : Prop where
  coefficient : ∀ i j, p.vectors.coefficient i j = some (p.coefficient i j)
  rhs : ∀ i, p.vectors.atRow p.vectors.rhs i = some ((p.row i).map (·.rhs))
  relation : ∀ i, p.vectors.atRow p.vectors.relations i = some ((p.row i).map (·.relation))
  rowLabel : ∀ i, p.vectors.atRow p.vectors.rowLabels i = some ((p.row i).map (·.label))
  cost : ∀ j, p.vectors.atColumn p.vectors.costs j = some ((p.decision j).map (·.cost))
  columnLabel : ∀ j,
    p.vectors.atColumn p.vectors.columnLabels j = some ((p.decision j).map (·.label))
  text : p.vectors.toText = some p.toText
  display : p.vectors.display = some p.display
  augment : ∀ direction, p.vectors.augment direction = some (Tableau.augment p direction).flat

/-- Each edit finds every place that it changes, and where it is refused nothing has been changed. -/
structure Editable (p : Program α) : Prop where
  steps_eq : ∀ edit, Vectors.execute edit.steps p.vectors
    = some ((p.perform (.edit edit)).map id vectors)
  refused_eq : ∀ {edit error v}, Vectors.execute edit.steps p.vectors = some (.error error, v) →
    v = p.vectors ∧ p.perform (.edit edit) = (.error error, p)

variable {p : Program α}

theorem WellFormed.readable [NumberText α] (h : p.WellFormed) : p.Readable where
  coefficient := Vectors.coefficient_vectors h
  rhs := Vectors.atRow_vectors p (·.rhs)
  relation := Vectors.atRow_vectors p (·.relation)
  rowLabel := Vectors.atRow_vectors p (·.label)
  cost := Vectors.atColumn_vectors p (·.cost)
  columnLabel := Vectors.atColumn_vectors p (·.label)
  text := Vectors.toText_vectors p
  display := Vectors.display_vectors p
  augment := Vectors.augment_vectors h

theorem WellFormed.editable (h : p.WellFormed) : p.Editable where
  steps_eq := Vectors.execute_steps h
  refused_eq := by
    intro edit error v hrefused
    rw [Vectors.execute_steps h] at hrefused
    change some ((p.outcome (edit.apply p)).map id vectors) = _ at hrefused
    show _ ∧ p.outcome (edit.apply p) = _
    cases hq : edit.apply p with
    | ok q =>
        rw [hq] at hrefused
        cases hrefused
    | error found =>
        rw [hq] at hrefused
        cases hrefused
        exact ⟨rfl, rfl⟩

/-- The vectors of every program that can be reached fit, so that nothing that is done with it
next looks for a place that is not there, and what is refused changes nothing. -/
theorem vectors_of_reachable [NumberText α] (h : p.Reachable) :
    p.vectors.Fits ∧ p.Founded ∧ p.Readable ∧ p.Editable ∧
      ∀ settings calls, (Engine.after p settings calls).Safe := by
  have hwf := h.wellFormed
  refine ⟨Vectors.fits_vectors_iff.mpr hwf, p.founded, hwf.readable, hwf.editable, ?_⟩
  intro settings calls
  exact (Engine.fits_after hwf settings calls).safe

def single : Program Float := .ofRows [⟨[0], .lessEq, 0, none⟩] [⟨0, none⟩]

/-- The blank program with a second variable in front. -/
def widened : Program Float :=
  (single.perform (.edit (.insertColumn 0 ⟨[2], 3, some "y"⟩))).2

theorem vectors_widened :
    widened.vectors.Fits ∧ widened.vectors.coefficients = [[2, 0]] ∧
      widened.vectors.solution = [0, 0] ∧
      Vectors.execute (Edit.setObjective [1]).steps widened.vectors
        = some (.error (.shapeMismatch .objective 2 1), widened.vectors) ∧
      (∃ text, widened.vectors.toText = some text) ∧
      ((Engine.after widened .standard [.setup .minimize, .solve 9]).InOrder 9) := by
  have hblank : blank 1 1 = .ok single := rfl
  have hmade : single.Made := .blank hblank
  obtain ⟨hfits, -, hread, hedit, hsafe⟩ :=
    vectors_of_reachable (p := widened) (.perform (.made hmade) _)
  exact ⟨hfits, rfl, rfl, hedit.steps_eq _, ⟨_, hread.text⟩, (hsafe _ _).inOrder 9⟩

end Program

end LinProg
