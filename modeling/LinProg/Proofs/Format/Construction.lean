import LinProg.Proofs.Program.EditSteps

/-!
# Parsing by edits

The program of a text is built in place: a blank one of the size that the header gives, then an edit
for each record. The counts have been compared before that, so no edit is refused and none needs a
place that its vector does not have.
-/

namespace LinProg

open LinProg.Format

variable {α : Type} [Scalar α]

/-- Edits one after the other, up to the first that is refused. -/
def Program.edited (p : Program α) (edits : List (Edit α)) : Except Error (Program α) :=
  edits.foldlM (fun p edit => edit.apply p) p

namespace Format

def labelEdits : Nat → List String → List (Edit α)
  | _, [] => []
  | j, label :: labels => .setColumnLabel j label :: labelEdits (j + 1) labels

def rowEdits : Nat → List ConstraintRecord → List (Edit α)
  | _, [] => []
  | i, r :: records =>
    .setRow i (r.coefficients.map Scalar.ofDecimal) r.relation (Scalar.ofDecimal r.rhs)
      :: .setRowLabel i r.label :: rowEdits (i + 1) records

def Document.edits (d : Document) : List (Edit α) :=
  .setDirection d.direction :: (labelEdits 0 d.columnLabels ++ (rowEdits 0 d.constraints
    ++ [.setObjective (d.objective.costs.map Scalar.ofDecimal),
      .setObjectiveLabel d.objective.label]))

end Format

namespace Program

variable {p q : Program α} {edits more : List (Edit α)}

theorem edited_cons {edit : Edit α} (hq : edit.apply p = .ok q) :
    p.edited (edit :: edits) = q.edited edits := foldlM_step hq

theorem edited_append (hq : p.edited edits = .ok q) :
    p.edited (edits ++ more) = q.edited more := foldlM_span hq

omit [Scalar α] in
theorem modify_middle {β : Type} {left right : List β} {x : β} {i : Nat} (hi : left.length = i)
    (f : β → β) : (left ++ x :: right).modify i f = left ++ f x :: right := by
  subst hi
  induction left with
  | nil => rfl
  | cons y left ih => exact congrArg (y :: ·) ih

theorem apply_setColumnLabel {j : Nat} (hj : j < p.width) (label : String) :
    (Edit.setColumnLabel j label).apply p = .ok ((Edit.setColumnLabel j label).target p) := by
  apply (map_decision_bind p j (·.label) _).trans
  rw [checkIndex, if_pos hj]
  rfl

theorem apply_setRowLabel {i : Nat} (hi : i < p.height) (label : String) :
    (Edit.setRowLabel i label).apply p = .ok ((Edit.setRowLabel i label).target p) := by
  apply (map_row_bind p i (·.label) _).trans
  rw [checkIndex, if_pos hi]
  rfl

theorem apply_setRow {i : Nat} (hi : i < p.height) {coefficients : List α}
    (hlength : coefficients.length = p.width) (relation : Relation) (rhs : α) :
    (Edit.setRow i coefficients relation rhs).apply p
      = .ok ((Edit.setRow i coefficients relation rhs).target p) := by
  show (p.row i >>= fun _ => _) = _
  rw [row_bind, checkIndex, if_pos hi, checkLength, if_pos hlength.symm]
  rfl

/-- Each label goes to the next variable. -/
theorem edited_labelEdits {labels : List String} {done : List (Decision α)}
    (hp : p.decisions = done ++ List.replicate labels.length ⟨0, none⟩) :
    p.edited (labelEdits done.length labels)
      = .ok { p with decisions := done ++ labels.map fun label => ⟨0, some label⟩ } := by
  induction labels generalizing p done with
  | nil =>
      have hdone : p.decisions = done := by simpa using hp
      rw [List.map_nil, List.append_nil, ← hdone]
      rfl
  | cons label labels ih =>
      have hj : done.length < p.width := by
        rw [width, hp, List.length_append, List.length_replicate, List.length_cons]
        omega
      have hlabelled : ((Edit.setColumnLabel done.length label).target p).decisions
          = (done ++ [⟨0, some label⟩]) ++ List.replicate labels.length ⟨0, none⟩ := by
        simp only [Edit.target, modifyDecision]
        rw [hp, List.length_cons, List.replicate_succ, modify_middle rfl, List.append_assoc]
        rfl
      have hrest := ih hlabelled
      rw [List.length_append, List.append_assoc] at hrest
      rw [labelEdits, edited_cons (apply_setColumnLabel hj label)]
      exact hrest

/-- Each record goes to the next row. -/
theorem edited_rowEdits {records : List ConstraintRecord} {done : List (Constraint α)}
    {blank : Constraint α} (hp : p.rows = done ++ List.replicate records.length blank)
    (hlength : ∀ r ∈ records, r.coefficients.length = p.width) :
    p.edited (rowEdits done.length records)
      = .ok { p with rows := done ++ records.map ConstraintRecord.toConstraint } := by
  induction records generalizing p done with
  | nil =>
      have hdone : p.rows = done := by simpa using hp
      rw [List.map_nil, List.append_nil, ← hdone]
      rfl
  | cons r records ih =>
      rw [List.forall_mem_cons] at hlength
      have hi : done.length < p.height := by
        rw [height, hp, List.length_append, List.length_replicate, List.length_cons]
        omega
      have hset := apply_setRow hi ((List.length_map Scalar.ofDecimal).trans hlength.1) r.relation
        (Scalar.ofDecimal r.rhs)
      let filled := (Edit.setRow done.length (r.coefficients.map Scalar.ofDecimal) r.relation
        (Scalar.ofDecimal r.rhs)).target p
      have hfilled : filled.rows
          = done ++ { (r.toConstraint : Constraint α) with label := blank.label }
            :: List.replicate records.length blank := by
        simp only [filled, Edit.target, modifyRow]
        rw [hp, List.length_cons, List.replicate_succ, modify_middle rfl]
        rfl
      have hbelow : done.length < filled.height := hi.trans_eq (height_modifyRow ..).symm
      have hlabel := apply_setRowLabel hbelow r.label
      have hlabelled : ((Edit.setRowLabel done.length r.label).target filled).rows
          = (done ++ [r.toConstraint]) ++ List.replicate records.length blank := by
        simp only [Edit.target, modifyRow]
        rw [hfilled, modify_middle rfl, List.append_assoc]
        rfl
      have hrest := ih hlabelled hlength.2
      rw [List.length_append, List.append_assoc] at hrest
      rw [rowEdits, edited_cons hset, edited_cons hlabel]
      exact hrest

theorem apply_setObjective {costs : List α} (hlength : costs.length = p.width) :
    (Edit.setObjective costs).apply p = .ok ((Edit.setObjective costs).target p) := by
  show (checkLength _ _ _ >>= fun _ => _) = _
  rw [checkLength, if_pos hlength.symm]
  rfl

theorem blank_of_pos {rows columns : Nat} (hpos : 0 < rows ∧ 0 < columns) :
    (blank rows columns : Except Error (Program α))
      = .ok (ofRows (List.replicate rows ⟨List.replicate columns 0, default, 0, none⟩)
        (List.replicate columns ⟨0, none⟩)) := by
  have hcheck : checkDimensions rows columns = .ok () := checkDimensions_eq_ok_iff.mpr hpos
  unfold blank
  rw [hcheck]
  rfl

end Program

open Program in
theorem Format.Document.Agrees.edited {d : Document} {rows columns : Nat}
    (h : d.Agrees rows columns) :
    ∃ start : Program α, blank rows columns = .ok start ∧
      start.edited d.edits = .ok d.toProgram := by
  -- Each record finds the places that the header has made for it, and fills them.
  obtain ⟨-, hpos, -⟩ := Header.counts_eq_ok_iff.mp h.header
  refine ⟨_, blank_of_pos hpos, ?_⟩
  let start : Program α :=
    { ofRows (List.replicate rows ⟨List.replicate columns 0, default, 0, none⟩)
        (List.replicate columns ⟨0, none⟩) with direction := d.direction }
  let labelled : Program α :=
    { start with decisions := d.columnLabels.map fun label => ⟨0, some label⟩ }
  let filled : Program α :=
    { labelled with rows := d.constraints.map ConstraintRecord.toConstraint }
  have hlabels : start.edited (labelEdits 0 d.columnLabels) = .ok labelled := by
    have hunlabelled : start.decisions = [] ++ List.replicate d.columnLabels.length ⟨0, none⟩ := by
      rw [h.columnLabels]
      rfl
    exact edited_labelEdits hunlabelled
  have hwidth : labelled.width = columns := (List.length_map _).trans h.columnLabels
  have hrows : labelled.edited (rowEdits 0 d.constraints) = .ok filled := by
    have hempty : labelled.rows = [] ++ List.replicate d.constraints.length
        ⟨List.replicate columns 0, default, 0, none⟩ := by
      rw [h.constraints]
      rfl
    apply edited_rowEdits hempty
    rw [hwidth]
    exact h.coefficients
  have hdecisions : filled.decisions.zipWith (fun d cost => { d with cost })
      (d.objective.costs.map Scalar.ofDecimal) = (d.toProgram : Program α).decisions := by
    show (d.columnLabels.map _).zipWith _ _ = _
    rw [List.zipWith_map]
    rfl
  have hsolution : filled.solution = (d.toProgram : Program α).solution := by
    show List.replicate _ 0 = List.replicate (d.toProgram : Program α).width 0
    rw [h.width_toProgram]
    exact congrArg (List.replicate · 0) List.length_replicate
  have hlength : (d.objective.costs.map (Scalar.ofDecimal (α := α))).length = filled.width :=
    (List.length_map _).trans (h.costs.trans hwidth.symm)
  have hcosts := apply_setObjective hlength
  rw [Document.edits, edited_cons (q := start) rfl, edited_append hlabels, edited_append hrows,
    edited_cons hcosts, edited_cons rfl]
  show Except.ok { filled with
    decisions := filled.decisions.zipWith (fun (d : Decision α) cost => { d with cost }) _
    objectiveLabel := some d.objective.label } = _
  rw [hdecisions, hsolution]
  rfl

end LinProg
