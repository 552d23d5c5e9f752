import LinProg.Proofs.Format.Records

/-!
# The text of a program tells the program

The records of the text, put together again: whatever the size of the program, the reader takes all
of its text, and what the document then tells is the program with its labels rewritten.
-/

namespace LinProg

open LinProg.Format LinProg.Format.Parser LinProg.Format.Grammar

variable {α : Type}

/-- All labels of a program. -/
def Program.labels (p : Program α) : List (Option String) :=
  p.rowLabels ++ p.columnLabels ++ [p.objectiveLabel]

section Text

variable [NumberText α]

/-- A program that can be read back. -/
structure Program.Writable (p : Program α) : Prop where
  width_pos : 0 < p.width
  columnLabels : ∀ label ∈ p.columnLabels, Clean (rewritten label)
  rows : ∀ r ∈ p.rows, WritableRow r
  objectiveLabel : Clean (rewritten p.objectiveLabel)
  costs : ∀ x ∈ p.costs, NumberText.isFinite x

theorem Program.writable_of_finite {p : Program α} (hwidth : 0 < p.width)
    (hfinite : ∀ x ∈ p.numbers, NumberText.isFinite x)
    (hclean : ∀ label ∈ p.labels, Clean (rewritten label)) : p.Writable where
  width_pos := hwidth
  columnLabels label hlabel := hclean label (List.mem_append_left _ (List.mem_append_right _ hlabel))
  rows r hr :=
    { label := hclean _ (List.mem_append_left _ (List.mem_append_left _ (List.mem_map_of_mem hr)))
      coefficients := fun x hx => by
        have hmem : x ∈ p.coefficients.flatten :=
          List.mem_flatten_of_mem (List.mem_map_of_mem hr) hx
        exact hfinite x (List.mem_append_left _ (List.mem_append_left _ hmem))
      rhs := hfinite _ (List.mem_append_left _ (List.mem_append_right _ (List.mem_map_of_mem hr))) }
  objectiveLabel := hclean _ (List.mem_append_right _ (List.mem_singleton_self _))
  costs x hx := hfinite x (List.mem_append_right _ hx)

/-! ### The text, record by record -/

theorem Program.toText_eq_ok_iff {p : Program α} {text : String} :
    p.toText = .ok text ↔ (∀ x ∈ p.numbers, NumberText.isFinite x) ∧ p.finiteText = text := by
  unfold Program.toText
  split
  · next x hx =>
      refine ⟨nofun, fun h => ?_⟩
      have hfinite := h.1 x (List.mem_of_find?_eq_some hx)
      simpa [hfinite] using List.find?_some hx
  · next hnone =>
      have hfinite : ∀ x ∈ p.numbers, NumberText.isFinite x := by simpa using hnone
      exact ⟨fun h => ⟨hfinite, Except.ok.inj h⟩, fun h => congrArg Except.ok h.2⟩

/-- Each line behind the column labels begins with the end of the line before it. -/
theorem endsRecord_rows (rows : List (Constraint α)) (last : List Char) :
    EndsRecord ((rows.map fun r => '\n' :: rowText r).flatten ++ '\n' :: last) := by
  cases rows with
  | nil => exact endsRecord_cons last
  | cons r rows => exact endsRecord_cons _

/-- A character that ends each line begins each line but the first. -/
theorem cons_flatten_concat {γ : Type} (x : γ) (lines : List (List γ)) (last : List γ) :
    x :: ((lines.map (· ++ [x])).flatten ++ last)
      = (lines.map (x :: ·)).flatten ++ x :: last := by
  induction lines with
  | nil => rfl
  | cons line lines ih =>
      simp only [List.map_cons, List.flatten_cons, List.append_assoc, List.cons_append,
        List.nil_append, ih]

theorem intercalate_comma (field : List Char) (fields : List (List Char)) :
    [','].intercalate (field :: fields) = field ++ (fields.map (',' :: ·)).flatten := by
  induction fields generalizing field with
  | nil => simp [List.intercalate]
  | cons next fields ih =>
      have hcons : [','].intercalate (field :: next :: fields)
          = field ++ ([','] ++ [','].intercalate (next :: fields)) := by
        simp [List.intercalate]
      rw [hcons, ih, List.map_cons, List.flatten_cons]
      rfl

theorem toList_constraintLine (r : Constraint α) :
    (Program.constraintLine r).toList = rowText r ++ ['\n'] := by
  simp [Program.constraintLine, rowText]

theorem toList_finiteText {p : Program α} {label : Option String} {labels : List (Option String)}
    (hlabels : p.columnLabels = label :: labels) :
    p.finiteText.toList = p.direction.text.toList
      ++ '\n' :: (dimensionsText p.height p.width
      ++ '\n' :: (columnLabelsText label labels
      ++ ((p.rows.map fun r => '\n' :: rowText r).flatten
      ++ '\n' :: (objectiveText p.objectiveLabel p.costs ++ ['\n'])))) := by
  have hrows : '\n' :: ((p.rows.map fun r => (Program.constraintLine r).toList).flatten
      ++ (objectiveText p.objectiveLabel p.costs ++ ['\n']))
      = (p.rows.map fun r => '\n' :: rowText r).flatten
      ++ '\n' :: (objectiveText p.objectiveLabel p.costs ++ ['\n']) := by
    have hlines := cons_flatten_concat '\n' (p.rows.map rowText)
      (objectiveText p.objectiveLabel p.costs ++ ['\n'])
    simpa only [List.map_map, Function.comp_def, ← toList_constraintLine] using hlines
  rw [← hrows]
  simp [Program.finiteText, hlabels, intercalate_comma, List.flatMap_def, Function.comp_def,
    dimensionsText, columnLabelsText, objectiveText]

end Text

/-! ### The document -/

variable [Scalar α]

/-- The document tells the program, apart from the labels that cannot be written. -/
structure Format.Document.Tells (d : Document) (p : Program α) : Prop where
  direction : d.direction = p.direction
  rows : d.header.rows.value = p.height
  columns : d.header.columns.value = p.width
  columnLabels : d.columnLabels = p.columnLabels.map Program.rewritten
  constraints : d.constraints.map ConstraintRecord.toConstraint = p.rows.map rereadRow
  objectiveLabel : d.objective.label = Program.rewritten p.objectiveLabel
  costs : d.objective.costs.map Scalar.ofDecimal = p.costs

variable [NumberText α] {p : Program α}

theorem takes_constraints (hback : NumberText.ReadsBack α) (h : p.Writable) :
    (next (several do
      let _ ← several1 lineEnd
      next constraint)).Takes (p.rows.map fun r => '\n' :: rowText r).flatten
        ('\n' :: (objectiveText p.objectiveLabel p.costs ++ ['\n']))
        (·.map ConstraintRecord.toConstraint = p.rows.map rereadRow) := by
  have hlines : (do let _ ← several1 lineEnd; next constraint).TakesItems
      p.rows (fun r => '\n' :: rowText r)
      ('\n' :: (objectiveText p.objectiveLabel p.costs ++ ['\n']))
      EndsField (fun r record => record.toConstraint = rereadRow r) :=
    { nonempty := fun _ _ => List.cons_ne_nil _ _
      takes := fun r hr k hk => by
        have hbegins : BeginsRecord (rowText r) := (beginsRecord_quoted r.label).append _
        have hrow := takes_constraint hback (h.rows r hr) hk
        exact Takes.newLine (fun _ => hrow.next (hbegins.gapFree k)) hbegins
      before := fun _ _ _ _ => endsField_cons (.inr rfl)
      ends := endsField_cons (.inr rfl)
      refuses := by
        have hbegins : BeginsRecord (objectiveText p.objectiveLabel p.costs) :=
          (beginsRecord_quoted p.objectiveLabel).append _
        have hobjective := refuses_constraint hback h.objectiveLabel h.costs (endsRecord_cons [])
        exact Refuses.newLine (fun _ => hobjective.next (hbegins.gapFree _)) hbegins }
  have hseveral := hlines.several fun _ hk => hk.gapFree
  exact (hseveral.next hlines.following.gapFree).mono fun _ hrecords =>
    map_eq_map_of_forall₂ hrecords

theorem takes_document (hback : NumberText.ReadsBack α) (h : p.Writable) :
    document.Takes p.finiteText.toList [] (Document.Tells · p) := by
  obtain ⟨label, labels, hlabels⟩ : ∃ label labels, p.columnLabels = label :: labels := by
    refine List.exists_cons_of_length_pos ?_
    rw [Program.columnLabels, List.length_map]
    exact h.width_pos
  have hdirection : BeginsRecord p.direction.text.toList := by
    cases p.direction <;> exact beginsRecord_cons _ (by decide)
  have hlower : p.direction.text.toList.map Char.toLower = p.direction.text.toList := by
    cases p.direction <;> rfl
  have hdimensions : BeginsRecord (dimensionsText p.height p.width) :=
    (beginsRecord_toString p.height).append _
  have hcolumnLabels : BeginsRecord (columnLabelsText label labels) :=
    (beginsRecord_quoted label).append _
  have hobjective : BeginsRecord (objectiveText p.objectiveLabel p.costs) :=
    (beginsRecord_quoted p.objectiveLabel).append _
  have hrows := endsRecord_rows p.rows (objectiveText p.objectiveLabel p.costs ++ ['\n'])
  have hlast : EndsRecord (['\n'] ++ []) := endsRecord_cons []
  have hconstraints := takes_constraints hback h
  -- The rest behind each record is the later records and, behind those, nothing.
  rw [← List.append_nil ('\n' :: (objectiveText p.objectiveLabel p.costs ++ ['\n']))]
    at hrows hconstraints
  rw [← List.append_assoc] at hrows
  rw [toList_finiteText hlabels]
  refine Takes.rule _ ?_
  refine Takes.firstLine (fun _ => ?_) (hdirection.append _)
  refine ((takes_direction hlower _).next (hdirection.gapFree _)).bind fun direction hd => ?_
  refine Takes.nextLine (fun _ => ?_) (hdimensions.append _)
  refine ((takes_dimensions p.height p.width (endsField_cons (.inr rfl))).next
    (hdimensions.gapFree _)).bind fun header hheader => ?_
  refine Takes.nextLine (fun _ => ?_) (hcolumnLabels.append _)
  refine ((takes_columnLabels (hlabels ▸ h.columnLabels) hrows).next
    (hcolumnLabels.gapFree _)).bind fun columnLabels hcolumns => ?_
  refine hconstraints.bind fun constraints hconstraints => ?_
  refine Takes.nextLine (fun _ => ?_) (hobjective.append _)
  refine ((takes_objective hback h.objectiveLabel h.costs hlast).next
    (hobjective.gapFree _)).bind fun objective hcosts => ?_
  exact takes_lastLine
    { direction := hd
      rows := hheader.1
      columns := hheader.2
      columnLabels := hlabels ▸ hcolumns
      constraints := hconstraints
      objectiveLabel := hcosts.1
      costs := hcosts.2 }

end LinProg
