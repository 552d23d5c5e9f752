import LinProg.Proofs.Decimal.ReadBack
import LinProg.Proofs.Format.Reading

/-!
# Writing a program and reading it again

The numbers, the relations and the direction come back as they were, and so do the labels apart from
their quotes. What does not come back is a label that has a line break in it: the writer puts it down
as it is, and no text has such a label.
-/

namespace LinProg

open LinProg.Format LinProg.Format.Parser LinProg.Format.Grammar

namespace Program

variable {α : Type} [Scalar α]

def rereadDecision (d : Decision α) : Decision α := { d with label := some (rewritten d.label) }

/-- The program that the text of a program stands for. It is not solved, each label is there, and the
quotes in labels are apostrophes. -/
def reread (p : Program α) : Program α :=
  clearSolution
    { p with
      rows := p.rows.map rereadRow
      decisions := p.decisions.map rereadDecision
      objectiveLabel := some (rewritten p.objectiveLabel) }

/-- A label that has no line break in it. A missing label has none. -/
def OneLine (label : Option String) : Prop :=
  ∀ text ∈ label, ∀ c ∈ text.toList, c ≠ '\n' ∧ c ≠ '\r'

theorem labels_reread (p : Program α) :
    p.reread.labels = p.labels.map fun label => some (rewritten label) := by
  simp [labels, reread, clearSolution, rowLabels, columnLabels, rereadRow, rereadDecision,
    Function.comp_def]

end Program

/-! ### Labels -/

namespace Format

theorem clean_rewritten_iff {label : Option String} :
    Clean (Program.rewritten label) ↔ Program.OneLine label := by
  cases label with
  | none => simp [Clean, Program.rewritten, Program.OneLine]
  | some text =>
      simp only [Clean, Program.rewritten, Program.OneLine, Option.getD_some, String.toList_ofList,
        List.forall_mem_map, Option.mem_some_iff, forall_eq']
      refine forall₂_congr fun c _ => ?_
      by_cases hquote : c = '"'
      · subst hquote
        decide
      · simp [hquote, endsLabel, endsLine]

theorem rewritten_rewritten (label : Option String) :
    Program.rewritten (some (Program.rewritten label)) = Program.rewritten label := by
  have hquotes : (fun c : Char => if c = '"' then '\'' else c) ∘ (fun c => if c = '"' then '\'' else c)
      = fun c => if c = '"' then '\'' else c := by
    funext c
    by_cases hc : c = '"' <;> simp [hc]
  rw [Program.rewritten, Program.rewritten, Option.getD_some, String.toList_ofList, List.map_map,
    hquotes]

theorem rewritten_of_clean {text : String} (h : Clean text) :
    Program.rewritten (some text) = text := by
  have hmap : (text.toList.map fun c => if c = '"' then '\'' else c) = text.toList := by
    refine (List.map_congr_left fun c hc => ?_).trans (List.map_id _)
    have hquote : c ≠ '"' := by
      rintro rfl
      exact absurd (h '"' hc) (by decide)
    exact if_neg hquote
  rw [Program.rewritten, Option.getD_some, hmap, String.ofList_toList]

end Format

/-! ### Documents -/

namespace Format.Document

variable {α : Type} [Scalar α] {d : Document} {p : Program α} {rows columns : Nat}

theorem Tells.toProgram_eq (h : d.Tells p) : d.toProgram = p.reread := by
  have hdecisions : d.columnLabels.zipWith
      (fun label cost => (⟨Scalar.ofDecimal cost, some label⟩ : Decision α)) d.objective.costs
      = p.decisions.map Program.rereadDecision := by
    have hcosts : d.columnLabels.zipWith
        (fun label cost => (⟨Scalar.ofDecimal cost, some label⟩ : Decision α)) d.objective.costs
        = d.columnLabels.zipWith (fun label cost => ⟨cost, some label⟩)
          (d.objective.costs.map Scalar.ofDecimal) := by
      rw [List.zipWith_map_right]
    rw [hcosts, h.columnLabels, h.costs, Program.columnLabels, Program.costs, List.map_map,
      List.zipWith_map, List.zipWith_self]
    rfl
  unfold toProgram Program.reread Program.ofRows
  rw [hdecisions, h.constraints, h.direction, h.objectiveLabel]
  rfl

theorem Tells.agrees_iff (h : d.Tells p) (hwf : p.WellFormed) :
    (∃ rows columns, d.Agrees rows columns) ↔ p.height < 2 ^ 63 ∧ p.width < 2 ^ 63 := by
  have hcounts : d.header.counts = .ok (p.height, p.width)
      ↔ p.height < 2 ^ 63 ∧ p.width < 2 ^ 63 := by
    rw [Header.counts_eq_ok_iff]
    exact ⟨fun h => h.2.2, fun hlt => ⟨⟨h.rows, h.columns⟩, ⟨hwf.height_pos, hwf.width_pos⟩, hlt⟩⟩
  have hconstraints : d.constraints.length = p.height := by
    simpa [Program.height] using congrArg List.length h.constraints
  have hlabels : d.columnLabels.length = p.width := by
    rw [h.columnLabels, List.length_map, Program.columnLabels, List.length_map, Program.width]
  constructor
  · rintro ⟨rows, columns, hagrees⟩
    rw [← hcounts, ← hconstraints, ← hlabels, hagrees.constraints, hagrees.columnLabels]
    exact hagrees.header
  · intro hlt
    refine ⟨p.height, p.width, hcounts.mpr hlt, hlabels, hconstraints, ?_, ?_⟩
    · intro r hr
      have hmem : r.toConstraint ∈ p.rows.map rereadRow := h.constraints ▸ List.mem_map_of_mem hr
      obtain ⟨row, hrow, heq⟩ := List.mem_map.mp hmem
      have hlength : row.coefficients.length = r.coefficients.length := by
        simpa [rereadRow, ConstraintRecord.toConstraint]
          using congrArg (fun c => c.coefficients.length) heq
      rw [← hlength]
      exact hwf.row_length row hrow
    · simpa [Program.costs, Program.width] using congrArg List.length h.costs

theorem Agrees.height_toProgram (h : d.Agrees rows columns) :
    (d.toProgram : Program α).height = rows :=
  (List.length_map _).trans h.constraints

theorem decisions_toProgram (d : Document) :
    (d.toProgram : Program α).decisions = (d.columnLabels.zip d.objective.costs).map
      fun field => ⟨Scalar.ofDecimal field.2, some field.1⟩ :=
  List.map_uncurry_zip_eq_zipWith.symm

theorem Agrees.columnLabels_toProgram (h : d.Agrees rows columns) :
    (d.toProgram : Program α).columnLabels = d.columnLabels.map some := by
  have hlabels := List.map_fst_zip (h.columnLabels.trans h.costs.symm).le
  rw [Program.columnLabels, decisions_toProgram, List.map_map]
  conv_rhs => rw [← hlabels, List.map_map]
  rfl

theorem Agrees.costs_toProgram (h : d.Agrees rows columns) :
    (d.toProgram : Program α).costs = d.objective.costs.map Scalar.ofDecimal := by
  have hcosts := List.map_snd_zip (h.costs.trans h.columnLabels.symm).le
  rw [Program.costs, decisions_toProgram, List.map_map]
  conv_rhs => rw [← hcosts, List.map_map]
  rfl

theorem Agrees.width_toProgram (h : d.Agrees rows columns) :
    (d.toProgram : Program α).width = columns := by
  have hlength := congrArg List.length (h.columnLabels_toProgram (α := α))
  rw [Program.columnLabels, List.length_map, List.length_map, h.columnLabels] at hlength
  exact hlength

theorem Agrees.wellFormed_toProgram (h : d.Agrees rows columns) :
    (d.toProgram : Program α).WellFormed := by
  obtain ⟨-, hpos, -⟩ := Header.counts_eq_ok_iff.mp h.header
  have hwidth : (d.toProgram : Program α).width = columns := h.width_toProgram
  refine ⟨?_, ?_, ?_, List.length_replicate⟩
  · rw [h.height_toProgram]
    exact hpos.1
  · rw [hwidth]
    exact hpos.2
  · intro row hrow
    obtain ⟨r, hr, rfl⟩ := List.mem_map.mp hrow
    rw [hwidth, ← h.coefficients r hr]
    exact List.length_map _

/-- A document whose labels can be written tells the program that is made of it. -/
theorem Agrees.tells (h : d.Agrees rows columns) (hclean : d.Clean) :
    d.Tells (d.toProgram : Program α) := by
  obtain ⟨hvalues, -⟩ := Header.counts_eq_ok_iff.mp h.header
  refine ⟨rfl, ?_, ?_, ?_, ?_, (rewritten_of_clean hclean.objective).symm, h.costs_toProgram.symm⟩
  · rw [h.height_toProgram]
    exact hvalues.1
  · rw [h.width_toProgram]
    exact hvalues.2
  · rw [h.columnLabels_toProgram, List.map_map]
    refine ((List.map_congr_left fun l hl => ?_).trans (List.map_id _)).symm
    exact rewritten_of_clean (hclean.columnLabels l hl)
  · show _ = (d.constraints.map ConstraintRecord.toConstraint).map rereadRow
    rw [List.map_map]
    refine List.map_congr_left fun r hr => ?_
    rw [Function.comp_apply, rereadRow, ConstraintRecord.toConstraint,
      rewritten_of_clean (hclean.constraints r hr)]

theorem Tells.clean_labels (h : d.Tells p) (hclean : d.Clean) :
    ∀ label ∈ p.labels, Format.Clean (Program.rewritten label) := by
  intro label hlabel
  rcases List.mem_append.mp hlabel with hlabel | hlabel
  · rcases List.mem_append.mp hlabel with hlabel | hlabel
    · obtain ⟨row, hrow, rfl⟩ := List.mem_map.mp hlabel
      have hmem : rereadRow row ∈ d.constraints.map ConstraintRecord.toConstraint :=
        h.constraints ▸ List.mem_map_of_mem hrow
      obtain ⟨r, hr, heq⟩ := List.mem_map.mp hmem
      have hlabel : r.label = Program.rewritten row.label :=
        Option.some.inj (congrArg Constraint.label heq)
      rw [← hlabel]
      exact hclean.constraints r hr
    · refine hclean.columnLabels _ ?_
      rw [h.columnLabels]
      exact List.mem_map_of_mem hlabel
  · obtain rfl := List.mem_singleton.mp hlabel
    rw [← h.objectiveLabel]
    exact hclean.objective

end Format.Document

/-! ### Texts -/

namespace Program

variable {α : Type} [Scalar α] {p : Program α} {text : String}

/-- What is known of a program that was read. -/
structure Read (p : Program α) : Prop where
  wellFormed : p.WellFormed
  reread_eq : p.reread = p
  oneLine : ∀ label ∈ p.labels, OneLine label
  counts : p.height < 2 ^ 63 ∧ p.width < 2 ^ 63

theorem read_of_ofText (h : Program.ofText text = .ok p) : p.Read := by
  obtain ⟨d, after, hread, ⟨rows, columns, hagrees⟩, rfl⟩ := ofText_eq_ok_iff.mp h
  have hclean := gives_document _ d after hread
  have htells : d.Tells (d.toProgram : Program α) := hagrees.tells hclean
  have hwf : (d.toProgram : Program α).WellFormed := hagrees.wellFormed_toProgram
  exact
    { wellFormed := hwf
      reread_eq := htells.toProgram_eq.symm
      oneLine := fun label hlabel =>
        clean_rewritten_iff.mp (htells.clean_labels hclean label hlabel)
      counts := (htells.agrees_iff hwf).mp ⟨rows, columns, hagrees⟩ }

variable [NumberText α]

theorem ofText_finiteText_iff (hback : NumberText.ReadsBack α) (hwf : p.WellFormed)
    (hfinite : ∀ x ∈ p.numbers, NumberText.isFinite x) (hlabels : ∀ label ∈ p.labels, OneLine label) :
    Program.ofText p.finiteText = .ok p.reread ↔ p.height < 2 ^ 63 ∧ p.width < 2 ^ 63 := by
  have hwritable : p.Writable := writable_of_finite hwf.width_pos hfinite fun label hlabel =>
    clean_rewritten_iff.mpr (hlabels label hlabel)
  have hrest : (Cursor.ofText p.finiteText).rest = p.finiteText.toList ++ [] := by
    rw [Cursor.ofText, List.append_nil]
  obtain ⟨d, htells, hread⟩ := takes_document hback hwritable _ hrest
  rw [← htells.agrees_iff hwf, ofText_eq_ok_iff]
  constructor
  · rintro ⟨d', after, hread', hagrees, -⟩
    rw [hread] at hread'
    obtain ⟨rfl, -⟩ := Prod.mk.inj (Option.some.inj hread')
    exact hagrees
  · intro hagrees
    exact ⟨d, _, hread, hagrees, htells.toProgram_eq⟩

end Program

/-! ### Programs in doubles -/

namespace Program

variable {p : Program Float} {text written : String}

deriving instance DecidableEq for Constraint, Decision, Program

/-- A program in finite doubles has a text, and the text is read as the program, with its labels
rewritten, exactly if no label has a line break and the counts are signed words of 64 bits. -/
theorem ofText_toText_iff (hwf : p.WellFormed) (hfinite : ∀ x ∈ p.numbers, NumberText.isFinite x) :
    ∃ text, p.toText = .ok text ∧
      (Program.ofText text = .ok p.reread ↔
        (∀ label ∈ p.labels, OneLine label) ∧ p.height < 2 ^ 63 ∧ p.width < 2 ^ 63) := by
  refine ⟨p.finiteText, toText_eq_ok_iff.mpr ⟨hfinite, rfl⟩, ?_⟩
  constructor
  · intro h
    -- The labels of what was read have no line break, and rewriting a label keeps its line breaks.
    have hlabels : ∀ label ∈ p.labels, OneLine label := by
      intro label hlabel
      have hmem : some (rewritten label) ∈ p.reread.labels := by
        rw [labels_reread]
        exact List.mem_map_of_mem hlabel
      have hclean := clean_rewritten_iff.mpr ((read_of_ofText h).oneLine _ hmem)
      rw [rewritten_rewritten] at hclean
      exact clean_rewritten_iff.mp hclean
    exact ⟨hlabels, (ofText_finiteText_iff readsBack_float hwf hfinite hlabels).mp h⟩
  · rintro ⟨hlabels, hcounts⟩
    exact (ofText_finiteText_iff readsBack_float hwf hfinite hlabels).mpr hcounts

/-- A solved program with quotes in a label and with labels that are missing. -/
def soldOut : Program Float :=
  { direction := .minimize
    rows := [⟨[1, -2.5], .greaterEq, 3, some "at \"least\""⟩, ⟨[0, 0.1], .equal, 1, none⟩]
    decisions := [⟨2, some "x # 1"⟩, ⟨3, none⟩]
    objectiveLabel := some "cost"
    solution := [28, 10]
    objectiveValue := 86 }

def soldOutText : String :=
  "minimize\n2,2\n\"x # 1\",\"\"\n\"at 'least'\",1,-2.5,>=,3\n\"\",0,0.1,==,1\n\"cost\",2,3\n"

theorem ofText_toText_soldOut :
    soldOut.toText = .ok soldOutText ∧ Program.ofText soldOutText = .ok soldOut.reread := by
  have hwf : soldOut.WellFormed := ⟨by decide, by decide, by decide, by decide⟩
  have hfinite : ∀ x ∈ soldOut.numbers, NumberText.isFinite x := by decide +kernel
  have hlabels : ∀ label ∈ soldOut.labels, OneLine label := by
    simp [soldOut, labels, rowLabels, columnLabels, OneLine]
  have htext : soldOut.toText = .ok soldOutText := by decide +kernel
  obtain ⟨text, htoText, hiff⟩ := ofText_toText_iff hwf hfinite
  obtain rfl := Except.ok.inj (htext.symm.trans htoText)
  exact ⟨htext, hiff.mpr ⟨hlabels, by decide, by decide⟩⟩

/-- A program whose row has a label on two lines. -/
def twoLines : Program Float :=
  { direction := .maximize
    rows := [⟨[0], .lessEq, 0, some "a\nb"⟩]
    decisions := [⟨0, some "x"⟩]
    objectiveLabel := some "z"
    solution := [0]
    objectiveValue := 0 }

def twoLinesText : String := "maximize\n1,1\n\"x\"\n\"a\nb\",0,<=,0\n\"z\",0\n"

theorem ofText_toText_twoLines :
    twoLines.WellFormed ∧ (∀ x ∈ twoLines.numbers, NumberText.isFinite x) ∧
      twoLines.toText = .ok twoLinesText ∧
      (Program.ofText twoLinesText : Except Error (Program Float))
        = .error (.malformed 4 (.unexpected [.label])) := by
  refine ⟨⟨by decide, by decide, by decide, by decide⟩, ?_, ?_, ?_⟩ <;> decide +kernel

/-- Writing a program that was read gives a text that is read as the same program and written as the
same text. -/
theorem ofText_toText_of_ofText (hread : Program.ofText text = .ok p)
    (hwrite : p.toText = .ok written) :
    ∃ q : Program Float, Program.ofText written = .ok q ∧ q = p ∧ q.toText = .ok written := by
  obtain ⟨hfinite, rfl⟩ := toText_eq_ok_iff.mp hwrite
  have h := read_of_ofText hread
  have hagain := (ofText_finiteText_iff readsBack_float h.wellFormed hfinite h.oneLine).mpr h.counts
  rw [h.reread_eq] at hagain
  exact ⟨p, hagain, rfl, hwrite⟩

/-- One plant with two products. -/
def plant : Program Float :=
  { direction := .maximize
    rows := [⟨[10, -0.5], .equal, 3, some "r, s"⟩]
    decisions := [⟨0, some "x#1"⟩, ⟨1.5, some "y"⟩]
    objectiveLabel := some "z"
    solution := [0, 0]
    objectiveValue := 0 }

/-- The plant as a person may write it. -/
def plantNotes : String :=
  "# one plant\n\nMAXIMIZE\r\n 1 , +2 \n\"x#1\" , \"y\"\n"
    ++ "\"r, s\", 1e1, -.5 , = , +3 # hours\r\"z\",0,1.50"

def plantText : String := "maximize\n1,2\n\"x#1\",\"y\"\n\"r, s\",10,-0.5,==,3\n\"z\",0,1.5\n"

theorem ofText_toText_plant :
    Program.ofText plantNotes = .ok plant ∧ plant.toText = .ok plantText ∧
      Program.ofText plantText = .ok plant := by
  have hread : Program.ofText plantNotes = .ok plant := by decide +kernel
  have hwrite : plant.toText = .ok plantText := by decide +kernel
  obtain ⟨q, hagain, rfl, -⟩ := ofText_toText_of_ofText hread hwrite
  exact ⟨hread, hwrite, hagain⟩

end Program

end LinProg
