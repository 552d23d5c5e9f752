import LinProg.Proofs.Format.RecordPlaces

/-!
# A text as a sheet of records

A text fits the grammar exactly if its lines are those of a sheet: a direction, the counts, the
column labels, any number of rows and an objective. No choice of the parser loses a sheet: the rows
end at the objective, which is never read as a row, and each record takes all of its line.
-/

namespace LinProg.Format

open LinProg.Format.Parser LinProg.Format.Grammar

/-! ### One record -/

section Records

variable {β γ : Type} {p : Parser β} {said : β → γ} {L : List Char → γ → Prop} {c after : Cursor}

theorem BlankAhead.congr {text text' : List Char} (h : BlankAhead text)
    (heq : ungapped text' = ungapped text) : BlankAhead text' := by
  unfold BlankAhead
  rwa [heq]

theorem contents_congr {text text' : List Char} (heq : ungapped text' = ungapped text) :
    contents text' = contents text := by
  rw [← contents_ungapped, heq, contents_ungapped]

theorem LineOf.lineFeeds_of_read (hp : LineOf p said L) {v : β} (h : (next p).read c = some (v, after)) :
    Cursor.lineFeeds after.rest = Cursor.lineFeeds c.rest := by
  obtain ⟨line, behind, hrest, hline, hbehind⟩ := hp.reads h
  have hnone := (hp.solid hline).onLine.lineFeeds
  have hungapped : ungapped c.rest = line ++ behind := hrest
  rw [← lineFeeds_ungapped, hbehind, lineFeeds_ungapped, ← lineFeeds_ungapped c.rest, hungapped]
  unfold Cursor.lineFeeds at hnone ⊢
  rw [List.count_append, hnone, Nat.zero_add]

/-- The record that was read comes first, on the line where it was looked for. -/
theorem LineOf.records_of_read (hp : LineOf p said L) (hkeeps : p.KeepsLastLine) {v : β}
    (h : (next p).read c = some (v, after)) (hblank : BlankAhead after.rest) :
    ∃ line, L line (said v) ∧ c.records = (c.line, line) :: after.records := by
  have hsame : after.line = c.line := by
    have hlast := hkeeps.next c v after h
    have hfeeds := hp.lineFeeds_of_read h
    unfold Cursor.lastLine at hlast
    omega
  obtain ⟨line, behind, hrest, hline, hbehind⟩ := hp.reads h
  have hsolid := hp.solid hline
  obtain ⟨spaces, hspaces, htext⟩ := exists_spaces_of_ungapped hsolid.begins hrest
  refine ⟨line, hline, ?_⟩
  unfold Cursor.records
  rw [htext, recordsFrom_record _ hspaces hsolid (hblank.congr hbehind.symm), hsame,
    recordsFrom_congr _ hbehind]

theorem LineOf.exists_read (hp : LineOf p said L) {line : List Char} {others : List (List Char)}
    {w : γ} (hat : AtRecord c.rest) (hcontents : contents c.rest = line :: others)
    (hline : L line w) :
    ∃ v after, said v = w ∧ (next p).read c = some (v, after) ∧ BlankAhead after.rest ∧
      contents after.rest = others := by
  obtain ⟨spaces, rest, hspaces, htext, hblank, hothers⟩ := exists_record hat hcontents
  have hrest : c.skipGap.rest = line ++ rest := by
    rw [Cursor.rest_skipGap, htext, ungapped_record hspaces (hp.solid hline).begins]
  obtain ⟨v, after, hv, hread, hafter⟩ := hp.takes hline hblank hrest
  exact ⟨v, after, hv, hread, hblank.congr hafter, (contents_congr hafter).trans hothers⟩

end Records

/-! ### Line ends -/

section LineEnds

variable {c after : Cursor} {ends : List Unit}

theorem read_lineEnd (c : Cursor) :
    lineEnd.read c = (lineEndLength? c.rest).map fun n => ((), c.advance n) := by
  show ((lineEndLength? c.rest).map ((), ·)).map _ = _
  rw [Option.map_map]
  rfl

theorem progress_lineEnd : lineEnd.Progress := by
  intro c v after h
  rw [read_lineEnd] at h
  obtain ⟨n, hn, heq⟩ := Option.map_eq_some_iff.mp h
  obtain ⟨-, rfl⟩ := Prod.mk.inj heq
  obtain ⟨-, hpos, hle⟩ := lineEndLength?_bounds hn
  rw [Cursor.rest_advance, List.length_drop]
  omega

theorem contents_of_records {c c' : Cursor} (h : c'.records = c.records) :
    contents c'.rest = contents c.rest := by
  rw [← c'.map_snd_records, h, c.map_snd_records]

theorem records_of_lineEnd (h : (next lineEnd).read c = some ((), after)) :
    BlankAhead c.rest ∧ after.records = c.records := by
  rw [read_next, read_lineEnd] at h
  obtain ⟨n, hn, heq⟩ := Option.map_eq_some_iff.mp h
  obtain ⟨-, rfl⟩ := Prod.mk.inj heq
  refine ⟨(lineEndLength?_bounds hn).1, ?_⟩
  have hgap : c.skipGap.records = c.records :=
    Cursor.records_congr (c.lastLine_advance _) (ungapped_ungapped c.rest)
  rw [← hgap]
  exact recordsFrom_lineEnd c.skipGap.line hn

theorem records_of_lineEnds (h : (next (several lineEnd)).read c = some (ends, after)) :
    AtRecord after.rest ∧ after.records = c.records := by
  obtain ⟨last, hchain, hend, hafter⟩ := chain_of_several progress_lineEnd h
  constructor
  · rw [read_next, read_lineEnd, Option.map_eq_none_iff] at hend
    unfold AtRecord
    rwa [hafter]
  · have hlast : after.lastLine = last.lastLine :=
      (keepsLastLine_lineEnd.several.next c ends after h).trans
        (hchain.lastLine_eq keepsLastLine_lineEnd.next).symm
    rw [Cursor.records_congr hlast hafter]
    clear hend hafter hlast h
    induction hchain with
    | nil => rfl
    | cons hread _ ih => rw [ih, (records_of_lineEnd hread).2]

theorem exists_lineEnds (c : Cursor) :
    ∃ ends after, (next (several lineEnd)).read c = some (ends, after) := by
  obtain ⟨ends, -, after, hread, -⟩ := exists_chain_several progress_lineEnd c
  exact ⟨ends, after, hread⟩

theorem newLine_of_read (h : (next (several1 lineEnd)).read c = some (ends, after)) :
    BlankAhead c.rest ∧ AtRecord after.rest ∧ after.records = c.records := by
  rw [read_next, several1] at h
  obtain ⟨⟨⟩, between, hfirst, h⟩ := read_bind_eq_some_iff.mp h
  obtain ⟨others, last, hothers, h⟩ := read_bind_eq_some_iff.mp h
  obtain ⟨-, rfl⟩ := Prod.mk.inj (Option.some.inj h)
  obtain ⟨hblank, hsame⟩ := records_of_lineEnd hfirst
  obtain ⟨hat, hsame'⟩ := records_of_lineEnds hothers
  exact ⟨hblank, hat, hsame'.trans hsame⟩

/-- Behind a record, a text that says more goes on with a new line. -/
theorem exists_newLine (hblank : BlankAhead c.rest) (hmore : contents c.rest ≠ []) :
    ∃ ends after, (next (several1 lineEnd)).read c = some (ends, after) := by
  cases hend : lineEndLength? (ungapped c.rest) with
  | none => exact absurd (contents_of_ungapped_eq_nil (eq_nil_of_atEnd hblank hend)) hmore
  | some n =>
      have hfirst : lineEnd.read c.skipGap = some ((), c.skipGap.advance n) := by
        rw [read_lineEnd, Cursor.rest_skipGap, hend]
        rfl
      obtain ⟨others, after, hothers⟩ := exists_lineEnds (c.skipGap.advance n)
      refine ⟨() :: others, after, ?_⟩
      rw [read_next, several1, read_bind_of_some hfirst, read_bind_of_some hothers, read_pure]

end LineEnds

/-! ### The rows -/

section Rows

variable {α : Type} [Scalar α] {c last : Cursor} {rs : List ConstraintRecord}

/-- A row on a line of its own. -/
def row : Parser ConstraintRecord := do
  let _ ← several1 lineEnd
  next constraint

theorem progress_row : row.Progress := by
  have hlabel : label.Forward := tokens_label.progress.forward
  have hlisted : (next (Grammar.listed number)).Forward := Forward.several tokens_number.progress_field
  have hcomma : (next comma).Forward := progress_comma.forward.next
  have hconstraint : constraint.Forward :=
    Forward.rule _ <| forward_line.bind fun _ => hlabel.bind fun _ => hlisted.bind fun _ =>
      hcomma.bind fun _ => tokens_relation.progress.forward.next.bind fun _ => hcomma.bind fun _ =>
        tokens_number.progress.forward.next.bind fun _ => forward_pure _
  have hends : (several1 lineEnd).Progress :=
    progress_lineEnd.bind fun _ => (Forward.several progress_lineEnd).bind fun _ => forward_pure _
  exact hends.bind fun _ => hconstraint.next

theorem read_next_row_eq_some_iff {r : ConstraintRecord} :
    (next row).read c = some (r, last) ↔ ∃ ends between,
      (next (several1 lineEnd)).read c = some (ends, between) ∧
        (next constraint).read between = some (r, last) := by
  rw [read_next, row]
  exact read_bind_eq_some_iff

theorem keepsLastLine_row : row.KeepsLastLine :=
  keepsLastLine_lineEnd.several1.bind fun _ => keepsLastLine_constraint.next

/-- The rows that were read come first, each on the line that it has noted. -/
theorem records_of_rows (hchain : Chain (next row) c rs last) (hblank : BlankAhead last.rest) :
    BlankAhead c.rest ∧ ∃ lines, c.records = (rs.map (·.line)).zip lines ++ last.records ∧
      List.Forall₂ ConstraintLine lines (rs.map fun r => (r.toConstraint : Constraint α)) := by
  -- From the last row backwards: that a row ends its line is known from what follows it.
  induction hchain with
  | nil => exact ⟨hblank, [], rfl, .nil⟩
  | cons hread _ ih =>
      obtain ⟨hahead, lines, hlines, hrows⟩ := ih hblank
      obtain ⟨ends, between, hends, hconstraint⟩ := read_next_row_eq_some_iff.mp hread
      obtain ⟨hstart, -, hsame⟩ := newLine_of_read hends
      obtain ⟨line, hline, hrecords⟩ := (lineOf_constraint (α := α)).records_of_read
        keepsLastLine_constraint hconstraint hahead
      refine ⟨hstart, line :: lines, ?_, .cons hline hrows⟩
      rw [← hsame, hrecords, hlines, ← line_of_read_constraint hconstraint]
      rfl

theorem exists_rows {lines others : List (List Char)} {line : List Char}
    {rows : List (Constraint α)} (hrows : List.Forall₂ ConstraintLine lines rows)
    (hblank : BlankAhead c.rest) (hcontents : contents c.rest = lines ++ line :: others) :
    ∃ rs last, rs.map ConstraintRecord.toConstraint = rows ∧ Chain (next row) c rs last ∧
      BlankAhead last.rest ∧ contents last.rest = line :: others := by
  induction hrows generalizing c with
  | nil => exact ⟨[], c, rfl, .nil c, hblank, hcontents⟩
  | cons hline _ ih =>
      rw [List.cons_append] at hcontents
      obtain ⟨ends, between, hends⟩ := exists_newLine hblank (hcontents ▸ List.cons_ne_nil _ _)
      obtain ⟨-, hat, hsame⟩ := newLine_of_read hends
      obtain ⟨r, after, rfl, hread, hahead, hrest⟩ :=
        lineOf_constraint.exists_read hat ((contents_of_records hsame).trans hcontents) hline
      obtain ⟨rs, last, rfl, hchain, hlast⟩ := ih hahead hrest
      exact ⟨r :: rs, last, rfl, .cons (read_next_row_eq_some_iff.mpr ⟨ends, between, hends, hread⟩)
        hchain, hlast⟩

/-- The objective is not a row: nothing follows its costs. -/
theorem read_constraint_of_objective {line : List Char} {others : List (List Char)}
    {label : String} {costs : List α} (hat : AtRecord c.rest)
    (hcontents : contents c.rest = line :: others) (hline : ObjectiveLine line label costs) :
    (next constraint).read c = none := by
  have hsolid : Solid line := lineOf_objective.solid (w := (label, costs)) hline
  obtain ⟨spaces, rest, hspaces, htext, hblank, -⟩ := exists_record hat hcontents
  have hrest := ungapped_record hspaces hsolid.begins rest
  rw [← htext, ← Cursor.rest_skipGap] at hrest
  obtain ⟨htoken, hvalues, hfields⟩ := hline
  obtain ⟨ds, hdecimals, -⟩ := forall₂_numberSpelled_iff.mp hvalues
  obtain ⟨c₁, c₂, hlabel, hlisted, hlast⟩ := exists_read_labelled tokens_number htoken hdecimals
    hfields hblank.endsToken (fun _ => read_field_of_blankAhead number hblank) hrest
  rw [read_next, constraint, read_rule, read_line_bind, read_bind_of_some hlabel,
    read_bind_of_some hlisted, read_bind, read_comma_eq_none hlast hblank, Option.bind_none]

theorem read_row_of_objective {line : List Char} {others : List (List Char)}
    {label : String} {costs : List α} (hcontents : contents c.rest = line :: others)
    (hline : ObjectiveLine line label costs) : (next row).read c = none := by
  rw [Option.eq_none_iff_forall_ne_some]
  rintro ⟨r, after⟩ h
  obtain ⟨ends, between, hends, hconstraint⟩ := read_next_row_eq_some_iff.mp h
  obtain ⟨-, hat, hsame⟩ := newLine_of_read hends
  rw [read_constraint_of_objective hat ((contents_of_records hsame).trans hcontents) hline]
    at hconstraint
  cases hconstraint

end Rows

/-! ### The whole text -/

/-- The lines of a text, one for each record. -/
structure Sheet where
  direction : List Char
  dimensions : List Char
  columnLabels : List Char
  constraints : List (List Char)
  objective : List Char

def Sheet.lines (s : Sheet) : List (List Char) :=
  s.direction :: s.dimensions :: s.columnLabels :: (s.constraints ++ [s.objective])

/-- What the records say. -/
structure Statement (α : Type) where
  direction : Direction
  counts : Int × Int
  columnLabels : List String
  rows : List (Constraint α)
  objective : String × List α

section Documents

variable {α : Type} [Scalar α]

/-- Each line of the sheet is a way to write its record. -/
structure Sheet.Says (s : Sheet) (x : Statement α) : Prop where
  direction : DirectionSpelled s.direction x.direction
  dimensions : DimensionsLine s.dimensions x.counts.1 x.counts.2
  columnLabels : LabelsLine s.columnLabels x.columnLabels
  rows : List.Forall₂ ConstraintLine s.constraints x.rows
  objective : ObjectiveLine s.objective x.objective.1 x.objective.2

def Document.statement (d : Document) : Statement α :=
  { direction := d.direction
    counts := d.header.values
    columnLabels := d.columnLabels
    rows := d.constraints.map ConstraintRecord.toConstraint
    objective := (d.objective.label, d.objective.costs.map Scalar.ofDecimal) }

variable {c after : Cursor}

theorem blankAhead_of_lineEnds {ends : List Unit}
    (h : (next (several lineEnd)).read c = some (ends, after)) (hblank : BlankAhead after.rest) :
    BlankAhead c.rest := by
  obtain ⟨last, hchain, -, hafter⟩ := chain_of_several progress_lineEnd h
  cases hchain with
  | nil => exact hblank.congr hafter.symm
  | cons hread _ => exact (records_of_lineEnd hread).1

theorem ungapped_eq_nil_of_endOfInput {u : Unit} (h : (next endOfInput).read c = some (u, after)) :
    ungapped c.rest = [] := by
  rw [read_next] at h
  obtain ⟨found, hfound, -⟩ := Option.map_eq_some_iff.mp h
  by_contra hne
  dsimp only at hfound
  rw [Cursor.rest_skipGap, if_neg (by simpa using hne)] at hfound
  cases hfound

theorem read_endOfInput_of_ungapped (h : ungapped c.rest = []) :
    (next endOfInput).read c = some ((), c.skipGap) := by
  rw [read_next]
  show (if c.skipGap.rest.isEmpty then some ((), 0) else none).map _ = _
  rw [Cursor.rest_skipGap, h]
  exact congrArg (fun last => some ((), last)) c.skipGap.advance_zero

/-- The records of a text that was read. The lines of the direction and of the column labels are not
noted. -/
theorem records_of_document {d : Document} (h : document.read c = some (d, after)) :
    ∃ (s : Sheet) (first third : Nat), c.records =
        (first, s.direction) :: (d.header.line, s.dimensions) :: (third, s.columnLabels)
          :: ((d.constraints.map (·.line)).zip s.constraints ++ [(d.objective.line, s.objective)]) ∧
      s.Says (d.statement : Statement α) := by
  rw [document, read_rule] at h
  obtain ⟨_, c₁, hstart, h⟩ := read_bind_eq_some_iff.mp h
  obtain ⟨direction, c₂, hdirection, h⟩ := read_bind_eq_some_iff.mp h
  obtain ⟨_, c₃, hends₁, h⟩ := read_bind_eq_some_iff.mp h
  obtain ⟨header, c₄, hdimensions, h⟩ := read_bind_eq_some_iff.mp h
  obtain ⟨_, c₅, hends₂, h⟩ := read_bind_eq_some_iff.mp h
  obtain ⟨labels, c₆, hlabels, h⟩ := read_bind_eq_some_iff.mp h
  obtain ⟨rs, c₇, hrows, h⟩ := read_bind_eq_some_iff.mp h
  obtain ⟨_, c₈, hends₃, h⟩ := read_bind_eq_some_iff.mp h
  obtain ⟨objective, c₉, hobjective, h⟩ := read_bind_eq_some_iff.mp h
  obtain ⟨_, c₁₀, hfinal, h⟩ := read_bind_eq_some_iff.mp h
  obtain ⟨_, c₁₁, hend, h⟩ := read_bind_eq_some_iff.mp h
  obtain ⟨rfl, rfl⟩ := Prod.mk.inj (Option.some.inj h)
  -- Backwards from the end of the text, each record stands alone on its line.
  have hnothing : ungapped c₁₀.rest = [] := ungapped_eq_nil_of_endOfInput hend
  have hblank₉ : BlankAhead c₉.rest := by
    refine blankAhead_of_lineEnds hfinal ?_
    unfold BlankAhead
    rw [hnothing]
    exact nofun
  have hlast : c₉.records = [] := by
    rw [← (records_of_lineEnds hfinal).2]
    exact List.map_eq_nil_iff.mp
      (c₁₀.map_snd_records.trans (contents_of_ungapped_eq_nil hnothing))
  obtain ⟨objectiveLine, hobjectiveLine, h₈⟩ := (lineOf_objective (α := α)).records_of_read
    keepsLastLine_objective hobjective hblank₉
  obtain ⟨hblank₇, -, h₇⟩ := newLine_of_read hends₃
  obtain ⟨last, hchain, -, hlast₇⟩ := chain_of_several progress_row hrows
  obtain ⟨hblank₆, lines, h₆, hlines⟩ :=
    records_of_rows (α := α) hchain (hblank₇.congr hlast₇.symm)
  have hsame₇ : c₇.records = last.records := Cursor.records_congr
    ((keepsLastLine_row.several.next c₆ rs c₇ hrows).trans
      (hchain.lastLine_eq keepsLastLine_row.next).symm) hlast₇
  obtain ⟨labelsLine, hlabelsLine, h₅⟩ :=
    lineOf_columnLabels.records_of_read keepsLastLine_columnLabels hlabels hblank₆
  obtain ⟨hblank₄, -, h₄⟩ := newLine_of_read hends₂
  obtain ⟨dimensionsLine, hdimensionsLine, h₃⟩ :=
    lineOf_dimensions.records_of_read keepsLastLine_dimensions hdimensions hblank₄
  obtain ⟨hblank₂, -, h₂⟩ := newLine_of_read hends₁
  obtain ⟨directionLine, hdirectionLine, h₁⟩ :=
    lineOf_direction.records_of_read keepsLastLine_direction hdirection hblank₂
  refine ⟨⟨directionLine, dimensionsLine, labelsLine, lines, objectiveLine⟩, c₁.line, c₅.line, ?_,
    hdirectionLine, hdimensionsLine, hlabelsLine, hlines, hobjectiveLine⟩
  calc c.records
      = c₁.records := (records_of_lineEnds hstart).2.symm
    _ = (c₁.line, directionLine) :: c₃.records := by rw [h₁, h₂]
    _ = (c₁.line, directionLine) :: (header.line, dimensionsLine) :: c₅.records := by
      rw [h₃, h₄, line_of_read_dimensions hdimensions]
    _ = (c₁.line, directionLine) :: (header.line, dimensionsLine) :: (c₅.line, labelsLine)
          :: ((rs.map (·.line)).zip lines ++ c₈.records) := by
      rw [h₅, h₆, ← hsame₇, h₇]
    _ = (c₁.line, directionLine) :: (header.line, dimensionsLine) :: (c₅.line, labelsLine)
          :: ((rs.map (·.line)).zip lines ++ [(objective.line, objectiveLine)]) := by
      rw [h₈, hlast, line_of_read_objective hobjective]

theorem sheet_of_read {d : Document} (h : document.read c = some (d, after)) :
    ∃ s : Sheet, contents c.rest = s.lines ∧ s.Says (d.statement : Statement α) := by
  obtain ⟨s, first, third, hrecords, hsheet⟩ := records_of_document (α := α) h
  have hlength : s.constraints.length ≤ (d.constraints.map (·.line)).length := by
    rw [hsheet.rows.length_eq, List.length_map]
    exact (List.length_map _).le
  refine ⟨s, ?_, hsheet⟩
  rw [← c.map_snd_records, hrecords]
  simp only [List.map_cons, List.map_append, List.map_snd_zip hlength, List.map_nil]
  rfl

theorem exists_read_document {s : Sheet} {x : Statement α} (hcontents : contents c.rest = s.lines)
    (hsheet : s.Says x) : ∃ d after, document.read c = some (d, after) ∧ d.statement = x := by
  obtain ⟨_, c₁, hstart⟩ := exists_lineEnds c
  obtain ⟨hat₁, h₁⟩ := records_of_lineEnds hstart
  obtain ⟨direction, c₂, hdirection, hread₁, hblank₂, h₂⟩ :=
    lineOf_direction.exists_read hat₁ ((contents_of_records h₁).trans hcontents) hsheet.direction
  obtain ⟨_, c₃, hends₁⟩ := exists_newLine hblank₂ (h₂ ▸ List.cons_ne_nil _ _)
  obtain ⟨-, hat₃, h₃⟩ := newLine_of_read hends₁
  obtain ⟨header, c₄, hheader, hread₃, hblank₄, h₄⟩ :=
    lineOf_dimensions.exists_read (w := x.counts) hat₃ ((contents_of_records h₃).trans h₂) hsheet.dimensions
  obtain ⟨_, c₅, hends₂⟩ := exists_newLine hblank₄ (h₄ ▸ List.cons_ne_nil _ _)
  obtain ⟨-, hat₅, h₅⟩ := newLine_of_read hends₂
  obtain ⟨labels, c₆, hlabels, hread₅, hblank₆, h₆⟩ :=
    lineOf_columnLabels.exists_read hat₅ ((contents_of_records h₅).trans h₄) hsheet.columnLabels
  obtain ⟨rs, last, hrows, hchain, hblankLast, hlast⟩ := exists_rows hsheet.rows hblank₆ h₆
  obtain ⟨c₇, hread₆, hlast₇⟩ := several_of_chain progress_row hchain
    (read_row_of_objective hlast hsheet.objective)
  unfold row at hread₆
  have h₇ : contents c₇.rest = [s.objective] := (contents_congr hlast₇).trans hlast
  obtain ⟨_, c₈, hends₃⟩ :=
    exists_newLine (hblankLast.congr hlast₇) (h₇ ▸ List.cons_ne_nil _ _)
  obtain ⟨-, hat₈, h₈⟩ := newLine_of_read hends₃
  obtain ⟨objective, c₉, hobjective, hread₈, -, h₉⟩ :=
    lineOf_objective.exists_read (w := x.objective) hat₈ ((contents_of_records h₈).trans h₇) hsheet.objective
  obtain ⟨_, c₁₀, hfinal⟩ := exists_lineEnds c₉
  obtain ⟨hat₁₀, h₁₀⟩ := records_of_lineEnds hfinal
  have hend := read_endOfInput_of_ungapped (ungapped_eq_nil_of_contents hat₁₀
    ((contents_of_records h₁₀).trans h₉))
  refine ⟨⟨direction, header, labels, rs, objective⟩, c₁₀.skipGap, ?_, ?_⟩
  · rw [document, read_rule, read_bind_of_some hstart, read_bind_of_some hread₁,
      read_bind_of_some hends₁, read_bind_of_some hread₃, read_bind_of_some hends₂,
      read_bind_of_some hread₅, read_bind_of_some hread₆, read_bind_of_some hends₃,
      read_bind_of_some hread₈, read_bind_of_some hfinal, read_bind_of_some hend, read_pure]
  · obtain rfl : direction = x.direction := hdirection
    obtain rfl : labels = x.columnLabels := hlabels
    rw [Document.statement, hheader, hrows, hobjective]

end Documents

end LinProg.Format
