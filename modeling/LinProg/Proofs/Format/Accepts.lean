import LinProg.Proofs.Format.RoundTrip
import LinProg.Proofs.Format.Sheet

/-!
# Which texts are programs

A text is a program exactly if its lines are those of a sheet, the counts of the sheet are positive
words, and the records are as many and as long as the counts say. The program then holds what the
records say, in their order, and it is not solved.
-/

namespace LinProg

open LinProg.Format

variable {α : Type} [Scalar α]

namespace Format

structure Statement.Describes (x : Statement α) (p : Program α) : Prop where
  direction : p.direction = x.direction
  counts : x.counts = (↑p.height, ↑p.width)
  columnLabels : p.columnLabels = x.columnLabels.map some
  rows : p.rows = x.rows
  objectiveLabel : p.objectiveLabel = some x.objective.1
  costs : p.costs = x.objective.2
  positive : 0 < p.height ∧ 0 < p.width
  words : p.height < 2 ^ 63 ∧ p.width < 2 ^ 63
  coefficients : ∀ row ∈ p.rows, row.coefficients.length = p.width
  unsolved : p.solution = List.replicate p.width 0 ∧ p.objectiveValue = 0

variable {x : Statement α} {d : Document} {p q : Program α}

omit [Scalar α] in
theorem decisions_eq_of_columns (hlabels : p.columnLabels = q.columnLabels)
    (hcosts : p.costs = q.costs) : p.decisions = q.decisions := by
  have hpair (r : Program α) : r.decisions = (r.costs.zip r.columnLabels).map fun field =>
      (⟨field.1, field.2⟩ : Decision α) := by
    rw [Program.costs, Program.columnLabels, List.zip_map', List.map_map]
    exact (List.map_id _).symm
  rw [hpair p, hpair q, hlabels, hcosts]

/-- A statement describes no two programs. -/
theorem Statement.Describes.eq (hp : x.Describes p) (hq : x.Describes q) : p = q := by
  have hdecisions := decisions_eq_of_columns (hp.columnLabels.trans hq.columnLabels.symm)
    (hp.costs.trans hq.costs.symm)
  have hsolution : p.solution = q.solution := by
    rw [hp.unsolved.1, hq.unsolved.1, Program.width, Program.width, hdecisions]
  cases p
  cases q
  exact (Program.mk.injEq ..).mpr ⟨hp.direction.trans hq.direction.symm,
    hp.rows.trans hq.rows.symm, hdecisions, hp.objectiveLabel.trans hq.objectiveLabel.symm,
    hsolution, hp.unsolved.2.trans hq.unsolved.2.symm⟩

theorem Document.Agrees.describes {rows columns : Nat} (h : d.Agrees rows columns) :
    (d.statement : Statement α).Describes d.toProgram := by
  obtain ⟨hvalues, -, hwords⟩ := Header.counts_eq_ok_iff.mp h.header
  have hwf := h.wellFormed_toProgram (α := α)
  have hheight := h.height_toProgram (α := α)
  have hwidth := h.width_toProgram (α := α)
  exact
    { direction := rfl
      counts := by rw [hheight, hwidth]; exact Prod.ext hvalues.1 hvalues.2
      columnLabels := h.columnLabels_toProgram
      rows := rfl
      objectiveLabel := rfl
      costs := h.costs_toProgram
      positive := ⟨hwf.height_pos, hwf.width_pos⟩
      words := by rwa [hheight, hwidth]
      coefficients := hwf.row_length
      unsolved := ⟨rfl, rfl⟩ }

theorem Statement.Describes.agrees (h : (d.statement : Statement α).Describes p) :
    d.Agrees p.height p.width where
  header := Header.counts_eq_ok_iff.mpr
    ⟨⟨congrArg Prod.fst h.counts, congrArg Prod.snd h.counts⟩, h.positive, h.words⟩
  columnLabels := by
    have hlength := congrArg List.length h.columnLabels
    rw [Program.columnLabels, List.length_map, List.length_map] at hlength
    exact hlength.symm
  constraints := by
    have hlength := congrArg List.length h.rows
    exact (hlength.trans (List.length_map _)).symm
  coefficients r hr := by
    have hmem : r.toConstraint ∈ p.rows := h.rows ▸ List.mem_map_of_mem hr
    rw [← h.coefficients _ hmem]
    exact (List.length_map _).symm
  costs := by
    have hlength := congrArg List.length h.costs
    rw [Program.costs, List.length_map] at hlength
    exact (hlength.trans (List.length_map _)).symm

theorem Document.describes_iff :
    (d.statement : Statement α).Describes p ↔
      (∃ rows columns, d.Agrees rows columns) ∧ d.toProgram = p := by
  constructor
  · intro h
    exact ⟨⟨_, _, h.agrees⟩, h.agrees.describes.eq h⟩
  · rintro ⟨⟨rows, columns, hagrees⟩, rfl⟩
    exact hagrees.describes

end Format

/-- The texts of a program, with nothing said about how a parser goes through them. -/
theorem Program.ofText_eq_ok_iff_sheet {text : String} {p : Program α} :
    Program.ofText text = .ok p ↔ ∃ (s : Sheet) (x : Statement α),
      contents text.toList = s.lines ∧ s.Says x ∧ x.Describes p := by
  rw [ofText_eq_ok_iff]
  constructor
  · rintro ⟨d, after, hread, hagrees⟩
    obtain ⟨s, hcontents, hsheet⟩ := sheet_of_read (α := α) hread
    exact ⟨s, d.statement, hcontents, hsheet, Document.describes_iff.mpr hagrees⟩
  · rintro ⟨s, x, hcontents, hsheet, hdescribes⟩
    obtain ⟨d, after, hread, rfl⟩ := exists_read_document (c := .ofText text) hcontents hsheet
    exact ⟨d, after, hread, Document.describes_iff.mp hdescribes⟩

end LinProg
