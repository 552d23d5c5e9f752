import LinProg.Proofs.Format.Accepts

/-!
# The line of a count error

Of the records that do not fit the counts of the header, the reader complains about the first one in
a fixed order: the column labels, the objective if there are too many or too few rows in front of it,
the rows, and the objective itself. The line it gives is the one of the record. Only the column labels
are taken to be on the line behind the header, whatever stands between the two.
-/

namespace LinProg

open LinProg.Format LinProg.Format.Parser

namespace Format

/-- The lines on which the records of a text start. -/
def recordLines (text : String) : List Nat := (recordsFrom 1 text.toList).map Prod.fst

/-! ### Misfits -/

/-- The complaint about a count, if it is not as expected, with the place of its record among all
records. -/
def misfit (i expected found : Nat) (complaint : Nat → Nat → Complaint) : List (Nat × Complaint) :=
  if expected = found then [] else [(i, complaint expected found)]

/-- All complaints about the counts, in the order in which they are looked for. -/
def Statement.misfits {α : Type} (rows columns : Nat) (x : Statement α) : List (Nat × Complaint) :=
  let last := 3 + x.rows.length
  misfit 2 columns x.columnLabels.length .columnLabels
    ++ (misfit last rows x.rows.length .constraintRows
      ++ ((x.rows.zipIdx 3).flatMap (fun (r, i) =>
          misfit i columns r.coefficients.length .coefficients)
        ++ misfit last columns x.objective.2.length .objectiveCoefficients))

section Checks

variable {line? : Nat → Option Nat} {check check' : Except Error Unit}
  {misfits misfits' : List (Nat × Complaint)}

/-- A check that fails with the first of the complaints, on the line of its record. -/
def Reports (line? : Nat → Option Nat) (check : Except Error Unit) : List (Nat × Complaint) → Prop
  | [] => check = .ok ()
  | (i, complaint) :: _ => ∃ line, line? i = some line ∧ check = .error (.malformed line complaint)

theorem Reports.bind (h : Reports line? check misfits) (h' : Reports line? check' misfits') :
    Reports line? (check >>= fun _ => check') (misfits ++ misfits') := by
  cases misfits with
  | nil =>
      obtain rfl : check = .ok () := h
      exact h'
  | cons first others =>
      obtain ⟨line, hline, rfl⟩ := h
      exact ⟨line, hline, rfl⟩

theorem reports_checkCount {i line : Nat} (hline : line? i = some line) (expected found : Nat)
    (complaint : Nat → Nat → Complaint) :
    Reports line? (checkCount line expected found complaint) (misfit i expected found complaint) := by
  unfold checkCount misfit
  by_cases h : expected = found
  · rw [if_pos h, if_pos h]
    rfl
  · rw [if_neg h, if_neg h]
    exact ⟨line, hline, rfl⟩

theorem reports_rows {α : Type} [Scalar α] (columns first : Nat) (rs : List ConstraintRecord)
    (hlines : ∀ k, k < rs.length → line? (first + k) = (rs.map (·.line))[k]?) :
    Reports line?
      (rs.forM fun r => checkCount r.line columns r.coefficients.length .coefficients)
      (((rs.map fun r => (r.toConstraint : Constraint α)).zipIdx first).flatMap fun (r, i) =>
        misfit i columns r.coefficients.length .coefficients) := by
  induction rs generalizing first with
  | nil => rfl
  | cons r rs ih =>
      have hlength : (r.toConstraint : Constraint α).coefficients.length = r.coefficients.length :=
        List.length_map _
      have hrest := ih (first + 1) fun k hk => by
        rw [Nat.add_assoc, Nat.add_comm 1]
        exact hlines (k + 1) (Nat.succ_lt_succ hk)
      rw [List.map_cons, List.zipIdx_cons, List.flatMap_cons]
      dsimp only
      rw [hlength]
      exact (reports_checkCount (hlines 0 (Nat.zero_lt_succ _)) _ _ _).bind hrest

end Checks

section Documents

variable {α : Type} [Scalar α] {d : Document} {rows columns : Nat}

/-- The line that is given for the record at a place. -/
def Document.reportedLine? (d : Document) : Nat → Option Nat
  | 0 | 1 => none
  | 2 => some (d.header.line + 1)
  | k + 3 => (d.constraints.map (·.line) ++ [d.objective.line])[k]?

theorem Document.reportedLine?_row {k : Nat} (hk : k < d.constraints.length) :
    d.reportedLine? (3 + k) = (d.constraints.map (·.line))[k]? := by
  have hlength : k < (d.constraints.map (·.line)).length := by rwa [List.length_map]
  rw [Nat.add_comm, reportedLine?, List.getElem?_append_left hlength]

theorem Document.reportedLine?_objective :
    d.reportedLine? (3 + d.constraints.length) = some d.objective.line := by
  rw [Nat.add_comm, reportedLine?, ← List.length_map ConstraintRecord.line,
    List.getElem?_append_right le_rfl, Nat.sub_self]
  rfl

theorem Document.reports_check (hcounts : d.header.counts = .ok (rows, columns)) :
    Reports d.reportedLine? d.check ((d.statement : Statement α).misfits rows columns) := by
  have hrows : (d.statement : Statement α).rows.length = d.constraints.length := List.length_map _
  have hcosts : (d.statement : Statement α).objective.2.length = d.objective.costs.length :=
    List.length_map _
  have hlabels : d.reportedLine? 2 = some (d.header.line + 1) := rfl
  have hobjective := d.reportedLine?_objective
  unfold check Statement.misfits
  rw [hcounts, hrows, hcosts]
  exact (reports_checkCount hlabels _ _ _).bind ((reports_checkCount hobjective _ _ _).bind
    ((reports_rows columns 3 d.constraints fun k hk => reportedLine?_row hk).bind
      (reports_checkCount hobjective _ _ _)))

/-- All records but the direction and the column labels are on the lines that were noted. -/
theorem recordLines_of_read {text : String} {after : Cursor}
    (h : Grammar.document.read (.ofText text) = some (d, after)) :
    ∃ first third, recordLines text = first :: d.header.line :: third
      :: (d.constraints.map (·.line) ++ [d.objective.line]) := by
  obtain ⟨s, first, third, hrecords, hsheet⟩ := records_of_document (α := ℚ) h
  have hlength : (d.constraints.map (·.line)).length ≤ s.constraints.length := by
    rw [hsheet.rows.length_eq, List.length_map]
    exact (List.length_map _).ge
  refine ⟨first, third, ?_⟩
  show (Cursor.ofText text).records.map Prod.fst = _
  rw [hrecords]
  simp only [List.map_cons, List.map_append, List.map_fst_zip hlength, List.map_nil]

theorem getElem?_recordLines_iff {text : String} {after : Cursor}
    (h : Grammar.document.read (.ofText text) = some (d, after)) {i line : Nat}
    (hline : d.reportedLine? i = some line) :
    (recordLines text)[i]? = some line ↔
      (i = 2 → (recordLines text)[2]? = (recordLines text)[1]?.map (· + 1)) := by
  obtain ⟨first, third, hlines⟩ := recordLines_of_read h
  rw [hlines]
  match i, hline with
  | 2, hline =>
      obtain rfl := Option.some.inj hline
      simp
  | k + 3, hline =>
      have hrecord : (first :: d.header.line :: third
          :: (d.constraints.map (·.line) ++ [d.objective.line]))[k + 3]? = some line := hline
      exact iff_of_true hrecord (by omega)

end Documents

end Format

namespace Program

variable {α : Type} [Scalar α] {text : String} {s : Sheet} {x : Statement α} {rows columns : Nat}

/-- A text whose counts are not met is refused with the first complaint. The line that is given is
the one of the record complained about, but for column labels that are not on the line behind the
header. -/
theorem ofText_of_misfits (hcontents : contents text.toList = s.lines) (hsheet : s.Says x)
    (hcounts : x.counts = (↑rows, ↑columns)) (hpositive : 0 < rows ∧ 0 < columns)
    (hwords : rows < 2 ^ 63 ∧ columns < 2 ^ 63) :
    (x.misfits rows columns = [] → ∃ p : Program α, Program.ofText text = .ok p) ∧
      ∀ i complaint, (x.misfits rows columns).head? = some (i, complaint) →
        ∃ line, (Program.ofText text : Except Error (Program α)) = .error (.malformed line complaint) ∧
          ((recordLines text)[i]? = some line ↔
            (i = 2 → (recordLines text)[2]? = (recordLines text)[1]?.map (· + 1))) := by
  obtain ⟨d, after, hread, rfl⟩ := exists_read_document (c := .ofText text) hcontents hsheet
  have hheader : d.header.counts = .ok (rows, columns) := Header.counts_eq_ok_iff.mpr
    ⟨⟨congrArg Prod.fst hcounts, congrArg Prod.snd hcounts⟩, hpositive, hwords⟩
  have hdocument : Document.ofText text = .ok d := Document.ofText_eq_ok_iff.mpr ⟨after, hread⟩
  have hofText : (Program.ofText text : Except Error (Program α))
      = d.check >>= fun _ => .ok d.toProgram := by
    unfold Program.ofText
    rw [hdocument]
    rfl
  have hreports := Document.reports_check (α := α) hheader
  constructor
  · intro hnone
    rw [hnone] at hreports
    have hok : d.check = .ok () := hreports
    exact ⟨d.toProgram, by rw [hofText, hok]; rfl⟩
  · intro i complaint hfirst
    obtain ⟨others, hmisfits⟩ := List.head?_eq_some_iff.mp hfirst
    rw [hmisfits] at hreports
    obtain ⟨line, hline, herror⟩ := hreports
    exact ⟨line, by rw [hofText, herror]; rfl, getElem?_recordLines_iff hread hline⟩

/-- One row is short of a coefficient, with a comment and an empty line in front of it. -/
def shortText : String := "maximize\n1,2\n# the products\n\"x\",\"y\"\n\n\"r\",1,<=,4\n\"Z\",1,1\n"

theorem ofText_shortText :
    (Program.ofText shortText : Except Error (Program ℚ)) = .error (.malformed 6 (.coefficients 2 1)) ∧
      (recordLines shortText)[3]? = some 6 := by
  have hsummary : (Grammar.document.read (.ofText shortText)).map (fun r => (r.1.header.values,
        ((r.1.statement : Statement ℚ).misfits 1 2).head?))
      = some ((1, 2), some (3, .coefficients 2 1)) := by decide +kernel
  obtain ⟨⟨d, after⟩, hread, heq⟩ := Option.map_eq_some_iff.mp hsummary
  obtain ⟨hcounts, hfirst⟩ := Prod.mk.inj heq
  obtain ⟨s, hcontents, hsheet⟩ := sheet_of_read (α := ℚ) hread
  obtain ⟨line, herror, hline⟩ := (@ofText_of_misfits ℚ _ shortText s _ 1 2 hcontents hsheet
    hcounts (by decide) (by decide)).2 3 _ hfirst
  have hplace : (recordLines shortText)[3]? = some 6 := by decide +kernel
  obtain rfl := Option.some.inj ((hline.mpr nofun).symm.trans hplace)
  exact ⟨herror, hplace⟩

/-- A label is missing, and a comment stands in front of the labels. -/
def unlabelledText : String := "maximize\n1,2\n# the products\n\"x\"\n\"r\",1,1,<=,4\n\"Z\",1,1\n"

/-- The line that is given holds the comment. -/
theorem ofText_unlabelledText :
    (Program.ofText unlabelledText : Except Error (Program ℚ))
        = .error (.malformed 3 (.columnLabels 2 1)) ∧
      (recordLines unlabelledText)[2]? = some 4 := by
  constructor <;> decide +kernel

end Program

end LinProg
