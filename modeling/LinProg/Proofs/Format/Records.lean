import LinProg.Format.Reader
import LinProg.Proofs.Format.Tokens

/-!
# The records of LP texts

The writer puts each record on a line of its own. The lines are read back one by one: a label
without a quote in it and without an end of a line, a count in decimal digits, a number as
`ReadsBack` has it.
-/

namespace LinProg

namespace Program

/-- A label as it is read back: a missing one is empty, and its quotes are apostrophes. -/
def rewritten (label : Option String) : String :=
  String.ofList ((label.getD "").toList.map fun c => if c = '"' then '\'' else c)

theorem toList_quoted (label : Option String) :
    (quoted label).toList = '"' :: ((rewritten label).toList ++ ['"']) := by
  simp [quoted, rewritten]

theorem toList_commaNumbers {α : Type} [NumberText α] (xs : List α) :
    (commaNumbers xs).toList = (xs.map fun x => ',' :: (NumberText.text x).toList).flatten := by
  simp [commaNumbers, List.flatMap_def, Function.comp_def]

end Program

namespace Format

open LinProg.Format.Parser LinProg.Format.Grammar
open LinProg.Program (rewritten quoted commaNumbers)

variable {rest : List Char}

/-! ### Labels -/

/-- A label that can stand in a text: there is no quote in it, and it is on one line. -/
def Clean (label : String) : Prop := ∀ c ∈ label.toList, endsLabel c = false

theorem scanLabelText_of_clean {text : String} (hclean : Clean text) (rest : List Char) :
    scanLabelText (text.toList ++ '"' :: rest) = some (text, text.toList.length) := by
  have hrun : (text.toList ++ '"' :: rest).takeWhile (!endsLabel ·) = text.toList := by
    rw [List.takeWhile_append_of_pos fun c hc => by simp [hclean c hc]]
    simp [endsLabel]
  rw [scanLabelText, hrun, String.ofList_toList]

theorem takes_cleanLabel {text : String} (hclean : Clean text) (rest : List Char) :
    Grammar.label.Takes ('"' :: (text.toList ++ ['"'])) rest (· = text) := by
  rw [← List.singleton_append]
  refine Takes.rule _ ?_
  refine (takes_word "\"" _).bind fun _ _ => ?_
  refine Takes.bind (Takes.rule _ (takes_piece (scanLabelText_of_clean hclean rest))) ?_
  rintro _ rfl
  exact (takes_word "\"" rest).map fun _ _ => rfl

theorem takes_label {label : Option String} (hclean : Clean (rewritten label)) (rest : List Char) :
    Grammar.label.Takes (quoted label).toList rest (· = rewritten label) := by
  rw [Program.toList_quoted]
  exact takes_cleanLabel hclean rest

theorem beginsRecord_quoted (label : Option String) : BeginsRecord (quoted label).toList := by
  rw [Program.toList_quoted]
  exact beginsRecord_cons _ (by decide)

/-- The line of the column labels, up to its end. There is at least one. -/
def columnLabelsText (label : Option String) (labels : List (Option String)) : List Char :=
  (quoted label).toList ++ (labels.map fun l => ',' :: (quoted l).toList).flatten

theorem takes_columnLabels {label : Option String} {labels : List (Option String)}
    (hclean : ∀ l ∈ label :: labels, Clean (rewritten l)) (hends : EndsRecord rest) :
    columnLabels.Takes (columnLabelsText label labels) rest
      (· = (label :: labels).map rewritten) := by
  refine Takes.rule _ ((takes_label (hclean label List.mem_cons_self) _).bind ?_)
  rintro _ rfl
  have hlisted : (next (Grammar.listed Grammar.label)).Takes _ rest
      (List.Forall₂ (fun l text => id text = rewritten l) labels) :=
    takes_listed (fun l hl k _ => takes_label (hclean l (List.mem_cons_of_mem label hl)) k)
      (fun l _ => (beginsRecord_quoted l).gapFree) hends.endsField ((refuses_comma hends).bind _)
  refine hlisted.map fun texts htexts => ?_
  rw [List.map_cons, ← map_eq_map_of_forall₂ htexts, List.map_id]

/-! ### Counts -/

/-- A digit is no space, no comment and no end of a line. -/
theorem beginsRecord_of_isDigit {c : Char} (hc : c.isDigit) (cs : List Char) :
    BeginsRecord (c :: cs) := by
  refine beginsRecord_cons cs ⟨⟨?_, ?_⟩, ?_⟩
  · simp only [isSpace, Bool.or_eq_false_iff, decide_eq_false_iff_not]
    constructor <;> rintro rfl <;> exact absurd hc (by decide)
  · rintro rfl
    exact absurd hc (by decide)
  · simp only [endsLine, Bool.or_eq_false_iff, decide_eq_false_iff_not]
    constructor <;> rintro rfl <;> exact absurd hc (by decide)

theorem exists_cons_toString (n : Nat) :
    ∃ c cs, (toString n).toList = c :: cs ∧ ∀ d ∈ c :: cs, d.isDigit := by
  have hdigits : (toString n).toList = Nat.toDigits 10 n := Nat.toList_repr
  obtain ⟨c, cs, hcons⟩ := List.exists_cons_of_ne_nil (Nat.toDigits_ne_nil (n := n) (b := 10))
  refine ⟨c, cs, hdigits.trans hcons, fun d hd => ?_⟩
  exact Nat.isDigit_of_mem_toDigits (by decide) (by decide) (hcons ▸ hd)

theorem beginsRecord_toString (n : Nat) : BeginsRecord (toString n).toList := by
  obtain ⟨c, cs, hcons, hdigits⟩ := exists_cons_toString n
  rw [hcons]
  exact beginsRecord_of_isDigit (hdigits c List.mem_cons_self) _

theorem scanNumeral_append {token : List Char} {v : Int} (h : Decimal.Integer token v)
    {rest : List Char} (hrest : Decimal.EndsDigits rest) :
    scanNumeral (token ++ rest) = some (⟨String.ofList token, v⟩, token.length) := by
  obtain @⟨sign, run, negative, hsign, hne, hrun⟩ := h
  have hscan := Decimal.scanSign_append hsign (hrun.unsigned hne rest)
  have hempty : run.isEmpty = false := by simpa using hne
  have htake : (sign ++ (run ++ rest)).take (sign.length + run.length) = sign ++ run := by
    rw [← List.append_assoc, ← List.length_append, List.take_left]
  unfold scanNumeral
  rw [List.append_assoc, hscan]
  dsimp only
  rw [List.drop_left, Decimal.digitRun_append hrun hrest, hempty, htake, List.length_append]
  rfl

theorem integer_toString (n : Nat) : Decimal.Integer (toString n).toList n := by
  obtain ⟨c, cs, hcons, hdigits⟩ := exists_cons_toString n
  have hvalue : Decimal.valueOf (toString n).toList = n := by
    rw [show (toString n).toList = Nat.toDigits 10 n from Nat.toList_repr]
    exact Nat.ofDigitChars_ten_toDigits
  have hinteger := Decimal.Integer.intro .none (List.cons_ne_nil c cs) hdigits
  rw [← hcons, List.nil_append, hvalue] at hinteger
  exact hinteger

theorem takes_integer (n : Nat) (hends : EndsField rest) :
    integer.Takes (toString n).toList rest (·.value = n) := by
  have hscan := scanNumeral_append (integer_toString n) hends.endsNumber.endsDigits
  exact (takes_piece hscan).mono fun _ hv => hv ▸ rfl

/-- The line of the counts, up to its end. -/
def dimensionsText (rows columns : Nat) : List Char :=
  (toString rows).toList ++ ',' :: (toString columns).toList

theorem takes_dimensions (rows columns : Nat) (hends : EndsField rest) :
    dimensions.Takes (dimensionsText rows columns) rest
      fun h => h.rows.value = rows ∧ h.columns.value = columns := by
  refine Takes.rule _ (Takes.line fun line => ?_)
  refine (takes_integer rows (endsField_cons (.inl rfl))).bind fun m hm => ?_
  refine Takes.comma ?_
  have hcolumns := (takes_integer columns hends).next ((beginsRecord_toString columns).gapFree rest)
  exact hcolumns.map fun n hn => ⟨hm, hn⟩

/-! ### Numbers -/

theorem gapFree_relation (r : Relation) (rest : List Char) :
    GapFree (r.text.toList ++ rest) := by
  cases r <;> exact gapFree_cons (by decide)

section Numbers

variable {α : Type} [Scalar α] [NumberText α]

theorem gapFree_text (hback : NumberText.ReadsBack α) {x : α} (hx : NumberText.isFinite x)
    (rest : List Char) : GapFree ((NumberText.text x).toList ++ rest) := by
  obtain ⟨p, hp, -⟩ := hback x hx
  obtain ⟨c, cs, hcons⟩ := List.exists_cons_of_ne_nil p.text_ne_nil
  rw [hp, hcons]
  have hhead : c ∈ p.text.head? := by
    rw [hcons]
    rfl
  rcases Decimal.Plain.head_text hhead with rfl | hdigit
  · exact gapFree_cons (by decide)
  · exact (beginsRecord_of_isDigit hdigit cs).gapFree rest

theorem takes_number (hback : NumberText.ReadsBack α) {x : α} (hx : NumberText.isFinite x)
    (hends : EndsField rest) :
    number.Takes (NumberText.text x).toList rest (Scalar.ofDecimal · = x) := by
  obtain ⟨p, hp, hvalue⟩ := hback x hx
  rw [hp]
  have hscan := Decimal.scan_plain p hends.endsNumber
  exact Takes.rule _ ((takes_piece hscan).mono fun _ hv => hv ▸ hvalue)

theorem takes_numbers (hback : NumberText.ReadsBack α) {xs : List α}
    (hxs : ∀ x ∈ xs, NumberText.isFinite x) (hends : EndsField rest)
    (hrefuses : (do comma; next number : Parser Decimal).Refuses rest) :
    (next (Grammar.listed number)).Takes (commaNumbers xs).toList rest
      (·.map Scalar.ofDecimal = xs) := by
  rw [Program.toList_commaNumbers]
  have hlisted : (next (Grammar.listed number)).Takes _ rest
      (List.Forall₂ (fun x d => Scalar.ofDecimal d = id x) xs) :=
    takes_listed (fun x hx _ hk => takes_number hback (hxs x hx) hk)
      (fun x hx => gapFree_text hback (hxs x hx)) hends hrefuses
  refine hlisted.mono fun ds hds => ?_
  rw [map_eq_map_of_forall₂ hds, List.map_id]

/-- The coefficients of a row end where its relation stands behind the comma. -/
theorem refuses_relation (r : Relation) (rest : List Char) :
    (do comma; next number : Parser Decimal).Refuses (',' :: (r.text.toList ++ rest)) := by
  refine (takes_comma (r.text.toList ++ rest)).bind_refuses fun _ _ => ?_
  refine Refuses.next ?_ (gapFree_relation r rest)
  cases r <;> exact refuses_piece rfl

/-! ### Rows and costs -/

/-- The line of a row, up to its end. -/
def rowText (r : Constraint α) : List Char :=
  (quoted r.label).toList ++ ((commaNumbers r.coefficients).toList
    ++ ',' :: (r.relation.text.toList ++ ',' :: (NumberText.text r.rhs).toList))

/-- The line of the objective, up to its end. -/
def objectiveText (label : Option String) (costs : List α) : List Char :=
  (quoted label).toList ++ (commaNumbers costs).toList

/-- A row as it is read back. -/
def rereadRow (r : Constraint α) : Constraint α := { r with label := some (rewritten r.label) }

/-- A row that can be read back. -/
structure WritableRow (r : Constraint α) : Prop where
  label : Clean (rewritten r.label)
  coefficients : ∀ x ∈ r.coefficients, NumberText.isFinite x
  rhs : NumberText.isFinite r.rhs

theorem takes_constraint (hback : NumberText.ReadsBack α) {r : Constraint α} (h : WritableRow r)
    (hends : EndsField rest) :
    constraint.Takes (rowText r) rest (·.toConstraint = rereadRow r) := by
  refine Takes.rule _ (Takes.line fun line => ?_)
  refine (takes_label h.label _).bind fun label hlabel => ?_
  -- The coefficients take all fields that they can, and stop where no number is behind the comma.
  have hrefuses : (do comma; next number : Parser Decimal).Refuses
      (',' :: (r.relation.text.toList ++ ',' :: (NumberText.text r.rhs).toList) ++ rest) := by
    rw [List.cons_append, List.append_assoc]
    exact refuses_relation r.relation _
  have hnumbers := takes_numbers hback h.coefficients (endsField_cons (.inl rfl)) hrefuses
  refine hnumbers.bind fun coefficients hcoefficients => ?_
  refine Takes.comma ?_
  refine ((takes_relation r.relation _).next (gapFree_relation r.relation _)).bind
    fun relation hrelation => ?_
  refine Takes.comma ?_
  have hnumber := (takes_number hback h.rhs hends).next (gapFree_text hback h.rhs rest)
  refine hnumber.map fun rhs hrhs => ?_
  rw [ConstraintRecord.toConstraint, hlabel, hcoefficients, hrelation, hrhs, rereadRow]

theorem takes_objective (hback : NumberText.ReadsBack α) {label : Option String} {costs : List α}
    (hclean : Clean (rewritten label)) (hcosts : ∀ x ∈ costs, NumberText.isFinite x)
    (hends : EndsRecord rest) :
    objective.Takes (objectiveText label costs) rest
      fun o => o.label = rewritten label ∧ o.costs.map Scalar.ofDecimal = costs := by
  refine Takes.rule _ (Takes.line fun line => ?_)
  refine (takes_label hclean _).bind fun label hlabel => ?_
  have hnumbers := takes_numbers hback hcosts hends.endsField ((refuses_comma hends).bind _)
  exact hnumbers.map fun costs hcosts => ⟨hlabel, hcosts⟩

/-- The costs are no row, since nothing follows them that could be a relation. -/
theorem refuses_constraint (hback : NumberText.ReadsBack α) {label : Option String}
    {costs : List α} (hclean : Clean (rewritten label))
    (hcosts : ∀ x ∈ costs, NumberText.isFinite x) (hends : EndsRecord rest) :
    constraint.Refuses (objectiveText label costs ++ rest) := by
  rw [objectiveText, List.append_assoc]
  refine Refuses.rule _ (Refuses.line fun line => ?_)
  refine (takes_label hclean _).bind_refuses fun label _ => ?_
  have hnumbers := takes_numbers hback hcosts hends.endsField ((refuses_comma hends).bind _)
  refine hnumbers.bind_refuses fun costs _ => ?_
  exact ((refuses_comma hends).next hends.endsField.gapFree).bind _

end Numbers

end Format

end LinProg
