import LinProg.Format.Reader
import LinProg.Proofs.Format.Fields

/-!
# The records of a text, line by line

Each kind of record has the lines that it can be written on. Its parser reads such a line and stops
at the gap behind it, and it reads nothing else.
-/

namespace LinProg.Format

open LinProg.Format.Parser LinProg.Format.Grammar

section Lines

variable {α : Type} [Scalar α]

/-- A token for the scalar that its decimal is turned into. -/
def NumberSpelled (token : List Char) (x : α) : Prop :=
  ∃ d, Decimal.Spelled token d ∧ Scalar.ofDecimal d = x

inductive DimensionsLine : List Char → Int → Int → Prop
  | intro {rows columns text : List Char} {m n : Int} :
      Decimal.Integer rows m → Decimal.Integer columns n → Fields text [columns] →
        DimensionsLine (rows ++ text) m n

inductive LabelsLine : List Char → List String → Prop
  | intro {token text : List Char} {tokens : List (List Char)} {label : String}
      {labels : List String} :
      LabelSpelled token label → List.Forall₂ LabelSpelled tokens labels → Fields text tokens →
        LabelsLine (token ++ text) (label :: labels)

inductive ConstraintLine : List Char → Constraint α → Prop
  | intro {token relationToken rhsToken text : List Char} {tokens : List (List Char)}
      {label : String} {coefficients : List α} {relation : Relation} {rhs : α} :
      LabelSpelled token label → List.Forall₂ NumberSpelled tokens coefficients →
        RelationSpelled relationToken relation → NumberSpelled rhsToken rhs →
          Fields text (tokens ++ [relationToken, rhsToken]) →
            ConstraintLine (token ++ text) ⟨coefficients, relation, rhs, some label⟩

inductive ObjectiveLine : List Char → String → List α → Prop
  | intro {token text : List Char} {tokens : List (List Char)} {label : String} {costs : List α} :
      LabelSpelled token label → List.Forall₂ NumberSpelled tokens costs → Fields text tokens →
        ObjectiveLine (token ++ text) label costs

end Lines

/-! ### Lines are solid -/

theorem Solid.append {piece text : List Char} {between : List Char} (h : Solid piece)
    (hbetween : ∀ c ∈ between, c = ',' ∨ isSpace c = true) (h' : Solid text) :
    Solid (piece ++ (between ++ text)) where
  begins := h.begins.append _
  ends := by
    obtain ⟨c, cs, rfl⟩ := List.exists_cons_of_ne_nil h'.ne_nil
    rw [← List.append_assoc, List.getLast?_append_of_ne_nil _ (List.cons_ne_nil c cs)]
    exact h'.ends
  onLine := by
    refine h.onLine.append (OnLine.append ?_ h'.onLine)
    intro c hc
    rcases hbetween c hc with rfl | hspace
    · decide
    · have hspaces : Spaces [c] := List.forall_mem_singleton.mpr hspace
      exact hspaces.onLine c List.mem_cons_self
  closed text' := by
    have hplain : ∀ c ∈ between, c ≠ '#' ∧ c ≠ '"' := by
      intro c hc
      rcases hbetween c hc with rfl | hspace
      · decide
      · constructor <;> rintro rfl <;> exact absurd hspace (by decide)
    rw [List.append_assoc, List.append_assoc, h.closed, uncommented_append hplain, h'.closed]
    simp

theorem Fields.solid {token text : List Char} {fields : List (List Char)} (h : Fields text fields)
    (htoken : Solid token) (hfields : ∀ field ∈ fields, Solid field) : Solid (token ++ text) := by
  induction h generalizing token with
  | nil => rwa [List.append_nil]
  | @cons left right field text fields hleft hright _ ih =>
      obtain ⟨hfield, hothers⟩ := List.forall_mem_cons.mp hfields
      have hbetween : ∀ c ∈ left ++ ',' :: right, c = ',' ∨ isSpace c = true := by
        refine List.forall_mem_append.mpr ⟨fun c hc => .inr (hleft c hc), ?_⟩
        exact List.forall_mem_cons.mpr ⟨.inl rfl, fun c hc => .inr (hright c hc)⟩
      simpa using htoken.append hbetween (ih hfield hothers)

theorem solid_of_forall₂ {β : Type} {T : List Char → β → Prop} {tokens : List (List Char)}
    {values : List β} (hT : ∀ {token v}, T token v → Solid token)
    (h : List.Forall₂ T tokens values) : ∀ token ∈ tokens, Solid token := by
  induction h with
  | nil => exact nofun
  | cons htoken _ ih => exact List.forall_mem_cons.mpr ⟨hT htoken, ih⟩

/-! ### Lines and their parsers -/

/-- The parser of a kind of record, with the lines of the kind. Of the value only the part that the
line says counts. -/
structure LineOf {β γ : Type} (p : Parser β) (said : β → γ) (L : List Char → γ → Prop) : Prop where
  reads : ∀ {c v after}, p.read c = some (v, after) →
    ∃ line behind, c.rest = line ++ behind ∧ L line (said v) ∧ ungapped after.rest = ungapped behind
  takes : ∀ {c line w rest}, L line w → BlankAhead rest → c.rest = line ++ rest →
    ∃ v after, said v = w ∧ p.read c = some (v, after) ∧ ungapped after.rest = ungapped rest
  solid : ∀ {line w}, L line w → Solid line

theorem Parser.read_line_bind {γ : Type} (q : Nat → Parser γ) (c : Cursor) :
    (Parser.line >>= q).read c = (q c.line).read c := rfl

/-- A token at the start of a line. -/
theorem Tokens.exists_read {β : Type} {p : Parser β} {T : List Char → β → Prop} (hp : Tokens p T)
    {c : Cursor} {token rest : List Char} {v : β} (htoken : T token v) (hrest : EndsToken rest)
    (hc : c.rest = token ++ rest) : ∃ after, p.read c = some (v, after) ∧ after.rest = rest := by
  obtain ⟨w, rfl, hread⟩ := hp.takes htoken hrest c hc
  exact ⟨_, hread, Cursor.rest_advance_length hc⟩

theorem lineOf_direction : LineOf direction id DirectionSpelled where
  reads h := by
    obtain ⟨token, hrest, htoken⟩ := reads_direction _ _ _ h
    exact ⟨token, _, hrest, htoken, rfl⟩
  takes hline _ hc := by
    obtain ⟨v, rfl, hread⟩ := takes_direction hline _ _ hc
    exact ⟨v, _, rfl, hread, congrArg ungapped (Cursor.rest_advance_length hc)⟩
  solid := solid_direction

/-- The counts that a header gives. -/
def Header.values (h : Header) : Int × Int := (h.rows.value, h.columns.value)

theorem lineOf_dimensions :
    LineOf dimensions Header.values fun line w => DimensionsLine line w.1 w.2 where
  reads {c h after} hread := by
    rw [dimensions, read_rule, read_line_bind] at hread
    obtain ⟨rows, c₁, hrows, hread⟩ := read_bind_eq_some_iff.mp hread
    obtain ⟨_, c₂, hcomma, hread⟩ := read_bind_eq_some_iff.mp hread
    obtain ⟨columns, c₃, hcolumns, hread⟩ := read_bind_eq_some_iff.mp hread
    obtain ⟨rfl, rfl⟩ := Prod.mk.inj (Option.some.inj hread)
    obtain ⟨token, hrest, ⟨hinteger⟩⟩ := tokens_integer.reads _ _ _ hrows
    obtain ⟨front, last, hfront, hfields, ⟨hlast⟩⟩ :=
      exists_field tokens_integer rfl hcomma hcolumns
    refine ⟨token ++ front, c₃.rest, ?_, .intro hinteger hlast hfields, rfl⟩
    rw [hrest, hfront, List.append_assoc]
  takes {c line w rest} hline hblank hc := by
    obtain ⟨m, n⟩ := w
    obtain @⟨rows, columns, _, _, _, hinteger, hlast, hfields⟩ := hline
    rw [List.append_assoc] at hc
    obtain ⟨c₁, hrows, hfirst⟩ := tokens_integer.exists_read (.intro hinteger)
      (hfields.endsToken hblank.endsToken) hc
    obtain ⟨c₂, c₃, hcomma, hcolumns, hrest⟩ := exists_read_field tokens_integer hfields
      (.intro hlast) hblank.endsToken (congrArg ungapped hfirst)
    refine ⟨⟨c.line, ⟨.ofList rows, m⟩, ⟨.ofList columns, n⟩⟩, c₃, rfl, ?_,
      congrArg ungapped hrest⟩
    rw [dimensions, read_rule, read_line_bind, read_bind_of_some hrows, read_bind_of_some hcomma,
      read_bind_of_some hcolumns, read_pure]
  solid := by
    rintro line ⟨m, n⟩ ⟨hinteger, hlast, hfields⟩
    exact hfields.solid (solid_numeral (.intro hinteger))
      (List.forall_mem_singleton.mpr (solid_numeral (.intro hlast)))

/-! ### Labelled lists -/

section Labelled

variable {β : Type} {p : Parser β} {T : List Char → β → Prop} {c between after : Cursor}
  {name : String} {values : List β} {token text rest : List Char} {tokens : List (List Char)}

theorem exists_labelled (hp : Tokens p T) (hlabel : label.read c = some (name, between))
    (hlisted : (next (Grammar.listed p)).read between = some (values, after)) :
    ∃ token text behind tokens, c.rest = token ++ text ++ behind ∧ LabelSpelled token name ∧
      List.Forall₂ T tokens values ∧ Fields text tokens ∧
        ungapped after.rest = ungapped behind := by
  obtain ⟨token, hrest, htoken⟩ := tokens_label.reads _ _ _ hlabel
  obtain ⟨text, tokens, behind, htext, hfields, hvalues, hbehind⟩ := fields_of_listed hp rfl hlisted
  refine ⟨token, text, behind, tokens, ?_, htoken, hvalues, hfields, hbehind⟩
  rw [hrest, htext, List.append_assoc]

theorem exists_read_labelled (hp : Tokens p T) (htoken : LabelSpelled token name)
    (hvalues : List.Forall₂ T tokens values) (hfields : Fields text tokens)
    (hrest : EndsToken rest) (hend : ∀ last : Cursor, ungapped last.rest = ungapped rest →
      (next do Grammar.comma; next p).read last = none)
    (hc : c.rest = token ++ text ++ rest) :
    ∃ between after, label.read c = some (name, between) ∧
      (next (Grammar.listed p)).read between = some (values, after) ∧
        ungapped after.rest = ungapped rest := by
  rw [List.append_assoc] at hc
  obtain ⟨between, hlabel, hbetween⟩ :=
    tokens_label.exists_read htoken (hfields.endsToken hrest) hc
  obtain ⟨after, hlisted, hafter⟩ :=
    exists_read_listed hp hfields hvalues hrest hend (congrArg ungapped hbetween)
  exact ⟨between, after, hlabel, hlisted, hafter⟩

end Labelled

theorem lineOf_columnLabels : LineOf columnLabels id LabelsLine where
  reads {c labels after} hread := by
    rw [columnLabels, read_rule] at hread
    obtain ⟨first, c₁, hfirst, hread⟩ := read_bind_eq_some_iff.mp hread
    obtain ⟨others, c₂, hothers, hread⟩ := read_bind_eq_some_iff.mp hread
    obtain ⟨rfl, rfl⟩ := Prod.mk.inj (Option.some.inj hread)
    obtain ⟨token, text, behind, tokens, hrest, htoken, hvalues, hfields, hbehind⟩ :=
      exists_labelled tokens_label hfirst hothers
    exact ⟨token ++ text, behind, hrest, .intro htoken hvalues hfields, hbehind⟩
  takes {c line labels rest} hline hblank hc := by
    obtain ⟨htoken, hvalues, hfields⟩ := hline
    obtain ⟨c₁, c₂, hfirst, hothers, hlast⟩ := exists_read_labelled tokens_label htoken hvalues
      hfields hblank.endsToken (fun _ => read_field_of_blankAhead label hblank) hc
    refine ⟨_, c₂, rfl, ?_, hlast⟩
    rw [columnLabels, read_rule, read_bind_of_some hfirst, read_bind_of_some hothers, read_pure]
  solid := by
    rintro line labels ⟨htoken, hvalues, hfields⟩
    exact hfields.solid (solid_label htoken) (solid_of_forall₂ solid_label hvalues)

section Numbers

variable {α : Type} [Scalar α]

theorem forall₂_numberSpelled_iff {tokens : List (List Char)} {xs : List α} :
    List.Forall₂ NumberSpelled tokens xs ↔
      ∃ ds, List.Forall₂ Decimal.Spelled tokens ds ∧ ds.map Scalar.ofDecimal = xs := by
  constructor
  · intro h
    induction h with
    | nil => exact ⟨[], .nil, rfl⟩
    | cons hnumber _ ih =>
        obtain ⟨d, htoken, rfl⟩ := hnumber
        obtain ⟨ds, htokens, rfl⟩ := ih
        exact ⟨d :: ds, .cons htoken htokens, rfl⟩
  · rintro ⟨ds, h, rfl⟩
    induction h with
    | nil => exact .nil
    | cons htoken _ ih => exact .cons ⟨_, htoken, rfl⟩ ih

theorem solid_numberSpelled {token : List Char} {x : α} (h : NumberSpelled token x) :
    Solid token := by
  obtain ⟨d, hd, -⟩ := h
  exact solid_number hd

theorem lineOf_objective : LineOf objective
    (fun o => (o.label, o.costs.map Scalar.ofDecimal)) fun line (w : String × List α) =>
      ObjectiveLine line w.1 w.2 where
  reads {c o after} hread := by
    rw [objective, read_rule, read_line_bind] at hread
    obtain ⟨text, c₁, hlabel, hread⟩ := read_bind_eq_some_iff.mp hread
    obtain ⟨costs, c₂, hcosts, hread⟩ := read_bind_eq_some_iff.mp hread
    obtain ⟨rfl, rfl⟩ := Prod.mk.inj (Option.some.inj hread)
    obtain ⟨token, text, behind, tokens, hrest, htoken, hvalues, hfields, hbehind⟩ :=
      exists_labelled tokens_number hlabel hcosts
    refine ⟨token ++ text, behind, hrest, .intro htoken ?_ hfields, hbehind⟩
    exact forall₂_numberSpelled_iff.mpr ⟨costs, hvalues, rfl⟩
  takes {c line w rest} hline hblank hc := by
    obtain ⟨label, costs⟩ := w
    obtain ⟨htoken, hvalues, hfields⟩ := hline
    obtain ⟨ds, hdecimals, hcosts⟩ := forall₂_numberSpelled_iff.mp hvalues
    obtain ⟨c₁, c₂, hlabel, hlisted, hlast⟩ := exists_read_labelled tokens_number htoken hdecimals
      hfields hblank.endsToken (fun _ => read_field_of_blankAhead number hblank) hc
    refine ⟨⟨c.line, label, ds⟩, c₂, congrArg (Prod.mk label) hcosts, ?_, hlast⟩
    rw [objective, read_rule, read_line_bind, read_bind_of_some hlabel, read_bind_of_some hlisted,
      read_pure]
  solid := by
    rintro line w ⟨htoken, hvalues, hfields⟩
    exact hfields.solid (solid_label htoken) (solid_of_forall₂ solid_numberSpelled hvalues)

/-- The coefficients of a row end where its relation is the next field. -/
theorem read_number_of_relation {c : Cursor} {front token rest : List Char} {r : Relation}
    (hfields : Fields front [token]) (hrelation : RelationSpelled token r)
    (hc : ungapped c.rest = ungapped (front ++ rest)) :
    (next do Grammar.comma; next number).read c = none := by
  cases hfields with
  | cons hleft hright hnil =>
      cases hnil
      simp only [List.append_assoc, List.cons_append, List.nil_append] at hc
      obtain ⟨between, hcomma, hbetween⟩ := exists_read_comma hleft hc
      have hrefuses : number.Refuses (token ++ rest) := by
        cases hrelation with
        | text => cases r <;> exact refuses_piece rfl
        | single => exact refuses_piece rfl
      rw [read_field, hcomma]
      exact read_next_eq_none hrefuses (solid_relation hrelation).begins hright
        (congrArg ungapped hbetween)

theorem lineOf_constraint : LineOf constraint
    (fun r => (r.toConstraint : Constraint α)) ConstraintLine where
  reads {c r after} hread := by
    rw [constraint, read_rule, read_line_bind] at hread
    obtain ⟨text, c₁, hlabel, hread⟩ := read_bind_eq_some_iff.mp hread
    obtain ⟨coefficients, c₂, hcoefficients, hread⟩ := read_bind_eq_some_iff.mp hread
    obtain ⟨_, c₃, hcomma, hread⟩ := read_bind_eq_some_iff.mp hread
    obtain ⟨relation, c₄, hrelation, hread⟩ := read_bind_eq_some_iff.mp hread
    obtain ⟨_, c₅, hcomma', hread⟩ := read_bind_eq_some_iff.mp hread
    obtain ⟨rhs, c₆, hrhs, hread⟩ := read_bind_eq_some_iff.mp hread
    obtain ⟨rfl, rfl⟩ := Prod.mk.inj (Option.some.inj hread)
    obtain ⟨token, first, behind, tokens, hrest, htoken, hvalues, hfields, hbehind⟩ :=
      exists_labelled tokens_number hlabel hcoefficients
    obtain ⟨second, relationToken, rfl, hsecond, hrelationToken⟩ :=
      exists_field tokens_relation hbehind hcomma hrelation
    obtain ⟨third, rhsToken, hthird, hlast, hrhsToken⟩ :=
      exists_field tokens_number rfl hcomma' hrhs
    refine ⟨token ++ (first ++ (second ++ third)), c₆.rest, ?_, ?_, rfl⟩
    · rw [hrest, hthird]
      simp
    · exact .intro htoken (forall₂_numberSpelled_iff.mpr ⟨coefficients, hvalues, rfl⟩)
        hrelationToken ⟨rhs, hrhsToken, rfl⟩ (hfields.append (hsecond.append hlast))
  takes {c line w rest} hline hblank hc := by
    obtain @⟨token, relationToken, rhsToken, text, tokens, label, coefficients, relation, rhs,
      htoken, hvalues, hrelation, ⟨d, hrhs, hd⟩, hfields⟩ := hline
    obtain ⟨ds, hdecimals, rfl⟩ := forall₂_numberSpelled_iff.mp hvalues
    obtain ⟨first, back, rfl, hfirst, hback⟩ := hfields.exists_append
    obtain ⟨second, third, rfl, hsecond, hthird⟩ := hback.exists_append_cons
    have hlast := hthird.endsToken hblank.endsToken
    have hsplit : c.rest = token ++ first ++ (second ++ (third ++ rest)) := by simpa using hc
    obtain ⟨c₁, c₂, hlabel, hlisted, hbehind⟩ := exists_read_labelled tokens_number htoken
      hdecimals hfirst (hsecond.endsToken hlast)
      (fun _ => read_number_of_relation hsecond hrelation) hsplit
    obtain ⟨c₃, c₄, hcomma, hread, hthen⟩ :=
      exists_read_field tokens_relation hsecond hrelation hlast hbehind
    obtain ⟨c₅, c₆, hcomma', hread', hend⟩ := exists_read_field tokens_number hthird hrhs
      hblank.endsToken (congrArg ungapped hthen)
    refine ⟨⟨c.line, label, ds, relation, d⟩, c₆, ?_, ?_, congrArg ungapped hend⟩
    · rw [ConstraintRecord.toConstraint, hd]
    · rw [constraint, read_rule, read_line_bind, read_bind_of_some hlabel,
        read_bind_of_some hlisted, read_bind_of_some hcomma, read_bind_of_some hread,
        read_bind_of_some hcomma', read_bind_of_some hread', read_pure]
  solid := by
    rintro line w ⟨htoken, hvalues, hrelation, hrhs, hfields⟩
    refine hfields.solid (solid_label htoken) (List.forall_mem_append.mpr
      ⟨solid_of_forall₂ solid_numberSpelled hvalues, ?_⟩)
    exact List.forall_mem_cons.mpr ⟨solid_relation hrelation,
      List.forall_mem_singleton.mpr (solid_numberSpelled hrhs)⟩

end Numbers

end LinProg.Format
