import LinProg.Proofs.Format.Chains
import LinProg.Proofs.Format.Spelling

/-!
# The fields of a line

Behind its first token a line goes on with fields, each one a comma and a token with spaces and tabs
around them. A list of fields is read as a whole if what follows the list is no further field.
-/

namespace LinProg.Format

open LinProg.Format.Parser LinProg.Format.Grammar

/-- Fields, each behind a comma, with spaces and tabs around the commas. -/
inductive Fields : List Char → List (List Char) → Prop
  | nil : Fields [] []
  | cons {left right field text : List Char} {fields : List (List Char)} :
      Spaces left → Spaces right → Fields text fields →
        Fields (left ++ ',' :: (right ++ (field ++ text))) (field :: fields)

theorem Fields.append {front back : List Char} {fields others : List (List Char)}
    (h : Fields front fields) (h' : Fields back others) :
    Fields (front ++ back) (fields ++ others) := by
  induction h with
  | nil => exact h'
  | cons hleft hright _ ih => simpa using Fields.cons hleft hright ih

theorem Fields.exists_append {text : List Char} {fields others : List (List Char)}
    (h : Fields text (fields ++ others)) :
    ∃ front back, text = front ++ back ∧ Fields front fields ∧ Fields back others := by
  induction fields generalizing text with
  | nil => exact ⟨[], text, rfl, .nil, h⟩
  | cons field fields ih =>
      cases h with
      | cons hleft hright htail =>
          obtain ⟨front, back, rfl, hfront, hback⟩ := ih htail
          exact ⟨_, back, by simp, .cons hleft hright hfront, hback⟩

theorem Fields.exists_append_cons {text field : List Char} {fields : List (List Char)}
    (h : Fields text (field :: fields)) :
    ∃ front back, text = front ++ back ∧ Fields front [field] ∧ Fields back fields := by
  rw [← List.singleton_append] at h
  exact h.exists_append

/-- A parser for the tokens of one kind, each on its own between commas, gaps and line ends. -/
structure Tokens {β : Type} (p : Parser β) (T : List Char → β → Prop) : Prop where
  reads : p.Reads T
  takes : ∀ {token v rest}, T token v → EndsToken rest → p.Takes token rest (· = v)
  solid : ∀ {token v}, T token v → Solid token

theorem tokens_label : Tokens label LabelSpelled :=
  ⟨reads_label, fun h _ => takes_labelSpelled h _, solid_label⟩

theorem tokens_integer : Tokens integer NumeralSpelled :=
  ⟨reads_integer, takes_numeralSpelled, solid_numeral⟩

theorem tokens_number : Tokens number Decimal.Spelled :=
  ⟨reads_number, takes_numberSpelled, solid_number⟩

theorem tokens_relation : Tokens relation RelationSpelled :=
  ⟨reads_relation, takes_relationSpelled, solid_relation⟩

/-! ### Behind a gap -/

theorem ungapped_record {spaces token : List Char} (hspaces : Spaces spaces)
    (htoken : BeginsRecord token) (rest : List Char) :
    ungapped (spaces ++ (token ++ rest)) = token ++ rest := by
  rw [ungapped_spaces hspaces, ungapped_of_gapFree (htoken.gapFree rest)]

/-- In front of a token a gap has no comment. -/
theorem exists_spaces_of_ungapped {text token rest : List Char} (htoken : BeginsRecord token)
    (h : ungapped text = token ++ rest) :
    ∃ spaces, Spaces spaces ∧ text = spaces ++ (token ++ rest) := by
  obtain ⟨spaces, behind, hspaces, rfl, hfree | ⟨comment, last, rfl, hcomment, hend⟩⟩ :=
    gap_cases text
  · rw [ungapped_spaces hspaces, ungapped_of_gapFree hfree] at h
    exact ⟨spaces, hspaces, by rw [h]⟩
  · rw [ungapped_spaces hspaces, ungapped_comment hcomment hend] at h
    obtain ⟨c, cs, rfl, -, hc⟩ := htoken
    rw [h] at hend
    have htrue := hend c rfl
    rw [hc] at htrue
    cases htrue

section Reading

variable {β : Type} {p : Parser β} {T : List Char → β → Prop} {c after : Cursor} {v : β}
  {text : List Char}

theorem exists_read_next {P : β → Prop} {spaces token rest : List Char} (hp : p.Takes token rest P)
    (htoken : BeginsRecord token) (hspaces : Spaces spaces)
    (hc : ungapped c.rest = ungapped (spaces ++ (token ++ rest))) :
    ∃ v after, P v ∧ (next p).read c = some (v, after) ∧ after.rest = rest := by
  rw [ungapped_record hspaces htoken, ← Cursor.rest_skipGap] at hc
  obtain ⟨v, hv, hread⟩ := hp c.skipGap hc
  exact ⟨v, _, hv, hread, Cursor.rest_advance_length hc⟩

theorem read_next_eq_none {spaces token rest : List Char} (hp : p.Refuses (token ++ rest))
    (htoken : BeginsRecord token) (hspaces : Spaces spaces)
    (hc : ungapped c.rest = ungapped (spaces ++ (token ++ rest))) : (next p).read c = none := by
  rw [ungapped_record hspaces htoken, ← Cursor.rest_skipGap] at hc
  exact hp c.skipGap hc

theorem exists_token (hreads : p.Reads T) (hsolid : ∀ {token v}, T token v → Solid token)
    (hc : ungapped c.rest = ungapped text) (h : (next p).read c = some (v, after)) :
    ∃ spaces token, Spaces spaces ∧ text = spaces ++ (token ++ after.rest) ∧ T token v := by
  obtain ⟨token, hrest, htoken⟩ := hreads c.skipGap v after h
  rw [Cursor.rest_skipGap, hc] at hrest
  obtain ⟨spaces, hspaces, htext⟩ := exists_spaces_of_ungapped (hsolid htoken).begins hrest
  exact ⟨spaces, token, hspaces, htext, htoken⟩

theorem Tokens.progress (hp : Tokens p T) : p.Progress := by
  intro c v after h
  obtain ⟨token, hrest, htoken⟩ := hp.reads c v after h
  have hpos := List.length_pos_iff.mpr (hp.solid htoken).ne_nil
  rw [hrest, List.length_append]
  omega

end Reading

/-! ### Commas -/

section Comma

variable {c after : Cursor} {text : List Char}

theorem solid_comma : Solid [','] :=
  solid_of_ordinary (by decide) (List.forall_mem_singleton.mpr (by decide))

theorem progress_comma : Grammar.comma.Progress := by
  intro c v after h
  obtain ⟨token, hrest, rfl⟩ := reads_word "," c v after h
  rw [hrest, List.length_append]
  exact Nat.lt_add_of_pos_left (by decide)

theorem exists_comma (hc : ungapped c.rest = ungapped text)
    (h : (next comma).read c = some ((), after)) :
    ∃ left, Spaces left ∧ text = left ++ ',' :: after.rest := by
  obtain ⟨left, token, hleft, htext, rfl⟩ :=
    exists_token (reads_word ",") (fun h => h ▸ solid_comma) hc h
  exact ⟨left, hleft, htext⟩

theorem exists_read_comma {left rest : List Char} (hleft : Spaces left)
    (hc : ungapped c.rest = ungapped (left ++ ',' :: rest)) :
    ∃ after, (next comma).read c = some ((), after) ∧ after.rest = rest := by
  obtain ⟨⟨⟩, after, -, hread, hrest⟩ :=
    exists_read_next (takes_comma rest) solid_comma.begins hleft hc
  exact ⟨after, hread, hrest⟩

theorem read_comma_eq_none (hc : ungapped c.rest = ungapped text) (hblank : BlankAhead text) :
    (next comma).read c = none := by
  rw [Option.eq_none_iff_forall_ne_some]
  rintro ⟨⟨⟩, after⟩ h
  obtain ⟨left, hleft, rfl⟩ := exists_comma hc h
  have hungapped := ungapped_record hleft solid_comma.begins after.rest
  rw [List.singleton_append] at hungapped
  unfold BlankAhead at hblank
  rw [hungapped] at hblank
  exact absurd (hblank ',' rfl) (by decide)

end Comma

/-! ### Lists of fields -/

section Lists

variable {β : Type} {p : Parser β} {T : List Char → β → Prop} {c last after : Cursor}
  {values : List β} {text front rest : List Char} {fields : List (List Char)}

theorem read_field (p : Parser β) (c : Cursor) :
    (next do comma; next p).read c
      = ((next comma).read c).bind fun (_, after) => (next p).read after := rfl

theorem Tokens.progress_field (hp : Tokens p T) : (do comma; next p : Parser β).Progress :=
  progress_comma.bind fun _ => hp.progress.next.forward

theorem Fields.endsToken (h : Fields front fields) (hrest : EndsToken rest) :
    EndsToken (front ++ rest) := by
  cases h with
  | nil => exact hrest
  | cons hleft _ _ =>
      rw [List.append_assoc]
      exact endsToken_of_spaces hleft (.inl rfl) _

/-- A comma and a token make a field. -/
theorem exists_field (hp : Tokens p T) {between : Cursor} {u : Unit} {v : β}
    (hc : ungapped c.rest = ungapped text) (hcomma : (next comma).read c = some (u, between))
    (hvalue : (next p).read between = some (v, after)) :
    ∃ front token, text = front ++ after.rest ∧ Fields front [token] ∧ T token v := by
  obtain ⟨left, hleft, rfl⟩ := exists_comma hc hcomma
  obtain ⟨right, token, hright, hbetween, htoken⟩ := exists_token hp.reads hp.solid rfl hvalue
  refine ⟨left ++ ',' :: (right ++ (token ++ [])), token, ?_, .cons hleft hright .nil, htoken⟩
  rw [hbetween]
  simp

theorem exists_read_field (hp : Tokens p T) {token : List Char} {v : β}
    (hfields : Fields front [token]) (htoken : T token v) (hrest : EndsToken rest)
    (hc : ungapped c.rest = ungapped (front ++ rest)) :
    ∃ between after, (next comma).read c = some ((), between) ∧
      (next p).read between = some (v, after) ∧ after.rest = rest := by
  cases hfields with
  | cons hleft hright hnil =>
      cases hnil
      simp only [List.append_assoc, List.cons_append, List.nil_append] at hc
      obtain ⟨between, hcomma, hbetween⟩ := exists_read_comma hleft hc
      obtain ⟨v, after, rfl, hread, hafter⟩ := exists_read_next (hp.takes htoken hrest)
        (hp.solid htoken).begins hright (congrArg ungapped hbetween)
      exact ⟨between, after, hcomma, hread, hafter⟩

theorem fields_of_chain (hp : Tokens p T) (hchain : Chain (next do comma; next p) c values last)
    (hc : ungapped c.rest = ungapped text) :
    ∃ front fields behind, text = front ++ behind ∧ Fields front fields ∧
      List.Forall₂ T fields values ∧ ungapped last.rest = ungapped behind := by
  induction hchain generalizing text with
  | nil => exact ⟨[], [], text, rfl, .nil, .nil, hc⟩
  | cons hread _ ih =>
      rw [read_field] at hread
      obtain ⟨⟨u, between⟩, hcomma, hvalue⟩ := Option.bind_eq_some_iff.mp hread
      obtain ⟨first, token, rfl, hfirst, htoken⟩ := exists_field hp hc hcomma hvalue
      obtain ⟨front, fields, behind, hsplit, hfields, hvalues, hlast⟩ := ih rfl
      refine ⟨first ++ front, token :: fields, behind, ?_, hfirst.append hfields,
        .cons htoken hvalues, hlast⟩
      rw [hsplit, List.append_assoc]

theorem chain_of_fields (hp : Tokens p T) (hfields : Fields front fields)
    (hvalues : List.Forall₂ T fields values) (hrest : EndsToken rest)
    (hc : ungapped c.rest = ungapped (front ++ rest)) :
    ∃ last, Chain (next do comma; next p) c values last ∧ ungapped last.rest = ungapped rest := by
  induction hvalues generalizing c front with
  | nil =>
      cases hfields
      exact ⟨c, .nil c, hc⟩
  | @cons field v fields values htoken _ ih =>
      obtain ⟨first, others, rfl, hfirst, hothers⟩ := hfields.exists_append_cons
      rw [List.append_assoc] at hc
      obtain ⟨between, after, hcomma, hread, hafter⟩ :=
        exists_read_field hp hfirst htoken (hothers.endsToken hrest) hc
      obtain ⟨last, hchain, hlast⟩ := ih hothers (congrArg ungapped hafter)
      refine ⟨last, .cons ?_ hchain, hlast⟩
      rw [read_field, hcomma]
      exact hread

theorem fields_of_listed (hp : Tokens p T) (hc : ungapped c.rest = ungapped text)
    (h : (next (Grammar.listed p)).read c = some (values, after)) :
    ∃ front fields behind, text = front ++ behind ∧ Fields front fields ∧
      List.Forall₂ T fields values ∧ ungapped after.rest = ungapped behind := by
  obtain ⟨last, hchain, -, hafter⟩ := chain_of_several hp.progress_field h
  obtain ⟨front, fields, behind, htext, hfields, hvalues, hlast⟩ := fields_of_chain hp hchain hc
  exact ⟨front, fields, behind, htext, hfields, hvalues, hafter.trans hlast⟩

/-- The list ends where no further field can be read. -/
theorem exists_read_listed (hp : Tokens p T) (hfields : Fields front fields)
    (hvalues : List.Forall₂ T fields values) (hrest : EndsToken rest)
    (hend : ∀ last : Cursor, ungapped last.rest = ungapped rest →
      (next do comma; next p).read last = none)
    (hc : ungapped c.rest = ungapped (front ++ rest)) :
    ∃ after, (next (Grammar.listed p)).read c = some (values, after) ∧
      ungapped after.rest = ungapped rest := by
  obtain ⟨last, hchain, hlast⟩ := chain_of_fields hp hfields hvalues hrest hc
  obtain ⟨after, hread, hafter⟩ := several_of_chain hp.progress_field hchain (hend last hlast)
  exact ⟨after, hread, hafter.trans hlast⟩

/-- No field follows at the end of a line. -/
theorem read_field_of_blankAhead (p : Parser β) (hblank : BlankAhead rest)
    (hc : ungapped c.rest = ungapped rest) : (next do comma; next p).read c = none := by
  rw [read_field, read_comma_eq_none hc hblank]
  rfl

end Lists

end LinProg.Format
