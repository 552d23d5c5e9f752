import Mathlib.Data.Bool.AllAny
import LinProg.Proofs.Format.Gaps
import LinProg.Proofs.Format.Records

/-!
# How the tokens are spelled

Each kind of token has its spellings, and more than one may stand for the same value. The parser of
a kind takes a spelling off the front of a text, and it takes every spelling that a comma, a gap or
the end of the line follows.
-/

namespace LinProg.Format

open LinProg.Format.Parser LinProg.Format.Grammar

inductive RelationSpelled : List Char → Relation → Prop
  | text (r : Relation) : RelationSpelled r.text.toList r
  | single : RelationSpelled ['='] .equal

/-- A word in any case of its letters. -/
def DirectionSpelled (token : List Char) (d : Direction) : Prop :=
  token.map Char.toLower = d.text.toList

/-- A label in quotes. It has no quote in it, and it is on one line. -/
inductive LabelSpelled : List Char → String → Prop
  | intro {label : String} : Clean label → LabelSpelled ('"' :: (label.toList ++ ['"'])) label

/-- A whole number, which keeps its text. -/
inductive NumeralSpelled : List Char → Numeral → Prop
  | intro {token : List Char} {v : Int} :
      Decimal.Integer token v → NumeralSpelled token ⟨String.ofList token, v⟩

/-- A token does not go on here. -/
def EndsToken (rest : List Char) : Prop :=
  ∀ c ∈ rest.head?, c = ',' ∨ isSpace c = true ∨ c = '#' ∨ endsLine c = true

/-! ### What is read is a spelling -/

namespace Parser

variable {β γ : Type} {p : Parser β} {T : List Char → β → Prop}

/-- All that the parser reads is a spelling of its value. -/
def Reads (p : Parser β) (T : List Char → β → Prop) : Prop :=
  ∀ c v after, p.read c = some (v, after) → ∃ token, c.rest = token ++ after.rest ∧ T token v

theorem reads_piece {scan : List Char → Option (β × Nat)}
    (hscan : ∀ cs v n, scan cs = some (v, n) →
      ∃ token rest, cs = token ++ rest ∧ T token v ∧ n = token.length) : (piece scan).Reads T := by
  intro c v after h
  obtain ⟨⟨w, n⟩, hw, heq⟩ := Option.map_eq_some_iff.mp h
  obtain ⟨rfl, rfl⟩ := Prod.mk.inj heq
  obtain ⟨token, rest, hrest, htoken, rfl⟩ := hscan _ _ _ hw
  exact ⟨token, by rw [Cursor.rest_advance_length hrest, hrest], htoken⟩

theorem reads_pure (v : β) : (pure v : Parser β).Reads fun token w => token = [] ∧ w = v := by
  intro c w after h
  obtain ⟨rfl, rfl⟩ := Prod.mk.inj (Option.some.inj h)
  exact ⟨[], rfl, rfl, rfl⟩

theorem Reads.bind {q : β → Parser γ} {U : β → List Char → γ → Prop} (hp : p.Reads T)
    (hq : ∀ v, (q v).Reads (U v)) : (p >>= q).Reads fun token w =>
      ∃ front back v, token = front ++ back ∧ T front v ∧ U v back w := by
  intro c w after h
  obtain ⟨v, between, hv, hw⟩ := read_bind_eq_some_iff.mp h
  obtain ⟨front, hfront, htoken⟩ := hp c v between hv
  obtain ⟨back, hback, hvalue⟩ := hq v between w after hw
  refine ⟨front ++ back, ?_, front, back, v, rfl, htoken, hvalue⟩
  rw [hfront, hback, List.append_assoc]

theorem Reads.orElse {q : Parser β} (hp : p.Reads T) (hq : q.Reads T) : (p <|> q).Reads T := by
  intro c v after h
  rcases read_of_orElse h with h | h
  · exact hp c v after h
  · exact hq c v after h

theorem Reads.rule (name : Rule) (h : p.Reads T) : (Parser.rule name p).Reads T := h

theorem Reads.mono {U : List Char → β → Prop} (h : p.Reads T)
    (hTU : ∀ token v, T token v → U token v) : p.Reads U := by
  intro c v after hread
  obtain ⟨token, hrest, htoken⟩ := h c v after hread
  exact ⟨token, hrest, hTU token v htoken⟩

end Parser

theorem reads_word (text : String) : (word text).Reads fun token _ => token = text.toList := by
  apply reads_piece
  intro cs v n h
  split at h
  · next hprefix =>
      obtain ⟨-, rfl⟩ := Prod.mk.inj (Option.some.inj h)
      obtain ⟨rest, hrest⟩ := List.isPrefixOf_iff_prefix.mp hprefix
      exact ⟨text.toList, rest, hrest.symm, rfl, String.length_toList.symm⟩
  · cases h

theorem reads_word_return {β : Type} (text : String) (v : β) :
    (do word text; return v : Parser β).Reads fun token w => token = text.toList ∧ w = v := by
  refine ((reads_word text).bind fun _ => reads_pure v).mono ?_
  rintro _ w ⟨front, back, -, rfl, rfl, rfl, rfl⟩
  exact ⟨List.append_nil _, rfl⟩

theorem reads_relation : relation.Reads RelationSpelled := by
  have hword (r : Relation) : (do word r.text; return r : Parser Relation).Reads RelationSpelled :=
    (reads_word_return r.text r).mono fun _ _ h => h.1 ▸ h.2 ▸ .text r
  have hsingle : (do word "="; return .equal : Parser Relation).Reads RelationSpelled :=
    (reads_word_return "=" _).mono fun _ _ h => h.1 ▸ h.2 ▸ .single
  exact Reads.rule _
    ((hword .lessEq).orElse ((hword .equal).orElse ((hword .greaterEq).orElse hsingle)))

theorem reads_keyword (text : String) :
    (keyword text).Reads fun token _ => token.map Char.toLower = text.toList := by
  apply reads_piece
  intro cs v n h
  split at h
  · next hlower =>
      obtain ⟨-, rfl⟩ := Prod.mk.inj (Option.some.inj h)
      have hlength := congrArg List.length hlower
      rw [List.length_map, String.length_toList] at hlength
      exact ⟨_, _, (List.take_append_drop _ _).symm, hlower, hlength.symm⟩
  · cases h

theorem reads_direction : direction.Reads DirectionSpelled := by
  have hword (d : Direction) (name : Rule) :
      (Parser.rule name do keyword d.text; return d : Parser Direction).Reads DirectionSpelled := by
    refine Reads.rule _ (((reads_keyword d.text).bind fun _ => reads_pure d).mono ?_)
    rintro _ w ⟨front, back, -, rfl, hfront, rfl, rfl⟩
    rwa [List.append_nil]
  exact Reads.rule _ ((hword .minimize .minimize).orElse (hword .maximize .maximize))

theorem reads_labelText :
    (piece scanLabelText).Reads fun token text => token = text.toList ∧ Clean text := by
  apply reads_piece
  intro cs text n h
  obtain ⟨rfl, rfl⟩ := Prod.mk.inj (Option.some.inj h)
  refine ⟨_, _, List.takeWhile_append_dropWhile.symm, ⟨String.toList_ofList.symm, ?_⟩, rfl⟩
  intro c hc
  rw [String.toList_ofList] at hc
  simpa using List.mem_takeWhile_imp hc

theorem reads_label : label.Reads LabelSpelled := by
  refine Reads.rule _ (((reads_word "\"").bind fun _ => (Reads.rule _ reads_labelText).bind
    fun text => reads_word_return "\"" text).mono ?_)
  rintro _ label ⟨open_, rest, -, rfl, rfl, text, close, _, rfl, ⟨rfl, hclean⟩, rfl, rfl⟩
  exact .intro hclean

theorem reads_integer : integer.Reads NumeralSpelled := by
  refine Reads.rule _ (reads_piece ?_)
  intro cs v n h
  obtain ⟨sign, rest, hcs, hsign, hlength⟩ := Decimal.exists_sign cs
  have hrun := Decimal.digitRun_append_drop rest
  unfold scanNumeral at h
  dsimp only at h
  rw [Decimal.drop_of_eq_append hcs hlength] at h
  split at h
  · cases h
  · next hne =>
      obtain ⟨rfl, rfl⟩ := Prod.mk.inj (Option.some.inj h)
      have hsplit : cs = (sign ++ Decimal.digitRun rest)
          ++ rest.drop (Decimal.digitRun rest).length := by
        rw [List.append_assoc, hrun, ← hcs]
      have hsize : (Decimal.scanSign cs).2 + (Decimal.digitRun rest).length
          = (sign ++ Decimal.digitRun rest).length := by rw [hlength, List.length_append]
      have htake : cs.take ((Decimal.scanSign cs).2 + (Decimal.digitRun rest).length)
          = sign ++ Decimal.digitRun rest := by
        rw [hsize]
        exact (congrArg (List.take _) hsplit).trans List.take_left
      refine ⟨_, _, hsplit, ?_, hsize⟩
      rw [htake]
      exact .intro (.intro hsign (by simpa using hne) (Decimal.digits_digitRun rest))

theorem reads_number : number.Reads Decimal.Spelled :=
  Reads.rule _ (reads_piece fun _ _ _ h => Decimal.exists_spelled h)

/-! ### A spelling is taken as a whole -/

section Takes

variable {token rest : List Char}

theorem endsToken_of_spaces {spaces : List Char} {c : Char} (h : Spaces spaces)
    (hc : c = ',' ∨ isSpace c = true ∨ c = '#' ∨ endsLine c = true) (rest : List Char) :
    EndsToken (spaces ++ c :: rest) := by
  cases spaces with
  | nil =>
      intro d hd
      obtain rfl := Option.some.inj hd
      exact hc
  | cons s spaces =>
      intro d hd
      obtain rfl := Option.some.inj hd
      exact .inr (.inl (h s List.mem_cons_self))

theorem BlankAhead.endsToken (h : BlankAhead rest) : EndsToken rest := by
  unfold BlankAhead at h
  obtain ⟨spaces, behind, hspaces, rfl, hcases⟩ := gap_cases rest
  cases spaces with
  | cons s spaces =>
      intro c hc
      obtain rfl := Option.some.inj hc
      exact .inr (.inl (hspaces s List.mem_cons_self))
  | nil =>
      intro c hc
      rcases hcases with hfree | ⟨comment, last, rfl, -⟩
      · rw [List.nil_append, ungapped_of_gapFree hfree] at h
        exact .inr (.inr (.inr (h c hc)))
      · exact .inr (.inr (.inl (Option.some.inj hc).symm))

theorem EndsToken.endsNumber (h : EndsToken rest) : Decimal.EndsNumber rest := by
  intro c hc
  have hkind := h c hc
  simp only [isSpace, endsLine, Bool.or_eq_true, decide_eq_true_eq] at hkind
  rcases hkind with rfl | (rfl | rfl) | rfl | rfl | rfl <;> decide

theorem takes_relationSpelled {r : Relation} (h : RelationSpelled token r)
    (hrest : EndsToken rest) : relation.Takes token rest (· = r) := by
  cases h with
  | text => exact takes_relation r rest
  | single =>
      -- An `=` with a second one behind it would be the longer sign.
      have hsecond : "==".toList.isPrefixOf (['='] ++ rest) = false := by
        cases rest with
        | nil => rfl
        | cons c rest =>
            have hkind := hrest c rfl
            have hne : c ≠ '=' := by
              rintro rfl
              revert hkind
              decide
            show ('=' == c && [].isPrefixOf rest) = false
            rw [beq_false_of_ne hne.symm, Bool.false_and]
      refine Takes.rule _ (Refuses.orElse_takes ((refuses_word rfl).bind _) ?_)
      refine Refuses.orElse_takes ((refuses_word hsecond).bind _) ?_
      refine Refuses.orElse_takes ((refuses_word rfl).bind _) ?_
      exact takes_word_return "=" _ rest

theorem takes_labelSpelled {text : String} (h : LabelSpelled token text) (rest : List Char) :
    label.Takes token rest (· = text) := by
  cases h with
  | intro hclean => exact takes_cleanLabel hclean rest

theorem takes_numeralSpelled {n : Numeral} (h : NumeralSpelled token n) (hrest : EndsToken rest) :
    integer.Takes token rest (· = n) := by
  cases h with
  | intro h => exact Takes.rule _ (takes_piece (scanNumeral_append h hrest.endsNumber.endsDigits))

theorem takes_numberSpelled {d : Decimal} (h : Decimal.Spelled token d) (hrest : EndsToken rest) :
    number.Takes token rest (· = d) :=
  Takes.rule _ (takes_piece (Decimal.scan_spelled h hrest.endsNumber))

end Takes

/-! ### Tokens are solid -/

section Solid

variable {token : List Char}

/-- A character that neither ends a token nor opens a label or a comment. -/
def Ordinary (c : Char) : Prop := (isSpace c = false ∧ endsLine c = false) ∧ c ≠ '#' ∧ c ≠ '"'

instance (c : Char) : Decidable (Ordinary c) := instDecidableAnd

theorem solid_of_ordinary (hne : token ≠ []) (h : ∀ c ∈ token, Ordinary c) : Solid token where
  begins := by
    obtain ⟨c, cs, rfl⟩ := List.exists_cons_of_ne_nil hne
    obtain ⟨⟨hspace, hline⟩, hhash, -⟩ := h c List.mem_cons_self
    exact beginsRecord_cons cs ⟨⟨hspace, hhash⟩, hline⟩
  ends c hc := (h c (List.mem_of_mem_getLast? hc)).1.1
  onLine c hc := (h c hc).1.2
  closed := uncommented_append (fun c hc => (h c hc).2) false

theorem ordinary_iff {c : Char} :
    Ordinary c ↔ ∀ b ∈ [' ', '\t', '\n', '\r', '#', '"'], c ≠ b := by
  simp [Ordinary, isSpace, endsLine, and_assoc]

theorem ordinary_of_isDigit {c : Char} (hc : c.isDigit) : Ordinary c := by
  have hother : ∀ b ∈ [' ', '\t', '\n', '\r', '#', '"'], b.isDigit = false :=
    List.all_iff_forall_prop.mp (by decide)
  rw [ordinary_iff]
  rintro b hb rfl
  rw [hother c hb] at hc
  cases hc

theorem ordinary_of_sign {negative : Bool} (h : Decimal.Sign token negative) :
    ∀ c ∈ token, Ordinary c := by
  cases h <;> exact List.all_iff_forall_prop.mp (by decide)

theorem ordinary_of_integer {v : Int} (h : Decimal.Integer token v) :
    token ≠ [] ∧ ∀ c ∈ token, Ordinary c := by
  obtain ⟨hsign, hne, hrun⟩ := h
  refine ⟨List.append_ne_nil_of_right_ne_nil _ hne, List.forall_mem_append.mpr ?_⟩
  exact ⟨ordinary_of_sign hsign, fun c hc => ordinary_of_isDigit (hrun c hc)⟩

theorem ordinary_of_spelled {d : Decimal} (h : Decimal.Spelled token d) :
    token ≠ [] ∧ ∀ c ∈ token, Ordinary c := by
  obtain ⟨hsign, hfigures, hexponent⟩ := h
  have hmiddle : ∀ {figures whole fraction}, Decimal.Figures figures whole fraction →
      figures ≠ [] ∧ ∀ c ∈ figures, Ordinary c := by
    intro figures whole fraction hfigures
    cases hfigures with
    | whole hne hrun => exact ⟨hne, fun c hc => ordinary_of_isDigit (hrun c hc)⟩
    | pointed _ hwhole hfraction =>
        refine ⟨by simp, List.forall_mem_append.mpr
          ⟨fun c hc => ordinary_of_isDigit (hwhole c hc), List.forall_mem_cons.mpr ⟨by decide, ?_⟩⟩⟩
        exact fun c hc => ordinary_of_isDigit (hfraction c hc)
  have hback : ∀ {exponent power}, Decimal.Exponent exponent power →
      ∀ c ∈ exponent, Ordinary c := by
    intro exponent power hexponent
    cases hexponent with
    | none => exact nofun
    | some he hinteger =>
        refine List.forall_mem_cons.mpr ⟨?_, (ordinary_of_integer hinteger).2⟩
        rcases he with rfl | rfl <;> decide
  obtain ⟨hne, hordinary⟩ := hmiddle hfigures
  refine ⟨?_, List.forall_mem_append.mpr ⟨ordinary_of_sign hsign, List.forall_mem_append.mpr
    ⟨hordinary, hback hexponent⟩⟩⟩
  exact List.append_ne_nil_of_right_ne_nil _ (List.append_ne_nil_of_left_ne_nil hne _)

theorem solid_relation {r : Relation} (h : RelationSpelled token r) : Solid token := by
  cases h with
  | text =>
      cases r <;> exact solid_of_ordinary (by decide) (List.all_iff_forall_prop.mp (by decide))
  | single => exact solid_of_ordinary (by decide) (List.all_iff_forall_prop.mp (by decide))

theorem solid_direction {d : Direction} (h : DirectionSpelled token d) : Solid token := by
  have hother : ∀ b ∈ [' ', '\t', '\n', '\r', '#', '"'], b.toLower ∉ d.text.toList := by
    cases d <;> exact List.all_iff_forall_prop.mp (by decide)
  have hne : d.text.toList ≠ [] := by cases d <;> decide
  refine solid_of_ordinary ?_ ?_
  · rintro rfl
    exact hne h.symm
  · intro c hc
    rw [ordinary_iff]
    rintro b hb rfl
    exact hother c hb (h ▸ List.mem_map_of_mem hc)

theorem uncommented_label {label : List Char} (h : ∀ c ∈ label, endsLabel c = false)
    (text : List Char) :
    uncommented true (label ++ '"' :: text) = label ++ '"' :: uncommented false text := by
  induction label with
  | nil => rfl
  | cons c label ih =>
      obtain ⟨hc, hlabel⟩ := List.forall_mem_cons.mp h
      have hquote : c ≠ '"' := by
        rintro rfl
        cases hc
      rw [List.cons_append, uncommented, if_neg (by simp)]
      simp [hquote, ih hlabel]

theorem solid_label {text : String} (h : LabelSpelled token text) : Solid token := by
  cases h with
  | intro hclean =>
      refine ⟨beginsRecord_cons _ (by decide), ?_, ?_, ?_⟩
      · have hlast : ('"' :: (text.toList ++ ['"'])).getLast? = some '"' := by
          rw [← List.cons_append, List.getLast?_concat]
        intro c hc
        rw [hlast] at hc
        obtain rfl := Option.some.inj hc
        decide
      · refine List.forall_mem_cons.mpr ⟨by decide, List.forall_mem_append.mpr
          ⟨?_, List.forall_mem_singleton.mpr (by decide)⟩⟩
        intro c hc
        exact (Bool.or_eq_false_iff.mp (hclean c hc)).2
      · intro rest
        have hopen : (false ^^ decide ('"' = '"')) = true := by decide
        rw [List.cons_append, List.append_assoc, List.singleton_append, uncommented,
          if_neg (by decide), hopen, uncommented_label hclean]
        simp

theorem solid_numeral {n : Numeral} (h : NumeralSpelled token n) : Solid token := by
  obtain ⟨h⟩ := h
  exact solid_of_ordinary (ordinary_of_integer h).1 (ordinary_of_integer h).2

theorem solid_number {d : Decimal} (h : Decimal.Spelled token d) : Solid token :=
  solid_of_ordinary (ordinary_of_spelled h).1 (ordinary_of_spelled h).2

end Solid

end LinProg.Format
