import LinProg.Format.Writer
import LinProg.Proofs.Decimal.Plain
import LinProg.Proofs.Format.Takes

/-!
# The tokens of LP texts

A token takes what the writer puts down for it. The writer leaves no gaps, so each token comes
directly behind the one before, and the head of the rest says where a token ends.
-/

namespace LinProg.Format

open LinProg.Format.Parser LinProg.Format.Grammar

variable {β ι : Type} {p : Parser β} {front rest text : List Char} {P : β → Prop}

/-! ### Gaps -/

/-- The text does not go on with a space, a tab or a comment. -/
def GapFree (text : List Char) : Prop := ∀ c ∈ text.head?, isSpace c = false ∧ c ≠ '#'

theorem gapFree_cons {c : Char} {cs : List Char} (hc : isSpace c = false ∧ c ≠ '#') :
    GapFree (c :: cs) := by
  intro d hd
  obtain rfl : c = d := Option.some.inj hd
  exact hc

theorem gapLength_of_gapFree (h : GapFree text) : gapLength text = 0 := by
  cases text with
  | nil => rfl
  | cons c cs =>
      obtain ⟨hspace, hcomment⟩ := h c rfl
      simp [gapLength, hspace, hcomment]

theorem takes_gap (hrest : GapFree rest) : gap.Takes [] rest fun _ => True := by
  refine takes_piece_unit ?_
  rw [List.nil_append, gapLength_of_gapFree hrest, List.length_nil]

theorem Parser.Takes.next (h : p.Takes front rest P) (hgap : GapFree (front ++ rest)) :
    (next p).Takes front rest P :=
  (takes_gap hgap).bind fun _ _ => h

theorem Parser.Refuses.next (h : p.Refuses text) (hgap : GapFree text) : (next p).Refuses text :=
  (takes_gap hgap).bind_refuses fun _ _ => h

section Several

variable {items : List ι} {write : ι → List Char} {K : List Char → Prop} {Q : ι → β → Prop}

theorem Parser.TakesItems.next (h : p.TakesItems items write rest K Q)
    (hgap : ∀ k, K k → GapFree k) : (next p).TakesItems items write rest K Q where
  nonempty := h.nonempty
  takes x hx k hk := (h.takes x hx k hk).next (hgap _ (h.before x hx k hk))
  before := h.before
  ends := h.ends
  refuses := h.refuses.next (hgap _ h.ends)

theorem Parser.Refuses.several (h : p.Refuses rest) : (several p).Takes [] rest (· = []) :=
  Refuses.orElse_takes (h.bind _) (takes_pure rest rfl)

theorem Parser.TakesItems.several (h : p.TakesItems items write rest K Q)
    (hgap : ∀ k, K k → GapFree k) :
    (several p).Takes (items.map write).flatten rest (List.Forall₂ Q items) := by
  cases items with
  | nil =>
      exact h.refuses.several.mono fun _ hv => hv ▸ .nil
  | cons x items =>
      refine Takes.orElse (h.takes_head.bind fun v hv => ?_) _
      exact (h.tail.next hgap).many.map fun _ hvalues => .cons hv hvalues

end Several

/-! ### Line ends -/

/-- The text starts with a record: there is no gap and no line end in front of it. -/
def BeginsRecord (text : List Char) : Prop :=
  ∃ c cs, text = c :: cs ∧ (isSpace c = false ∧ c ≠ '#') ∧ endsLine c = false

theorem beginsRecord_cons {c : Char} (cs : List Char)
    (hc : (isSpace c = false ∧ c ≠ '#') ∧ endsLine c = false) : BeginsRecord (c :: cs) :=
  ⟨c, cs, rfl, hc⟩

theorem BeginsRecord.append (h : BeginsRecord text) (rest : List Char) :
    BeginsRecord (text ++ rest) := by
  obtain ⟨c, cs, rfl, hc⟩ := h
  exact ⟨c, cs ++ rest, rfl, hc⟩

theorem BeginsRecord.gapFree (h : BeginsRecord text) (rest : List Char) :
    GapFree (text ++ rest) := by
  obtain ⟨c, cs, rfl, hc, -⟩ := h
  exact gapFree_cons hc

theorem takes_lineEnd (rest : List Char) : lineEnd.Takes ['\n'] rest fun _ => True :=
  takes_piece_unit rfl

theorem refuses_lineEnd_nil : lineEnd.Refuses [] := refuses_piece rfl

theorem refuses_lineEnd (h : BeginsRecord text) (rest : List Char) :
    lineEnd.Refuses (text ++ rest) := by
  obtain ⟨c, cs, rfl, -, hc⟩ := h
  simp only [endsLine, Bool.or_eq_false_iff, decide_eq_false_iff_not] at hc
  exact refuses_piece (by simp [lineEndLength?, hc])

/-- The first record is on the first line. -/
theorem Parser.Takes.firstLine {γ : Type} {q : List Unit → Parser γ} {Q : γ → Prop}
    (hq : ∀ v, (q v).Takes front rest Q) (h : BeginsRecord front) :
    (Grammar.next (Grammar.several lineEnd) >>= q).Takes front rest Q := by
  have hlineEnds : (Grammar.next (Grammar.several lineEnd)).Takes [] (front ++ rest) (· = []) :=
    (refuses_lineEnd h rest).several.next (h.gapFree rest)
  exact hlineEnds.bind fun v _ => hq v

theorem takes_lineEnds (h : BeginsRecord front) (rest : List Char) :
    (several1 lineEnd).Takes ['\n'] (front ++ rest) fun _ => True := by
  refine (takes_lineEnd ([] ++ (front ++ rest))).bind fun _ _ => ?_
  exact ((refuses_lineEnd h rest).several.next (h.gapFree rest)).map fun _ _ => trivial

/-- The next record is on the next line. -/
theorem Parser.Takes.newLine {γ : Type} {q : List Unit → Parser γ} {Q : γ → Prop}
    (hq : ∀ v, (q v).Takes front rest Q) (h : BeginsRecord front) :
    (several1 lineEnd >>= q).Takes ('\n' :: front) rest Q :=
  (takes_lineEnds h rest).bind fun v _ => hq v

theorem Parser.Refuses.newLine {γ : Type} {q : List Unit → Parser γ}
    (hq : ∀ v, (q v).Refuses (front ++ rest)) (h : BeginsRecord front) :
    (several1 lineEnd >>= q).Refuses ('\n' :: (front ++ rest)) :=
  (takes_lineEnds h rest).bind_refuses fun v _ => hq v

theorem Parser.Takes.nextLine {γ : Type} {q : List Unit → Parser γ} {Q : γ → Prop}
    (hq : ∀ v, (q v).Takes front rest Q) (h : BeginsRecord front) :
    (Grammar.next (several1 lineEnd) >>= q).Takes ('\n' :: front) rest Q := by
  have hgap : GapFree ('\n' :: (front ++ rest)) := gapFree_cons (by decide)
  exact ((takes_lineEnds h rest).next hgap).bind fun v _ => hq v

theorem takes_endOfInput : endOfInput.Takes [] [] fun _ => True :=
  Takes.rule _ (takes_piece_unit rfl)

/-- Nothing comes behind the end of the last record. -/
theorem takes_lastLine {v : β} (hv : P v) :
    (do let _ ← next (several lineEnd); next endOfInput; return v : Parser β).Takes ['\n'] [] P := by
  have hitems : lineEnd.TakesItems [()] (fun _ => ['\n']) [] GapFree fun _ _ => True :=
    { nonempty := fun _ _ => List.cons_ne_nil _ _
      takes := fun _ _ k _ => takes_lineEnd k
      before := fun _ _ _ _ => gapFree_cons (by decide)
      ends := by simp [GapFree]
      refuses := refuses_lineEnd_nil }
  have hlineEnds : (next (several lineEnd)).Takes ['\n'] [] (List.Forall₂ (fun _ _ => True) [()]) :=
    (hitems.several fun _ hk => hk).next (gapFree_cons (by decide))
  have hend : (next endOfInput).Takes [] [] fun _ => True :=
    takes_endOfInput.next (by simp [GapFree])
  exact hlineEnds.bind fun _ _ => hend.map fun _ _ => hv

/-! ### Words -/

theorem takes_word (text : String) (rest : List Char) :
    (word text).Takes text.toList rest fun _ => True := by
  refine takes_piece_unit ?_
  simp [String.length_toList]

theorem refuses_word {word : String} (h : word.toList.isPrefixOf text = false) :
    (Grammar.word word).Refuses text :=
  refuses_piece (by simp [h])

/-- A word that stands for a value. -/
theorem takes_word_return (text : String) (v : β) (rest : List Char) :
    (do word text; return v : Parser β).Takes text.toList rest (· = v) :=
  (takes_word text rest).map fun _ _ => rfl

theorem take_keyword {token : List Char} {text : String}
    (h : token.map Char.toLower = text.toList) (rest : List Char) :
    (token ++ rest).take text.length = token := by
  have hlength := congrArg List.length h
  rw [List.length_map, String.length_toList] at hlength
  rw [← hlength, List.take_left]

theorem takes_keyword {token : List Char} {text : String}
    (h : token.map Char.toLower = text.toList) (rest : List Char) :
    (keyword text).Takes token rest fun _ => True := by
  have hlength := congrArg List.length h
  rw [List.length_map, String.length_toList] at hlength
  refine takes_piece_unit ?_
  rw [take_keyword h, if_pos h, hlength]

theorem refuses_keyword {token : List Char} {text other : String}
    (h : token.map Char.toLower = text.toList) (hlength : other.length = text.length)
    (hne : text.toList ≠ other.toList) (rest : List Char) :
    (keyword other).Refuses (token ++ rest) := by
  refine refuses_piece ?_
  rw [hlength, take_keyword h, h, if_neg hne]

theorem takes_relation (r : Relation) (rest : List Char) :
    relation.Takes r.text.toList rest (· = r) := by
  refine Takes.rule _ ?_
  cases r with
  | lessEq =>
      exact (takes_word_return "<=" _ rest).orElse _
  | equal =>
      refine Refuses.orElse_takes ((refuses_word rfl).bind _) ?_
      exact (takes_word_return "==" _ rest).orElse _
  | greaterEq =>
      refine Refuses.orElse_takes ((refuses_word rfl).bind _) ?_
      refine Refuses.orElse_takes ((refuses_word rfl).bind _) ?_
      exact (takes_word_return ">=" _ rest).orElse _

theorem takes_direction {token : List Char} {d : Direction}
    (h : token.map Char.toLower = d.text.toList) (rest : List Char) :
    direction.Takes token rest (· = d) := by
  refine Takes.rule _ ?_
  cases d with
  | minimize =>
      refine Takes.orElse (Takes.rule _ ?_) _
      exact (takes_keyword h rest).map fun _ _ => rfl
  | maximize =>
      have hlower : token.map Char.toLower = "maximize".toList := h
      have hother : (keyword "minimize").Refuses (token ++ rest) :=
        refuses_keyword hlower (by decide) (by decide) rest
      refine Refuses.orElse_takes (Refuses.rule _ (hother.bind _)) (Takes.rule _ ?_)
      exact (takes_keyword h rest).map fun _ _ => rfl

/-! ### Fields -/

/-- The text does not go on with the field before it. -/
def EndsField (text : List Char) : Prop := ∀ c ∈ text.head?, c = ',' ∨ c = '\n'

theorem endsField_cons {c : Char} {cs : List Char} (hc : c = ',' ∨ c = '\n') :
    EndsField (c :: cs) := by
  intro d hd
  obtain rfl : c = d := Option.some.inj hd
  exact hc

/-- The text does not go on with the record before it. -/
def EndsRecord (text : List Char) : Prop := ∀ c ∈ text.head?, c = '\n'

theorem endsRecord_cons (cs : List Char) : EndsRecord ('\n' :: cs) := by
  intro d hd
  exact (Option.some.inj hd).symm

theorem EndsRecord.endsField (h : EndsRecord text) : EndsField text := fun c hc => .inr (h c hc)

theorem EndsField.gapFree (h : EndsField text) : GapFree text := by
  intro c hc
  rcases h c hc with rfl | rfl <;> decide

theorem EndsField.endsNumber (h : EndsField text) : Decimal.EndsNumber text := by
  intro c hc
  rcases h c hc with rfl | rfl <;> decide

theorem takes_comma (rest : List Char) : comma.Takes [','] rest fun _ => True := takes_word "," rest

theorem Parser.Takes.comma {γ : Type} {q : Unit → Parser γ} {Q : γ → Prop}
    (hq : (q ()).Takes front rest Q) :
    (Grammar.next Grammar.comma >>= q).Takes (',' :: front) rest Q := by
  have hgap : GapFree (',' :: (front ++ rest)) := gapFree_cons (by decide)
  exact ((takes_comma (front ++ rest)).next hgap).bind fun _ _ => hq

theorem refuses_comma (h : EndsRecord text) : comma.Refuses text := by
  refine refuses_word ?_
  cases text with
  | nil => rfl
  | cons c cs =>
      obtain rfl : c = '\n' := h c rfl
      rfl

/-- Fields with a comma in front of each one. The last one has to end the list, so that there is no
further field to take. -/
theorem takes_listed {items : List ι} {write : ι → List Char} {Q : ι → β → Prop}
    (htakes : ∀ x ∈ items, ∀ k, EndsField k → p.Takes (write x) k (Q x))
    (hgap : ∀ x ∈ items, ∀ k, GapFree (write x ++ k)) (hends : EndsField rest)
    (hrefuses : (do comma; next p : Parser β).Refuses rest) :
    (next (Grammar.listed p)).Takes (items.map fun x => ',' :: write x).flatten rest
      (List.Forall₂ Q items) := by
  have hitems : (do comma; next p : Parser β).TakesItems items (fun x => ',' :: write x) rest
      EndsField Q :=
    { nonempty := fun _ _ => List.cons_ne_nil _ _
      takes := fun x hx k hk => (takes_comma _).bind fun _ _ => (htakes x hx k hk).next (hgap x hx k)
      before := fun _ _ _ _ => endsField_cons (.inl rfl)
      ends := hends
      refuses := hrefuses }
  exact (hitems.several fun _ hk => hk.gapFree).next hitems.following.gapFree

end LinProg.Format
