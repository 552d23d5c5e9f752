import LinProg.Proofs.Format.Places
import LinProg.Proofs.Format.RecordLines

/-!
# The line that a parser notes

From each place of a text the lines are counted to the same last one, so the line of a place can be
told from the text that is left. A parser may therefore skip gaps and line ends as it likes: a record
is noted on the line that it stands on.
-/

namespace LinProg.Format

open LinProg.Format.Parser LinProg.Format.Grammar

namespace Cursor

/-- The line that the text ends on. -/
def lastLine (c : Cursor) : Nat := c.line + lineFeeds c.rest

theorem lastLine_advance (n : Nat) (c : Cursor) : (c.advance n).lastLine = c.lastLine := by
  have hcount : lineFeeds (c.rest.take n) + lineFeeds (c.rest.drop n) = lineFeeds c.rest := by
    unfold lineFeeds
    rw [← List.count_append, List.take_append_drop]
  unfold lastLine advance
  rw [Nat.add_assoc, hcount]

/-- What is left of the text says this, record by record. -/
def records (c : Cursor) : List (Nat × List Char) := recordsFrom c.line c.rest

theorem map_snd_records (c : Cursor) : c.records.map Prod.snd = contents c.rest :=
  map_snd_recordsFrom c.line c.rest

end Cursor

theorem OnLine.lineFeeds {cs : List Char} (h : OnLine cs) : Cursor.lineFeeds cs = 0 :=
  List.count_eq_zero.mpr h.feed_not_mem

theorem lineFeeds_ungapped (text : List Char) :
    Cursor.lineFeeds (ungapped text) = Cursor.lineFeeds text := by
  obtain ⟨spaces, rest, hspaces, rfl, hfree | ⟨comment, behind, rfl, hcomment, hend⟩⟩ :=
    gap_cases text
  · have hnone := hspaces.onLine.lineFeeds
    unfold Cursor.lineFeeds at hnone ⊢
    rw [ungapped_spaces hspaces, ungapped_of_gapFree hfree, List.count_append, hnone, Nat.zero_add]
  · have hline : OnLine (spaces ++ '#' :: comment) :=
      hspaces.onLine.append (List.forall_mem_cons.mpr ⟨by decide, hcomment⟩)
    have hnone := hline.lineFeeds
    unfold Cursor.lineFeeds at hnone ⊢
    rw [ungapped_spaces hspaces, ungapped_comment hcomment hend, ← List.cons_append,
      ← List.append_assoc, List.count_append, hnone, Nat.zero_add]

/-- Up to a gap, a place is known from the text that is left there. -/
theorem Cursor.line_eq_of_rest {c c' : Cursor} (hlast : c'.lastLine = c.lastLine)
    (hrest : ungapped c'.rest = ungapped c.rest) : c'.line = c.line := by
  have hfeeds : lineFeeds c'.rest = lineFeeds c.rest := by
    rw [← lineFeeds_ungapped, hrest, lineFeeds_ungapped]
  unfold lastLine at hlast
  omega

theorem Cursor.records_congr {c c' : Cursor} (hlast : c'.lastLine = c.lastLine)
    (hrest : ungapped c'.rest = ungapped c.rest) : c'.records = c.records := by
  unfold records
  rw [line_eq_of_rest hlast hrest, recordsFrom_congr _ hrest]

theorem Cursor.line_skipGap (c : Cursor) : c.skipGap.line = c.line :=
  line_eq_of_rest (c.lastLine_advance _) (ungapped_ungapped c.rest)

/-! ### Parsers move along the text -/

namespace Parser

variable {β γ : Type} {p : Parser β}

def KeepsLastLine (p : Parser β) : Prop :=
  ∀ c v after, p.read c = some (v, after) → after.lastLine = c.lastLine

theorem keepsLastLine_pure (v : β) : (pure v : Parser β).KeepsLastLine := by
  intro c w after h
  obtain ⟨-, rfl⟩ := Prod.mk.inj (Option.some.inj h)
  rfl

theorem keepsLastLine_line : Parser.line.KeepsLastLine := by
  intro c v after h
  obtain ⟨-, rfl⟩ := Prod.mk.inj (Option.some.inj h)
  rfl

theorem keepsLastLine_piece (scan : List Char → Option (β × Nat)) :
    (piece scan).KeepsLastLine := by
  intro c v after h
  obtain ⟨⟨w, n⟩, -, heq⟩ := Option.map_eq_some_iff.mp h
  obtain ⟨-, rfl⟩ := Prod.mk.inj heq
  exact c.lastLine_advance n

theorem KeepsLastLine.rule (name : Rule) (h : p.KeepsLastLine) :
    (Parser.rule name p).KeepsLastLine := h

theorem KeepsLastLine.bind {q : β → Parser γ} (hp : p.KeepsLastLine)
    (hq : ∀ v, (q v).KeepsLastLine) : (p >>= q).KeepsLastLine := by
  intro c w after h
  obtain ⟨v, between, hv, hw⟩ := read_bind_eq_some_iff.mp h
  exact (hq v between w after hw).trans (hp c v between hv)

theorem KeepsLastLine.orElse {q : Parser β} (hp : p.KeepsLastLine) (hq : q.KeepsLastLine) :
    (p <|> q).KeepsLastLine := by
  intro c v after h
  rcases read_of_orElse h with h | h
  · exact hp c v after h
  · exact hq c v after h

theorem KeepsLastLine.many (hp : p.KeepsLastLine) : p.many.KeepsLastLine := by
  have hread : ∀ (limit : List Char) c, (p.readUpTo limit c).2.lastLine = c.lastLine := by
    intro limit
    induction limit with
    | nil => exact fun _ => rfl
    | cons _ limit ih =>
        intro c
        rw [readUpTo]
        split
        · rfl
        · next v after hv => exact (ih after).trans (hp c v after hv)
  intro c values after h
  obtain ⟨-, rfl⟩ := Prod.mk.inj (Option.some.inj h)
  exact hread (limit c) c

theorem KeepsLastLine.next (hp : p.KeepsLastLine) : (Grammar.next p).KeepsLastLine :=
  KeepsLastLine.bind (keepsLastLine_piece _) fun _ => hp

theorem KeepsLastLine.several (hp : p.KeepsLastLine) : (Grammar.several p).KeepsLastLine :=
  KeepsLastLine.orElse (hp.bind fun _ => hp.next.many.bind fun _ => keepsLastLine_pure _)
    (keepsLastLine_pure _)

theorem KeepsLastLine.several1 (hp : p.KeepsLastLine) : (Grammar.several1 p).KeepsLastLine :=
  hp.bind fun _ => hp.several.next.bind fun _ => keepsLastLine_pure _

theorem keepsLastLine_word (text : String) : (word text).KeepsLastLine := keepsLastLine_piece _

theorem keepsLastLine_comma : Grammar.comma.KeepsLastLine := keepsLastLine_word _

theorem KeepsLastLine.listed (hp : p.KeepsLastLine) : (Grammar.listed p).KeepsLastLine :=
  KeepsLastLine.several (keepsLastLine_comma.bind fun _ => hp.next)

theorem Chain.lastLine_eq (hp : p.KeepsLastLine) {c last : Cursor} {values : List β}
    (h : Chain p c values last) : last.lastLine = c.lastLine := by
  induction h with
  | nil => rfl
  | cons hread _ ih => exact ih.trans (hp _ _ _ hread)

end Parser

theorem keepsLastLine_lineEnd : lineEnd.KeepsLastLine := keepsLastLine_piece _

theorem keepsLastLine_direction : direction.KeepsLastLine := by
  have hkeyword (text : String) : (keyword text).KeepsLastLine := keepsLastLine_piece _
  refine KeepsLastLine.rule _ (KeepsLastLine.orElse ?_ ?_)
  · exact KeepsLastLine.rule _ ((hkeyword _).bind fun _ => keepsLastLine_pure _)
  · exact KeepsLastLine.rule _ ((hkeyword _).bind fun _ => keepsLastLine_pure _)

theorem keepsLastLine_label : label.KeepsLastLine := by
  refine KeepsLastLine.rule _ ((keepsLastLine_word _).bind fun _ => ?_)
  refine KeepsLastLine.bind (KeepsLastLine.rule _ (keepsLastLine_piece _)) fun _ => ?_
  exact (keepsLastLine_word _).bind fun _ => keepsLastLine_pure _

theorem keepsLastLine_integer : integer.KeepsLastLine :=
  KeepsLastLine.rule _ (keepsLastLine_piece _)

theorem keepsLastLine_number : number.KeepsLastLine :=
  KeepsLastLine.rule _ (keepsLastLine_piece _)

theorem keepsLastLine_relation : relation.KeepsLastLine := by
  have hword (text : String) (r : Relation) :
      (do word text; return r : Parser Relation).KeepsLastLine :=
    (keepsLastLine_word text).bind fun _ => keepsLastLine_pure r
  exact KeepsLastLine.rule _
    ((hword _ _).orElse ((hword _ _).orElse ((hword _ _).orElse (hword _ _))))

theorem keepsLastLine_dimensions : dimensions.KeepsLastLine := by
  refine KeepsLastLine.rule _ (keepsLastLine_line.bind fun _ => ?_)
  refine keepsLastLine_integer.bind fun _ => keepsLastLine_comma.next.bind fun _ => ?_
  exact keepsLastLine_integer.next.bind fun _ => keepsLastLine_pure _

theorem keepsLastLine_columnLabels : columnLabels.KeepsLastLine := by
  refine KeepsLastLine.rule _ (keepsLastLine_label.bind fun _ => ?_)
  exact keepsLastLine_label.listed.next.bind fun _ => keepsLastLine_pure _

theorem keepsLastLine_constraint : constraint.KeepsLastLine := by
  refine KeepsLastLine.rule _ (keepsLastLine_line.bind fun _ => keepsLastLine_label.bind fun _ => ?_)
  refine keepsLastLine_number.listed.next.bind fun _ => keepsLastLine_comma.next.bind fun _ => ?_
  refine keepsLastLine_relation.next.bind fun _ => keepsLastLine_comma.next.bind fun _ => ?_
  exact keepsLastLine_number.next.bind fun _ => keepsLastLine_pure _

theorem keepsLastLine_objective : objective.KeepsLastLine := by
  refine KeepsLastLine.rule _ (keepsLastLine_line.bind fun _ => keepsLastLine_label.bind fun _ => ?_)
  exact keepsLastLine_number.listed.next.bind fun _ => keepsLastLine_pure _

/-! ### The line of a record -/

section Line

variable {β : Type} {c after : Cursor}

/-- A parser that starts with the line of its place gives values with that line. -/
theorem line_of_read {name : Rule} (line : β → Nat) {q : Nat → Parser β}
    (hq : ∀ n, (q n).Gives fun v => line v = n) {v : β}
    (h : (next (Parser.rule name (Parser.line >>= q))).read c = some (v, after)) :
    line v = c.line := by
  rw [read_next, read_rule, read_line_bind] at h
  exact (hq _ _ _ _ h).trans c.line_skipGap

theorem line_of_read_dimensions {header : Header}
    (h : (next dimensions).read c = some (header, after)) : header.line = c.line := by
  unfold dimensions at h
  refine line_of_read Header.line (fun n => ?_) h
  refine (gives_true _).bind fun _ _ => (gives_true _).bind fun _ _ => ?_
  exact (gives_true _).bind fun _ _ => gives_pure rfl

theorem line_of_read_constraint {r : ConstraintRecord}
    (h : (next constraint).read c = some (r, after)) : r.line = c.line := by
  unfold constraint at h
  refine line_of_read ConstraintRecord.line (fun n => ?_) h
  refine (gives_true _).bind fun _ _ => (gives_true _).bind fun _ _ => ?_
  refine (gives_true _).bind fun _ _ => (gives_true _).bind fun _ _ => ?_
  exact (gives_true _).bind fun _ _ => (gives_true _).bind fun _ _ => gives_pure rfl

theorem line_of_read_objective {o : ObjectiveRecord}
    (h : (next objective).read c = some (o, after)) : o.line = c.line := by
  unfold objective at h
  refine line_of_read ObjectiveRecord.line (fun n => ?_) h
  exact (gives_true _).bind fun _ _ => (gives_true _).bind fun _ _ => gives_pure rfl

end Line

end LinProg.Format
