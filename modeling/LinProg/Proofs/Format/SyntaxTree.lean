import LinProg.Proofs.Format.Spelling

/-!
# Trees of a text

The grammar once more, with trees for values: a tree for each named part, over the trees of the
parts in it. Both forms of the grammar take the same path through every text, so that what is known
of the values holds of the trees.
-/

namespace LinProg.Format

open LinProg.Format.Parser LinProg.Format.Grammar

/-- A named part of a text, with the line on which it starts. -/
inductive Tree where
  | node (rule : Rule) (line : Nat) (text : String) (inner : List Tree)

namespace Tree

def rule : Tree → Rule
  | node rule _ _ _ => rule

def line : Tree → Nat
  | node _ line _ _ => line

def text : Tree → String
  | node _ _ text _ => text

def inner : Tree → List Tree
  | node _ _ _ inner => inner

end Tree

/-- The characters from one place to a later one. -/
def Cursor.upTo (c after : Cursor) : List Char := c.rest.take (c.rest.length - after.rest.length)

theorem Cursor.upTo_eq {c after : Cursor} {token : List Char} (h : c.rest = token ++ after.rest) :
    c.upTo after = token := by
  unfold upTo
  rw [h, List.length_append, Nat.add_sub_cancel, List.take_left]

/-! ### The grammar of trees -/

namespace Forest

/-- A parser that leaves no tree. -/
def silent {β : Type} (p : Parser β) : Parser (List Tree) := do
  let _ ← p
  return []

/-- A parser under the name of a rule. It makes one tree of the trees that its parts leave. -/
def node (name : Rule) (p : Parser (List Tree)) : Parser (List Tree) where
  read c := (p.read c).map fun (inner, after) =>
    ([.node name c.line (String.ofList (c.upTo after)) inner], after)
  note := (Parser.rule name p).note

def direction : Parser (List Tree) :=
  node .direction <|
    node .minimize (silent (keyword "minimize")) <|> node .maximize (silent (keyword "maximize"))

def integer : Parser (List Tree) := node .integer (silent (.piece scanNumeral))

def number : Parser (List Tree) := node .number (silent (.piece Decimal.scan))

def dimensions : Parser (List Tree) :=
  node .dimensions do
    let rows ← integer
    next comma
    let columns ← next integer
    return rows ++ columns

def label : Parser (List Tree) :=
  node .label do
    word "\""
    let text ← node .labelText (silent (.piece scanLabelText))
    word "\""
    return text

def columnLabels : Parser (List Tree) :=
  node .columnLabels do
    let first ← label
    let others ← next (Grammar.listed label)
    return first ++ others.flatten

def relation : Parser (List Tree) :=
  node .relation <|
    silent (word "<=") <|> silent (word "==") <|> silent (word ">=") <|> silent (word "=")

def constraint : Parser (List Tree) :=
  node .constraint do
    let label ← label
    let coefficients ← next (Grammar.listed number)
    next comma
    let relation ← next relation
    next comma
    let rhs ← next number
    return label ++ coefficients.flatten ++ relation ++ rhs

def objective : Parser (List Tree) :=
  node .objective do
    let label ← label
    let costs ← next (Grammar.listed number)
    return label ++ costs.flatten

def endOfInput : Parser (List Tree) :=
  node .endOfInput (silent (.piece fun cs => if cs.isEmpty then some ((), 0) else none))

def document : Parser (List Tree) :=
  node .lpFile do
    let _ ← next (several lineEnd)
    let direction ← next direction
    let _ ← next (several1 lineEnd)
    let dimensions ← next dimensions
    let _ ← next (several1 lineEnd)
    let columnLabels ← next columnLabels
    let constraints ← next (several do
      let _ ← several1 lineEnd
      next constraint)
    let _ ← next (several1 lineEnd)
    let objective ← next objective
    let _ ← next (several lineEnd)
    let last ← next endOfInput
    return direction ++ dimensions ++ columnLabels ++ constraints.flatten ++ objective ++ last

end Forest

/-! ### What is put on record -/

namespace Parser

variable {β γ : Type} {p q : Parser β} {f : β → Parser γ} {c after : Cursor} {v : β}
  {frontier : Frontier}

theorem note_bind_of_none (h : p.read c = none) :
    (p >>= f).note c frontier = p.note c frontier := by
  simp only [bind, Parser.bind, h]

theorem note_bind_of_some (h : p.read c = some (v, after)) :
    (p >>= f).note c frontier = (f v).note after (p.note c frontier) := by
  simp only [bind, Parser.bind, h]

theorem note_orElse_of_none (h : p.read c = none) :
    (p <|> q).note c frontier = q.note c (p.note c frontier) := by
  simp only [HOrElse.hOrElse, OrElse.orElse, Parser.orElse, h]

theorem note_orElse_of_some (h : p.read c = some (v, after)) :
    (p <|> q).note c frontier = p.note c frontier := by
  simp only [HOrElse.hOrElse, OrElse.orElse, Parser.orElse, h]

theorem note_rule (name : Rule) : (Parser.rule name p).note c frontier =
    if (p.read c).isNone then (p.note c frontier).fail name c (frontier.countAt c)
    else p.note c frontier := by
  unfold Parser.rule
  dsimp only
  cases p.read c <;> rfl

theorem read_node (name : Rule) (q : Parser (List Tree)) (c : Cursor) :
    (Forest.node name q).read c = (q.read c).map fun (inner, after) =>
      ([.node name c.line (String.ofList (c.upTo after)) inner], after) := rfl

end Parser

/-! ### The same path through a text -/

section Follows

variable {β β' γ γ' : Type} {c : Cursor} {p p' : Parser β} {q q' : Parser γ} {R : β → γ → Prop}

/-- From a place on, two parsers read as far as each other, with related values, and put the same
failures on record. -/
structure FollowsAt (c : Cursor) (p : Parser β) (q : Parser γ) (R : β → γ → Prop) : Prop where
  read : (p.read c = none ∧ q.read c = none) ∨
    ∃ v w after, p.read c = some (v, after) ∧ q.read c = some (w, after) ∧ R v w
  note : ∀ frontier, p.note c frontier = q.note c frontier

/-- From every place on. -/
def Follows (p : Parser β) (q : Parser γ) (R : β → γ → Prop) : Prop := ∀ c, FollowsAt c p q R

theorem FollowsAt.mono (h : FollowsAt c p q R) {S : β → γ → Prop} (hRS : ∀ v w, R v w → S v w) :
    FollowsAt c p q S where
  read := by
    rcases h.read with hnone | ⟨v, w, after, hp, hq, hR⟩
    · exact .inl hnone
    · exact .inr ⟨v, w, after, hp, hq, hRS v w hR⟩
  note := h.note

theorem follows_refl (p : Parser β) : Follows p p (· = ·) := by
  intro c
  refine ⟨?_, fun _ => rfl⟩
  cases p.read c with
  | none => exact .inl ⟨rfl, rfl⟩
  | some r => exact .inr ⟨r.1, r.1, r.2, rfl, rfl, rfl⟩

theorem follows_pure {v : β} {w : γ} (h : R v w) : Follows (pure v) (pure w) R :=
  fun c => ⟨.inr ⟨v, w, c, rfl, rfl, h⟩, fun _ => rfl⟩

theorem FollowsAt.bind {f : β → Parser β'} {g : γ → Parser γ'} {S : β' → γ' → Prop}
    (h : FollowsAt c p q R) (hnext : ∀ v w, R v w → Follows (f v) (g w) S) :
    FollowsAt c (p >>= f) (q >>= g) S := by
  rcases h.read with ⟨hp, hq⟩ | ⟨v, w, after, hp, hq, hR⟩
  · refine ⟨.inl ⟨by rw [read_bind, hp]; rfl, by rw [read_bind, hq]; rfl⟩, fun frontier => ?_⟩
    rw [note_bind_of_none hp, note_bind_of_none hq, h.note]
  · have hrest := hnext v w hR after
    refine ⟨by rw [read_bind, read_bind, hp, hq]; exact hrest.read, fun frontier => ?_⟩
    rw [note_bind_of_some hp, note_bind_of_some hq, h.note, hrest.note]

theorem Follows.bind {f : β → Parser β'} {g : γ → Parser γ'} {S : β' → γ' → Prop}
    (h : Follows p q R) (hnext : ∀ v w, R v w → Follows (f v) (g w) S) :
    Follows (p >>= f) (q >>= g) S := fun c => (h c).bind hnext

/-- The line that only one of the two asks for is the one of the place. -/
theorem followsAt_line {f : Nat → Parser β} (h : FollowsAt c (f c.line) q R) :
    FollowsAt c (Parser.line >>= f) q R := ⟨h.read, h.note⟩

theorem Follows.orElse (h : Follows p q R) (h' : Follows p' q' R) :
    Follows (p <|> p') (q <|> q') R := by
  intro c
  rcases (h c).read with ⟨hp, hq⟩ | ⟨v, w, after, hp, hq, hR⟩
  · refine ⟨?_, fun frontier => ?_⟩
    · show (((p.read c).or _ = none ∧ (q.read c).or _ = none) ∨ ∃ v w after,
        (p.read c).or _ = some (v, after) ∧ (q.read c).or _ = some (w, after) ∧ R v w)
      rw [hp, hq]
      exact (h' c).read
    · rw [note_orElse_of_none hp, note_orElse_of_none hq, (h c).note, (h' c).note]
  · refine ⟨.inr ⟨v, w, after, ?_, ?_, hR⟩, fun frontier => ?_⟩
    · show (p.read c).or _ = _
      rw [hp]
      rfl
    · show (q.read c).or _ = _
      rw [hq]
      rfl
    · rw [note_orElse_of_some hp, note_orElse_of_some hq, (h c).note]

theorem Follows.many (h : Follows p q R) : Follows p.many q.many (List.Forall₂ R) := by
  -- The limit is the same on both sides, and each value takes it down by one.
  have hupTo : ∀ (limit : List Char) c, (p.readUpTo limit c).2 = (q.readUpTo limit c).2 ∧
      List.Forall₂ R (p.readUpTo limit c).1 (q.readUpTo limit c).1 ∧
      ∀ frontier, p.noteUpTo limit c frontier = q.noteUpTo limit c frontier := by
    intro limit
    induction limit with
    | nil => exact fun c => ⟨rfl, .nil, fun _ => rfl⟩
    | cons _ limit ih =>
        intro c
        unfold readUpTo noteUpTo
        rcases (h c).read with ⟨hp, hq⟩ | ⟨v, w, after, hp, hq, hR⟩
        · rw [hp, hq]
          exact ⟨rfl, .nil, (h c).note⟩
        · rw [hp, hq]
          obtain ⟨hlast, hvalues, hnote⟩ := ih after
          refine ⟨hlast, .cons hR hvalues, fun frontier => ?_⟩
          show p.noteUpTo limit after _ = q.noteUpTo limit after _
          rw [(h c).note, hnote]
  intro c
  obtain ⟨hlast, hvalues, hnote⟩ := hupTo (limit c) c
  refine ⟨.inr ⟨_, (q.readUpTo (limit c) c).1, (p.readUpTo (limit c) c).2, rfl, ?_, hvalues⟩, hnote⟩
  rw [hlast]
  rfl

theorem Follows.next (h : Follows p q R) : Follows (Grammar.next p) (Grammar.next q) R :=
  (follows_refl gap).bind fun _ _ _ => h

theorem Follows.several (h : Follows p q R) :
    Follows (Grammar.several p) (Grammar.several q) (List.Forall₂ R) := by
  refine Follows.orElse (h.bind fun v w hR => ?_) (follows_pure .nil)
  exact h.next.many.bind fun vs ws hRs => follows_pure (.cons hR hRs)

theorem Follows.listed (h : Follows p q R) :
    Follows (Grammar.listed p) (Grammar.listed q) (List.Forall₂ R) :=
  Follows.several ((follows_refl comma).bind fun _ _ _ => h.next)

theorem follows_silent (p : Parser β) : Follows p (Forest.silent p) fun _ trees => trees = [] := by
  intro c
  refine ⟨?_, fun frontier => ?_⟩
  · cases hp : p.read c with
    | none => exact .inl ⟨rfl, by rw [Forest.silent, read_bind, hp]; rfl⟩
    | some r => exact .inr ⟨r.1, [], r.2, rfl, by rw [Forest.silent, read_bind, hp]; rfl, rfl⟩
  · cases hp : p.read c with
    | none => rw [Forest.silent, note_bind_of_none hp]
    | some r =>
        rw [Forest.silent, note_bind_of_some hp]
        rfl

/-- What is read under the name of a rule becomes a tree with its text. -/
theorem FollowsAt.node {q : Parser (List Tree)} {R : β → List Tree → Prop} (name : Rule)
    (h : FollowsAt c p q R) :
    FollowsAt c (Parser.rule name p) (Forest.node name q) fun v trees => ∃ inner after,
      p.read c = some (v, after) ∧
        trees = [.node name c.line (String.ofList (c.upTo after)) inner] ∧ R v inner := by
  refine ⟨?_, fun frontier => ?_⟩
  · rcases h.read with ⟨hp, hq⟩ | ⟨v, w, after, hp, hq, hR⟩
    · exact .inl ⟨hp, by rw [read_node, hq]; rfl⟩
    · exact .inr ⟨v, _, after, hp, by rw [read_node, hq]; rfl, w, after, hp, rfl, hR⟩
  · show _ = (Parser.rule name q).note c frontier
    rw [note_rule, note_rule, h.note]
    rcases h.read with ⟨hp, hq⟩ | ⟨v, w, after, hp, hq, hR⟩ <;> rw [hp, hq] <;> rfl

/-- One tree, and the value has to do with it. -/
def Single (P : β → Tree → Prop) (v : β) (trees : List Tree) : Prop := ∃ t, trees = [t] ∧ P v t

theorem exists_flatten {P : β → Tree → Prop} {values : List β} {forest : List (List Tree)}
    (h : List.Forall₂ (Single P) values forest) : List.Forall₂ P values forest.flatten := by
  induction h with
  | nil => exact .nil
  | cons hv _ ih =>
      obtain ⟨t, rfl, ht⟩ := hv
      exact .cons ht ih

/-- A part that is told by its text. -/
theorem Follows.leaf {q : Parser (List Tree)} {T : List Char → β → Prop} (name : Rule)
    (h : Follows p q fun _ trees => trees = []) (hreads : p.Reads T) :
    Follows (Parser.rule name p) (Forest.node name q)
      (Single fun v t => t.rule = name ∧ t.inner = [] ∧ T t.text.toList v) := by
  intro c
  refine ((h c).node name).mono ?_
  rintro v _ ⟨inner, after, hread, rfl, rfl⟩
  obtain ⟨token, hrest, htoken⟩ := hreads c v after hread
  refine ⟨_, rfl, rfl, rfl, ?_⟩
  show T (String.ofList _).toList v
  rw [String.toList_ofList, Cursor.upTo_eq hrest]
  exact htoken

/-- A part that is told by the parts in it. -/
theorem FollowsAt.branch {q : Parser (List Tree)} {R : β → List Tree → Prop} {P : β → Tree → Prop}
    (name : Rule) (h : FollowsAt c p q R)
    (hP : ∀ v t, t.rule = name → t.line = c.line → R v t.inner → P v t) :
    FollowsAt c (Parser.rule name p) (Forest.node name q) (Single P) := by
  refine (h.node name).mono ?_
  rintro v _ ⟨inner, after, -, rfl, hR⟩
  exact ⟨_, rfl, hP v _ rfl rfl hR⟩

end Follows

end LinProg.Format
