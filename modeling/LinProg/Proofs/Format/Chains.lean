import LinProg.Proofs.Format.Gaps

/-!
# Repetitions

A repetition reads as many values as it can, one directly behind the other, and its end is where no
further value can be read. So what it has read is determined, even though the places between the
values are only known up to a gap.
-/

namespace LinProg.Format

open LinProg.Format.Parser LinProg.Format.Grammar

namespace Parser

variable {β γ : Type} {p : Parser β}

def Forward (p : Parser β) : Prop :=
  ∀ c v after, p.read c = some (v, after) → after.rest.length ≤ c.rest.length

/-- The parser takes at least one character. -/
def Progress (p : Parser β) : Prop :=
  ∀ c v after, p.read c = some (v, after) → after.rest.length < c.rest.length

theorem Progress.forward (h : p.Progress) : p.Forward :=
  fun c v after hread => (h c v after hread).le

theorem forward_pure (v : β) : (pure v : Parser β).Forward := by
  intro c w after h
  obtain ⟨-, rfl⟩ := Prod.mk.inj (Option.some.inj h)
  exact le_refl _

theorem forward_line : Parser.line.Forward := by
  intro c v after h
  obtain ⟨-, rfl⟩ := Prod.mk.inj (Option.some.inj h)
  exact le_refl _

theorem Forward.rule (name : Rule) (h : p.Forward) : (Parser.rule name p).Forward := h

theorem Forward.bind {q : β → Parser γ} (hp : p.Forward) (hq : ∀ v, (q v).Forward) :
    (p >>= q).Forward := by
  intro c w after h
  obtain ⟨v, between, hv, hw⟩ := read_bind_eq_some_iff.mp h
  exact (hq v between w after hw).trans (hp c v between hv)

theorem Progress.bind {q : β → Parser γ} (hp : p.Progress) (hq : ∀ v, (q v).Forward) :
    (p >>= q).Progress := by
  intro c w after h
  obtain ⟨v, between, hv, hw⟩ := read_bind_eq_some_iff.mp h
  exact (hq v between w after hw).trans_lt (hp c v between hv)

/-! ### Values one after the other -/

/-- Values that are read one directly behind the other. -/
inductive Chain (p : Parser β) : Cursor → List β → Cursor → Prop
  | nil (c : Cursor) : Chain p c [] c
  | cons {c between last : Cursor} {v : β} {values : List β} :
      p.read c = some (v, between) → Chain p between values last → Chain p c (v :: values) last

/-- A chain that cannot go on is determined by its start. -/
theorem Chain.unique {c last last' : Cursor} {values values' : List β} (h : Chain p c values last)
    (hend : p.read last = none) (h' : Chain p c values' last') (hend' : p.read last' = none) :
    values = values' ∧ last = last' := by
  induction h generalizing values' with
  | nil c =>
      cases h' with
      | nil => exact ⟨rfl, rfl⟩
      | cons hread _ =>
          rw [hend] at hread
          cases hread
  | cons hread _ ih =>
      cases h' with
      | nil =>
          rw [hend'] at hread
          cases hread
      | cons hread' htail =>
          rw [hread] at hread'
          obtain ⟨rfl, rfl⟩ := Prod.mk.inj (Option.some.inj hread')
          obtain ⟨rfl, rfl⟩ := ih hend htail
          exact ⟨rfl, rfl⟩

theorem Chain.forward (hp : p.Forward) {c last : Cursor} {values : List β}
    (h : Chain p c values last) : last.rest.length ≤ c.rest.length := by
  induction h with
  | nil => exact le_refl _
  | cons hread _ ih => exact ih.trans (hp _ _ _ hread)

/-- A limit above the count of the characters does not come into play. -/
theorem exists_chain_readUpTo (hp : p.Progress) {limit : List Char} {c : Cursor}
    (hlimit : c.rest.length < limit.length) :
    ∃ values last, p.readUpTo limit c = (values, last) ∧ Chain p c values last ∧
      p.read last = none := by
  -- Each value takes a character at least, so what is left stays below the limit.
  induction limit generalizing c with
  | nil => exact absurd hlimit (Nat.not_lt_zero _)
  | cons x limit ih =>
      rw [readUpTo]
      cases hread : p.read c with
      | none => exact ⟨[], c, rfl, .nil c, hread⟩
      | some found =>
          obtain ⟨v, after⟩ := found
          have hless := hp c v after hread
          rw [List.length_cons] at hlimit
          obtain ⟨values, last, hvalues, hchain, hend⟩ := ih (c := after) (by omega)
          dsimp only
          rw [hvalues]
          exact ⟨v :: values, last, rfl, .cons hread hchain, hend⟩

theorem exists_chain_many (hp : p.Progress) (c : Cursor) :
    ∃ values last, p.many.read c = some (values, last) ∧ Chain p c values last ∧
      p.read last = none := by
  have hlimit : c.rest.length < (limit c).length := Nat.lt_succ_self _
  obtain ⟨values, last, hread, hchain, hend⟩ := exists_chain_readUpTo hp hlimit
  exact ⟨values, last, congrArg some hread, hchain, hend⟩

end Parser

/-! ### Gaps in between -/

section Gaps

variable {β : Type} {p : Parser β}

def Cursor.skipGap (c : Cursor) : Cursor := c.advance (gapLength c.rest)

theorem Cursor.rest_skipGap (c : Cursor) : c.skipGap.rest = ungapped c.rest := rfl

theorem read_next (p : Parser β) (c : Cursor) : (next p).read c = p.read c.skipGap := rfl

theorem length_ungapped_le (text : List Char) : (ungapped text).length ≤ text.length := by
  unfold ungapped
  rw [List.length_drop]
  exact Nat.sub_le _ _

theorem Parser.Forward.next (h : p.Forward) : (next p).Forward := by
  intro c v after hread
  rw [read_next] at hread
  exact (h _ v after hread).trans (length_ungapped_le c.rest)

theorem Parser.Progress.next (h : p.Progress) : (Grammar.next p).Progress := by
  intro c v after hread
  rw [read_next] at hread
  exact (h _ v after hread).trans_le (length_ungapped_le c.rest)

theorem read_several (p : Parser β) (c : Cursor) :
    (several p).read c = match p.read c with
      | none => some ([], c)
      | some (first, after) =>
        ((next p).many.read after).map fun (others, last) => (first :: others, last) := by
  show ((p >>= fun first => (next p).many >>= fun others => pure (first :: others)).read c).or
    ((pure [] : Parser (List β)).read c) = _
  rw [read_bind]
  cases p.read c with
  | none => rfl
  | some found => rfl

/-- If nothing was read, then the gap is gone all the same. -/
theorem exists_chain_several (hp : p.Progress) (c : Cursor) :
    ∃ values last after, (next (several p)).read c = some (values, after) ∧
      Chain (next p) c values last ∧ (next p).read last = none ∧
      ungapped after.rest = ungapped last.rest ∧ after.rest.length ≤ last.rest.length := by
  rw [read_next, read_several]
  cases hread : p.read c.skipGap with
  | none =>
      refine ⟨[], c, c.skipGap, rfl, .nil c, hread, ?_, length_ungapped_le c.rest⟩
      rw [Cursor.rest_skipGap, ungapped_ungapped]
  | some found =>
      obtain ⟨first, between⟩ := found
      obtain ⟨others, last, hothers, hchain, hend⟩ := exists_chain_many hp.next between
      refine ⟨first :: others, last, last, ?_, .cons hread hchain, hend, rfl, le_refl _⟩
      dsimp only
      rw [hothers]
      rfl

theorem chain_of_several (hp : p.Progress) {c after : Cursor} {values : List β}
    (h : (next (several p)).read c = some (values, after)) :
    ∃ last, Chain (next p) c values last ∧ (next p).read last = none ∧
      ungapped after.rest = ungapped last.rest := by
  obtain ⟨values', last, after', hread, hchain, hend, hrest, -⟩ := exists_chain_several hp c
  rw [h] at hread
  obtain ⟨rfl, rfl⟩ := Prod.mk.inj (Option.some.inj hread)
  exact ⟨last, hchain, hend, hrest⟩

theorem several_of_chain (hp : p.Progress) {c last : Cursor} {values : List β}
    (hchain : Chain (next p) c values last) (hend : (next p).read last = none) :
    ∃ after, (next (several p)).read c = some (values, after) ∧
      ungapped after.rest = ungapped last.rest := by
  obtain ⟨values', last', after, hread, hchain', hend', hrest, -⟩ := exists_chain_several hp c
  obtain ⟨rfl, rfl⟩ := hchain.unique hend hchain' hend'
  exact ⟨after, hread, hrest⟩

theorem Parser.Forward.several (hp : p.Progress) : (Grammar.next (several p)).Forward := by
  intro c values after h
  obtain ⟨_, last, _, hread, hchain, -, -, hle⟩ := exists_chain_several hp c
  rw [h] at hread
  obtain ⟨-, rfl⟩ := Prod.mk.inj (Option.some.inj hread)
  exact hle.trans (hchain.forward hp.next.forward)

end Gaps

end LinProg.Format
