import LinProg.Format.Grammar
import Mathlib.Data.List.Forall2

/-!
# What parsers take

The choice of a parser is ordered and final, so what it takes off a text depends on what follows:
`Takes p front rest P` says that `p` takes `front` and nothing more where `rest` follows, and gives a
value with `P`. A parser that takes pieces one after the other takes their concatenation, if each
piece is taken in front of the later ones.

The other direction needs no text: `Gives p P` says that all values of `p` have `P`.
-/

namespace LinProg.Format

namespace Cursor

@[simp]
theorem rest_advance (n : Nat) (c : Cursor) : (c.advance n).rest = c.rest.drop n := rfl

@[simp]
theorem advance_zero (c : Cursor) : c.advance 0 = c := by
  simp [advance, lineFeeds]

theorem advance_advance (m n : Nat) (c : Cursor) : (c.advance m).advance n = c.advance (m + n) := by
  have htake : c.rest.take (m + n) = c.rest.take m ++ (c.rest.drop m).take n := List.take_add
  simp only [advance, lineFeeds, htake, List.count_append, List.drop_drop, Nat.add_assoc]

theorem rest_advance_length {c : Cursor} {front rest : List Char} (hc : c.rest = front ++ rest) :
    (c.advance front.length).rest = rest := by
  rw [rest_advance, hc, List.drop_left]

end Cursor

namespace Parser

variable {β γ : Type} {p : Parser β} {front rest : List Char} {P : β → Prop}

def Takes (p : Parser β) (front rest : List Char) (P : β → Prop) : Prop :=
  ∀ c, c.rest = front ++ rest → ∃ v, P v ∧ p.read c = some (v, c.advance front.length)

def Refuses (p : Parser β) (text : List Char) : Prop := ∀ c, c.rest = text → p.read c = none

def Gives (p : Parser β) (P : β → Prop) : Prop := ∀ c v after, p.read c = some (v, after) → P v

/-! ### Single parsers -/

theorem Takes.mono {Q : β → Prop} (h : p.Takes front rest P) (hPQ : ∀ v, P v → Q v) :
    p.Takes front rest Q := by
  intro c hc
  obtain ⟨v, hv, hread⟩ := h c hc
  exact ⟨v, hPQ v hv, hread⟩

theorem takes_pure {v : β} (rest : List Char) (hv : P v) : (pure v : Parser β).Takes [] rest P := by
  intro c _
  exact ⟨v, hv, by simp⟩

theorem read_piece (scan : List Char → Option (β × Nat)) (c : Cursor) :
    (piece scan).read c = (scan c.rest).map fun (value, n) => (value, c.advance n) := rfl

theorem takes_piece {scan : List Char → Option (β × Nat)} {v : β}
    (hscan : scan (front ++ rest) = some (v, front.length)) :
    (piece scan).Takes front rest (· = v) := by
  intro c hc
  refine ⟨v, rfl, ?_⟩
  rw [read_piece, hc, hscan]
  rfl

theorem takes_piece_unit {scan : List Char → Option (Unit × Nat)}
    (hscan : scan (front ++ rest) = some ((), front.length)) :
    (piece scan).Takes front rest fun _ => True :=
  (takes_piece hscan).mono fun _ _ => trivial

theorem refuses_piece {scan : List Char → Option (β × Nat)} {text : List Char}
    (hscan : scan text = none) : (piece scan).Refuses text := by
  intro c hc
  rw [read_piece, hc, hscan]
  rfl

theorem Takes.rule (name : Rule) (h : p.Takes front rest P) : (rule name p).Takes front rest P := h

theorem Refuses.rule (name : Rule) {text : List Char} (h : p.Refuses text) :
    (Parser.rule name p).Refuses text := h

/-! ### One after the other -/

theorem read_bind_of_some {q : β → Parser γ} {c after : Cursor} {v : β}
    (h : p.read c = some (v, after)) : (p >>= q).read c = (q v).read after := by
  rw [read_bind, h]
  rfl

theorem read_bind_eq_some_iff {q : β → Parser γ} {c after : Cursor} {w : γ} :
    (p >>= q).read c = some (w, after) ↔
      ∃ v between, p.read c = some (v, between) ∧ (q v).read between = some (w, after) := by
  rw [read_bind, Option.bind_eq_some_iff]
  exact Prod.exists

theorem Takes.bind {q : β → Parser γ} {front' : List Char} {Q : γ → Prop}
    (hp : p.Takes front (front' ++ rest) P) (hq : ∀ v, P v → (q v).Takes front' rest Q) :
    (p >>= q).Takes (front ++ front') rest Q := by
  intro c hc
  rw [List.append_assoc] at hc
  obtain ⟨v, hv, hread⟩ := hp c hc
  obtain ⟨w, hw, hnext⟩ := hq v hv (c.advance front.length) (Cursor.rest_advance_length hc)
  refine ⟨w, hw, ?_⟩
  rw [read_bind_of_some hread, hnext, Cursor.advance_advance, List.length_append]

/-- The value is changed, and nothing more is taken. -/
theorem Takes.map {f : β → γ} {Q : γ → Prop} (hp : p.Takes front rest P)
    (hf : ∀ v, P v → Q (f v)) : (p >>= fun v => pure (f v)).Takes front rest Q := by
  intro c hc
  obtain ⟨v, hv, hread⟩ := hp c hc
  refine ⟨f v, hf v hv, ?_⟩
  rw [read_bind_of_some hread, read_pure]

theorem Takes.line {q : Nat → Parser γ} {Q : γ → Prop} (hq : ∀ n, (q n).Takes front rest Q) :
    (Parser.line >>= q).Takes front rest Q := by
  intro c hc
  exact hq c.line c hc

theorem Refuses.bind {text : List Char} (hp : p.Refuses text) (q : β → Parser γ) :
    (p >>= q).Refuses text := by
  intro c hc
  rw [read_bind, hp c hc, Option.bind_none]

theorem Refuses.line {q : Nat → Parser γ} {text : List Char} (hq : ∀ n, (q n).Refuses text) :
    (Parser.line >>= q).Refuses text := by
  intro c hc
  exact hq c.line c hc

theorem Takes.bind_refuses {q : β → Parser γ} (hp : p.Takes front rest P)
    (hq : ∀ v, P v → (q v).Refuses rest) : (p >>= q).Refuses (front ++ rest) := by
  intro c hc
  obtain ⟨v, hv, hread⟩ := hp c hc
  rw [read_bind_of_some hread]
  exact hq v hv _ (Cursor.rest_advance_length hc)

/-! ### One or the other -/

theorem read_of_orElse {q : Parser β} {c : Cursor} {found : β × Cursor}
    (h : (p <|> q).read c = some found) : p.read c = some found ∨ q.read c = some found := by
  have hor : (p.read c).or (q.read c) = some found := h
  exact (Option.or_eq_some_iff.mp hor).imp_right And.right

theorem Takes.orElse (hp : p.Takes front rest P) (q : Parser β) :
    (p <|> q).Takes front rest P := by
  intro c hc
  obtain ⟨v, hv, hread⟩ := hp c hc
  refine ⟨v, hv, ?_⟩
  show (p.read c).or (q.read c) = _
  rw [hread, Option.some_or]

theorem Refuses.orElse_takes {q : Parser β} (hp : p.Refuses (front ++ rest))
    (hq : q.Takes front rest P) : (p <|> q).Takes front rest P := by
  intro c hc
  obtain ⟨v, hv, hread⟩ := hq c hc
  refine ⟨v, hv, ?_⟩
  show (p.read c).or (q.read c) = _
  rw [hp c hc, Option.none_or, hread]

/-! ### Many of a kind -/

section Many

variable {ι : Type} {write : ι → List Char} {K : List Char → Prop} {Q : ι → β → Prop}

/-- The parser takes each item in front of a text with `K`, and the texts with `K` are the items in
front of them and the rest, which is not taken. -/
structure TakesItems (p : Parser β) (items : List ι) (write : ι → List Char) (rest : List Char)
    (K : List Char → Prop) (Q : ι → β → Prop) : Prop where
  nonempty : ∀ x ∈ items, write x ≠ []
  takes : ∀ x ∈ items, ∀ k, K k → p.Takes (write x) k (Q x)
  before : ∀ x ∈ items, ∀ k, K k → K (write x ++ k)
  ends : K rest
  refuses : p.Refuses rest

namespace TakesItems

variable {x : ι} {items : List ι}

theorem tail (h : p.TakesItems (x :: items) write rest K Q) : p.TakesItems items write rest K Q where
  nonempty y hy := h.nonempty y (List.mem_cons_of_mem x hy)
  takes y hy := h.takes y (List.mem_cons_of_mem x hy)
  before y hy := h.before y (List.mem_cons_of_mem x hy)
  ends := h.ends
  refuses := h.refuses

theorem following (h : p.TakesItems items write rest K Q) : K ((items.map write).flatten ++ rest) := by
  induction items with
  | nil => exact h.ends
  | cons x items ih =>
      rw [List.map_cons, List.flatten_cons, List.append_assoc]
      exact h.before x List.mem_cons_self _ (ih h.tail)

theorem takes_head (h : p.TakesItems (x :: items) write rest K Q) :
    p.Takes (write x) ((items.map write).flatten ++ rest) (Q x) :=
  h.takes x List.mem_cons_self _ h.tail.following

theorem length_le (h : p.TakesItems items write rest K Q) :
    items.length ≤ (items.map write).flatten.length := by
  induction items with
  | nil => exact Nat.zero_le _
  | cons x items ih =>
      have hpos := List.length_pos_iff.mpr (h.nonempty x List.mem_cons_self)
      have hle := ih h.tail
      rw [List.map_cons, List.flatten_cons, List.length_append, List.length_cons]
      omega

/-- A limit above the count of the items does not come into play. -/
theorem readUpTo (h : p.TakesItems items write rest K Q) {limit : List Char}
    (hlimit : items.length < limit.length) {c : Cursor}
    (hc : c.rest = (items.map write).flatten ++ rest) :
    ∃ values, List.Forall₂ Q items values ∧
      p.readUpTo limit c = (values, c.advance (items.map write).flatten.length) := by
  induction items generalizing limit c with
  | nil =>
      cases limit with
      | nil => exact absurd hlimit (Nat.not_lt_zero _)
      | cons _ limit =>
          refine ⟨[], .nil, ?_⟩
          rw [Parser.readUpTo, h.refuses c hc]
          simp
  | cons x items ih =>
      cases limit with
      | nil => exact absurd hlimit (Nat.not_lt_zero _)
      | cons _ limit =>
          rw [List.map_cons, List.flatten_cons, List.append_assoc] at hc
          obtain ⟨v, hv, hread⟩ := h.takes_head c hc
          obtain ⟨values, hvalues, hrest⟩ := ih h.tail (Nat.lt_of_succ_lt_succ hlimit)
            (Cursor.rest_advance_length hc)
          refine ⟨v :: values, .cons hv hvalues, ?_⟩
          rw [Parser.readUpTo, hread]
          dsimp only
          rw [hrest, Cursor.advance_advance, List.map_cons, List.flatten_cons, List.length_append]

theorem many (h : p.TakesItems items write rest K Q) :
    p.many.Takes (items.map write).flatten rest (List.Forall₂ Q items) := by
  intro c hc
  -- There are at most as many items as characters, and the limit is one longer than the text.
  have hlimit : items.length < (limit c).length := by
    have hle := h.length_le
    rw [limit, hc, List.length_cons, List.length_append]
    omega
  obtain ⟨values, hvalues, hread⟩ := h.readUpTo hlimit hc
  exact ⟨values, hvalues, congrArg some hread⟩

end TakesItems

/-- What is said of the items one by one is said of the values as a whole. -/
theorem map_eq_map_of_forall₂ {δ : Type} {f : β → δ} {g : ι → δ} {items : List ι}
    {values : List β} (h : List.Forall₂ (fun x v => f v = g x) items values) :
    values.map f = items.map g := by
  induction h with
  | nil => rfl
  | cons hx _ ih => rw [List.map_cons, List.map_cons, hx, ih]

end Many

/-! ### What is given -/

theorem gives_true (p : Parser β) : p.Gives fun _ => True := fun _ _ _ _ => trivial

theorem gives_pure {v : β} (hv : P v) : (pure v : Parser β).Gives P := by
  intro c w after h
  obtain ⟨rfl, -⟩ := Prod.mk.inj (Option.some.inj h)
  exact hv

theorem gives_piece {scan : List Char → Option (β × Nat)}
    (hscan : ∀ text v n, scan text = some (v, n) → P v) : (piece scan).Gives P := by
  intro c v after h
  obtain ⟨⟨w, n⟩, hw, heq⟩ := Option.map_eq_some_iff.mp h
  obtain ⟨rfl, -⟩ := Prod.mk.inj heq
  exact hscan _ _ _ hw

theorem Gives.rule (name : Rule) (h : p.Gives P) : (Parser.rule name p).Gives P := h

theorem Gives.bind {q : β → Parser γ} {Q : γ → Prop} (hp : p.Gives P)
    (hq : ∀ v, P v → (q v).Gives Q) : (p >>= q).Gives Q := by
  intro c w after h
  obtain ⟨v, between, hv, hw⟩ := read_bind_eq_some_iff.mp h
  exact hq v (hp c v between hv) between w after hw

theorem Gives.orElse {q : Parser β} (hp : p.Gives P) (hq : q.Gives P) : (p <|> q).Gives P := by
  intro c v after h
  rcases read_of_orElse h with h | h
  · exact hp c v after h
  · exact hq c v after h

theorem Gives.many (hp : p.Gives P) : p.many.Gives fun values => ∀ v ∈ values, P v := by
  have hread : ∀ (limit : List Char) c, ∀ v ∈ (p.readUpTo limit c).1, P v := by
    intro limit
    induction limit with
    | nil => simp [readUpTo]
    | cons _ limit ih =>
        intro c
        rw [readUpTo]
        split
        · simp
        · next v after hv => exact List.forall_mem_cons.mpr ⟨hp c v after hv, ih after⟩
  intro c values after h
  obtain ⟨rfl, -⟩ := Prod.mk.inj (Option.some.inj h)
  exact hread (limit c) c

end Parser

end LinProg.Format
