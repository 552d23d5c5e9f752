import LinProg.Format.Reader
import Mathlib.Algebra.Group.Int.Defs
import Mathlib.Algebra.Group.Nat.Defs

/-!
# Counts that agree

A text that fits the grammar is a program exactly if the counts of its header are positive words and
the records are as many as the header says.
-/

namespace LinProg

open LinProg.Format

/-! ### Checks in a row -/

theorem bind_eq_ok_iff {ε β γ : Type} {x : Except ε β} {f : β → Except ε γ} {w : γ} :
    x >>= f = .ok w ↔ ∃ v, x = .ok v ∧ f v = .ok w := by
  cases x <;> simp [bind, Except.bind]

theorem forM_eq_ok_iff {ε β : Type} {check : β → Except ε Unit} {xs : List β} {u : Unit} :
    xs.forM check = .ok u ↔ ∀ x ∈ xs, check x = .ok () := by
  induction xs with
  | nil => simp [List.forM, pure, Except.pure]
  | cons x xs ih =>
      show (check x >>= fun _ => xs.forM check) = .ok u ↔ _
      rw [bind_eq_ok_iff, List.forall_mem_cons]
      simp only [ih]
      constructor
      · rintro ⟨_, hx, hxs⟩
        exact ⟨hx, hxs⟩
      · rintro ⟨hx, hxs⟩
        exact ⟨(), hx, hxs⟩

section Folds

variable {ε β σ : Type} {f : σ → β → Except ε σ} {s s' : σ} {x : β} {xs ys : List β}

theorem foldlM_step (h : f s x = .ok s') : (x :: xs).foldlM f s = xs.foldlM f s' := by
  rw [List.foldlM_cons, h]
  rfl

theorem foldlM_span (h : xs.foldlM f s = .ok s') : (xs ++ ys).foldlM f s = ys.foldlM f s' := by
  rw [List.foldlM_append, h]
  rfl

end Folds

namespace Format

theorem checkCount_eq_ok_iff {line expected found : Nat} {complaint : Nat → Nat → Complaint}
    {u : Unit} : checkCount line expected found complaint = .ok u ↔ expected = found := by
  unfold checkCount
  split
  · next h => simp [h]
  · next h => simp [h]

theorem Numeral.word_eq_ok_iff {n : Numeral} {line : Nat} {v : Int} :
    n.word line = .ok v ↔ n.value = v ∧ -2 ^ 63 ≤ v ∧ v < 2 ^ 63 := by
  have hbound : ((Nat.pow 2 63 : Nat) : Int) = 2 ^ 63 := rfl
  unfold Numeral.word
  rw [hbound]
  dsimp only
  split
  · next h =>
      constructor
      · intro hv
        obtain rfl := Except.ok.inj hv
        exact ⟨rfl, h⟩
      · rintro ⟨rfl, -⟩
        rfl
  · next h =>
      refine ⟨nofun, ?_⟩
      rintro ⟨rfl, hv⟩
      exact absurd hv h

theorem Header.counts_eq_ok_iff {h : Header} {rows columns : Nat} :
    h.counts = .ok (rows, columns) ↔
      (h.rows.value = rows ∧ h.columns.value = columns) ∧ (0 < rows ∧ 0 < columns) ∧
        rows < 2 ^ 63 ∧ columns < 2 ^ 63 := by
  unfold Header.counts
  simp only [bind_eq_ok_iff, Numeral.word_eq_ok_iff]
  constructor
  · rintro ⟨m, ⟨hm, -, hmlt⟩, n, ⟨hn, -, hnlt⟩, hif⟩
    split at hif
    · next hpos =>
        obtain ⟨hrows, hcolumns⟩ := Prod.mk.inj (Except.ok.inj hif)
        omega
    · cases hif
  · rintro ⟨⟨hm, hn⟩, hpos, hmlt, hnlt⟩
    refine ⟨rows, ⟨hm, by omega⟩, columns, ⟨hn, by omega⟩, ?_⟩
    rw [if_pos (by omega), Int.toNat_natCast, Int.toNat_natCast]

/-- The records are as many as the header says. -/
structure Document.Agrees (d : Document) (rows columns : Nat) : Prop where
  header : d.header.counts = .ok (rows, columns)
  columnLabels : d.columnLabels.length = columns
  constraints : d.constraints.length = rows
  coefficients : ∀ r ∈ d.constraints, r.coefficients.length = columns
  costs : d.objective.costs.length = columns

theorem Document.check_eq_ok_iff {d : Document} {u : Unit} :
    d.check = .ok u ↔ ∃ rows columns, d.Agrees rows columns := by
  unfold Document.check
  simp only [bind_eq_ok_iff, forM_eq_ok_iff, checkCount_eq_ok_iff]
  constructor
  · rintro ⟨⟨rows, columns⟩, hheader, _, hlabels, _, hconstraints, _, hcoefficients, hcosts⟩
    exact ⟨rows, columns, hheader, hlabels.symm, hconstraints.symm,
      fun r hr => (hcoefficients r hr).symm, hcosts.symm⟩
  · rintro ⟨rows, columns, h⟩
    exact ⟨(rows, columns), h.header, (), h.columnLabels.symm, (), h.constraints.symm, (),
      fun r hr => (h.coefficients r hr).symm, h.costs.symm⟩

theorem Document.ofText_eq_ok_iff {text : String} {d : Document} :
    Document.ofText text = .ok d ↔
      ∃ after, Grammar.document.read (Cursor.ofText text) = some (d, after) := by
  unfold Document.ofText
  dsimp only
  split
  · next e after hread => simp [hread]
  · next hread => simp [hread]

end Format

theorem Program.ofText_eq_ok_iff {α : Type} [Scalar α] {text : String} {p : Program α} :
    Program.ofText text = .ok p ↔
      ∃ d after, Grammar.document.read (Cursor.ofText text) = some (d, after) ∧
        (∃ rows columns, d.Agrees rows columns) ∧ d.toProgram = p := by
  unfold Program.ofText
  simp only [bind_eq_ok_iff, Document.ofText_eq_ok_iff, Document.check_eq_ok_iff]
  constructor
  · rintro ⟨d, ⟨after, hread⟩, _, hagrees, hp⟩
    exact ⟨d, after, hread, hagrees, Except.ok.inj hp⟩
  · rintro ⟨d, after, hread, hagrees, rfl⟩
    exact ⟨d, ⟨after, hread⟩, (), hagrees, rfl⟩

end LinProg
