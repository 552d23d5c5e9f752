import LinProg.Tableau.Pivot
import LinProg.Tableau.Selection

/-!
Runs of pivots: the choices of a tableau, carried out until it asks for no more or a limit is met.
-/

namespace LinProg.Tableau

variable {α : Type} [Scalar α]

/-- Why a run ended. -/
inductive Stop where
  | optimal
  | unbounded (column : Nat)
  /-- A further pivot was asked for and not allowed. -/
  | truncated
  deriving DecidableEq, Repr

/-- A pivot with the variables that changed places. -/
structure Exchange where
  row : Nat
  column : Nat
  leaving : Option Variable
  entering : Option Variable
  deriving DecidableEq, Repr

def exchange (t : Tableau α) (row column : Nat) : Exchange :=
  ⟨row, column, t.basis[row]?, t.columns[column]?⟩

structure Run (α : Type) where
  exchanges : List Exchange
  final : Tableau α
  stop : Stop

/-- Carries out up to `limit` pivots. The limit is met only where a further pivot is asked for. -/
def run (tolerance : α) : Nat → Tableau α → Run α
  | limit, t =>
    match t.choose tolerance with
    | .optimal => ⟨[], t, .optimal⟩
    | .unbounded column => ⟨[], t, .unbounded column⟩
    | .pivot row column =>
      match limit with
      | 0 => ⟨[], t, .truncated⟩
      | limit + 1 =>
        let rest := run tolerance limit (t.pivot row column)
        { rest with exchanges := t.exchange row column :: rest.exchanges }

theorem length_exchanges_run_le (tolerance : α) (limit : Nat) (t : Tableau α) :
    (run tolerance limit t).exchanges.length ≤ limit := by
  induction limit generalizing t with
  | zero =>
    unfold run
    split <;> exact Nat.le_refl _
  | succ limit ih =>
    unfold run
    split
    · exact Nat.zero_le _
    · exact Nat.zero_le _
    · exact Nat.succ_le_succ (ih _)

end LinProg.Tableau
