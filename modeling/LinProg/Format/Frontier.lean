import LinProg.Format.Cursor
import LinProg.Format.Rule

/-!
The frontier of a failed attempt: the furthest place at which a rule has failed, and the rules that
have failed there. It says what a text should have held.
-/

namespace LinProg.Format

structure Frontier where
  offset : Nat
  line : Nat
  /-- The rules that failed at the place, in the order of their failures. -/
  rules : List Rule
  deriving DecidableEq, Repr

namespace Frontier

/-- No rule has been tried. -/
def start : Frontier := ⟨0, 1, []⟩

/-- The count of rules on record for a place. -/
def countAt (f : Frontier) (c : Cursor) : Nat := if f.offset = c.offset then f.rules.length else 0

/-- Puts a rule that failed at `c` on record. The frontier `f` is what its parts left behind, and
`before` is the count of rules on record for `c` before the rule was tried. A single new rule among
the parts says more than the rule itself and stays in its place. Otherwise the rule replaces its
parts, and a place further on replaces the frontier. -/
def fail (f : Frontier) (rule : Rule) (c : Cursor) (before : Nat) : Frontier :=
  if f.countAt c = before + 1 then f
  else if f.offset < c.offset then ⟨c.offset, c.line, [rule]⟩
  else if f.offset = c.offset then { f with rules := f.rules.take before ++ [rule] }
  else f

end Frontier

end LinProg.Format
