import LinProg.NumberText
import LinProg.Program.Basic
import LinProg.Tableau.Run

/-!
What happens during a solve, as entries of a journal.
-/

namespace LinProg

/-- The answer to a program. -/
inductive Status where
  | solution
  | unbounded
  | noSolution
  deriving DecidableEq, Repr

def Status.text : Status → String
  | solution => "Solution"
  | unbounded => "Unbounded"
  | noSolution => "NoSolution"

/-- How much detail a journal needs to show an entry. -/
inductive Level where
  | info
  | debug
  | trace
  deriving DecidableEq, Repr

def Level.text : Level → String
  | info => "INFO"
  | debug => "DEBUG"
  | trace => "TRACE"

/-- The number of the level, from the least detail upward. -/
def Level.rank : Level → Nat
  | info => 1
  | debug => 2
  | trace => 3

inductive Event (α : Type) where
  | reading (path : String)
  | setup (direction : Direction) (extra height width : Nat) (bigM : α)
  | noFreeColumn (height width : Nat)
  | pivot (exchange : Tableau.Exchange)
  | noPositiveEntry (column : Nat)
  | classified (status : Status) (pivots : Nat)
  | finished (status : Status) (pivots : Nat)

namespace Event

variable {α : Type}

def level : Event α → Level
  | reading .. | finished .. => .info
  | setup .. | noFreeColumn .. | classified .. => .debug
  | pivot .. | noPositiveEntry .. => .trace

def variableName (v : Option Variable) : String := (v.map Variable.name).getD ""

def message [NumberText α] : Event α → String
  | reading path => "reading " ++ path
  | setup direction extra height width bigM =>
    s!"setup {direction}: {extra} extra columns, augmented {height}x{width}, M = "
      ++ NumberText.text bigM
  | noFreeColumn height width => s!"augmented system {height}x{width} has no non-basic column"
  | pivot x =>
    s!"pivot=({x.row},{x.column}) {variableName x.leaving} leaves, {variableName x.entering} enters"
  | noPositiveEntry column => s!"column {column} has no positive entry"
  | classified status pivots => s!"classified as {status.text} after {pivots} pivots"
  | finished status pivots => s!"{status.text} after {pivots} pivots"

end Event

end LinProg
