import LinProg.NumberText
import LinProg.Tableau.Basic
import LinProg.Text.Column

/-!
A tableau as a table for the eye, in columns of eight characters.
-/

namespace LinProg.Tableau

variable {α : Type} [NumberText α]

def cell (text : String) : String := Text.alignRight 8 text

def numberCell (x : α) : String := cell (NumberText.fixed 2 x)

/-- Each cell with a space behind it. -/
def spaced (cells : List String) : String := String.join (cells.map (· ++ " "))

def display (t : Tableau α) : String :=
  spaced (t.cost.map numberCell) ++ " cost\n"
    ++ String.join (t.equations.map fun e =>
      spaced (e.entries.map numberCell) ++ " = " ++ numberCell e.rhs ++ "\n")
    ++ spaced (t.basis.map fun v => cell v.name) ++ " basic vars\n"
    ++ spaced (t.columns.map fun v => cell v.name) ++ " columns\n"

end LinProg.Tableau
