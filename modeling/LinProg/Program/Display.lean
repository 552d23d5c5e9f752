import LinProg.NumberText
import LinProg.Program.Basic
import LinProg.Text.Column

/-!
A program as a table for the eye: labels cut to ten characters, numbers with two places.
-/

namespace LinProg.Program

variable {α : Type} [NumberText α]

def labelCell (label : Option String) : String := Text.fitRight 10 (label.getD "")

def numberCell (x : α) : String := Text.alignRight 10 (NumberText.fixed 2 x)

/-- Each cell with a space in front of it. -/
def spaced (cells : List String) : String := String.join (cells.map (" " ++ ·))

def rowLine (r : Constraint α) : String :=
  labelCell r.label ++ spaced (r.coefficients.map numberCell) ++ " " ++ r.relation.text
    ++ " " ++ numberCell r.rhs ++ "\n"

def display (p : Program α) : String :=
  p.direction.text ++ "\n"
    ++ Text.alignRight 10 "" ++ spaced (p.columnLabels.map labelCell) ++ "\n"
    ++ String.join (p.rows.map rowLine)
    ++ labelCell p.objectiveLabel ++ spaced (p.costs.map numberCell) ++ "\n"

end LinProg.Program
