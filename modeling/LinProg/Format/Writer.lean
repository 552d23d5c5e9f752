import LinProg.NumberText
import LinProg.Program.Basic

/-!
Writing a program as an LP text. A label cannot hold a quote, so a quote in a label becomes an
apostrophe, and a missing label becomes the empty one.
-/

namespace LinProg.Program

variable {α : Type} [NumberText α]

/-- All numbers of the program: the coefficients by row, the right sides and the costs. -/
def numbers (p : Program α) : List α := p.coefficients.flatten ++ p.rhs ++ p.costs

def quoted (label : Option String) : String :=
  "\"" ++ String.ofList ((label.getD "").toList.map fun c => if c = '"' then '\'' else c) ++ "\""

/-- Each number with a comma in front of it. -/
def commaNumbers (xs : List α) : String := String.join (xs.map fun x => "," ++ NumberText.text x)

def constraintLine (r : Constraint α) : String :=
  quoted r.label ++ commaNumbers r.coefficients ++ "," ++ r.relation.text ++ ","
    ++ NumberText.text r.rhs ++ "\n"

/-- The text of a program whose numbers are all finite. -/
def finiteText (p : Program α) : String :=
  p.direction.text ++ "\n"
    ++ toString p.height ++ "," ++ toString p.width ++ "\n"
    ++ ",".intercalate (p.columnLabels.map quoted) ++ "\n"
    ++ String.join (p.rows.map constraintLine)
    ++ quoted p.objectiveLabel ++ commaNumbers p.costs ++ "\n"

/-- The LP text of a program. The first number that is not finite is refused before any text. -/
def toText (p : Program α) : Except Error String :=
  match p.numbers.find? (!NumberText.isFinite ·) with
  | some x => .error (.fault (.notFinite (NumberText.text x)))
  | none => .ok p.finiteText

end LinProg.Program
