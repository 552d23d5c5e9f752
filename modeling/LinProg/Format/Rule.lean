/-!
The names under which an LP text can be found wrong.
-/

namespace LinProg.Format

/-- The named parts of an LP text. -/
inductive Rule where
  | endOfInput
  | lpFile
  | direction
  | minimize
  | maximize
  | dimensions
  | columnLabels
  | constraint
  | objective
  | relation
  | label
  | labelText
  | integer
  | number
  deriving DecidableEq, Repr

namespace Rule

def name : Rule → String
  | endOfInput => "EOI"
  | lpFile => "lp_file"
  | direction => "direction"
  | minimize => "minimize"
  | maximize => "maximize"
  | dimensions => "dimensions"
  | columnLabels => "column_labels"
  | constraint => "constraint"
  | objective => "objective"
  | relation => "relation"
  | label => "label"
  | labelText => "label_text"
  | integer => "integer"
  | number => "number"

/-- The order in which a message lists the parts that it expects. -/
def all : List Rule :=
  [endOfInput, lpFile, direction, minimize, maximize, dimensions, columnLabels, constraint,
    objective, relation, label, labelText, integer, number]

/-- The given rules in the order of `all`, each one once. -/
def inOrder (rules : List Rule) : List Rule := all.filter (rules.contains ·)

end Rule

/-- A list of alternatives in words: `A`, `A or B`, `A, B, or C`. -/
def alternatives : List String → String
  | [] => ""
  | [a] => a
  | [a, b] => a ++ " or " ++ b
  | names => ", ".intercalate names.dropLast ++ ", or " ++ names.getLastD ""

end LinProg.Format
