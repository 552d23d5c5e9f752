import LinProg.Text.Blank

/-!
The three relations of a constraint, and the signs for them.
-/

namespace LinProg

/-- How the left side of a constraint compares with the right side. -/
inductive Relation where
  | lessEq
  | equal
  | greaterEq
  deriving DecidableEq, Repr

namespace Relation

instance : Inhabited Relation := ⟨lessEq⟩

/-- The relation that holds after both sides have been negated. -/
def flipped : Relation → Relation
  | lessEq => greaterEq
  | equal => equal
  | greaterEq => lessEq

theorem flipped_flipped (r : Relation) : r.flipped.flipped = r := by cases r <;> rfl

/-- The origin satisfies a `≤` row with a right side that is not negative. Any other row needs a
variable of its own that takes up what is missing. -/
def needsArtificial (r : Relation) : Bool := r ≠ lessEq

/-- The count of columns that a row adds to the tableau. -/
def extraColumns : Relation → Nat
  | lessEq => 1
  | equal => 1
  | greaterEq => 2

def text : Relation → String
  | lessEq => "<="
  | equal => "=="
  | greaterEq => ">="

instance : ToString Relation := ⟨text⟩

/-- Reads a relation with blanks around it. The error is the word that was found. -/
def ofText (text : String) : Except String Relation :=
  match Text.trim text with
  | "<=" => .ok lessEq
  | "==" => .ok equal
  | "=" => .ok equal
  | ">=" => .ok greaterEq
  | word => .error word

/-- The message for a word that is no relation. -/
def unknown (word : String) : String := word ++ " is not a relation"

end Relation

end LinProg
