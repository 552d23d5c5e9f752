import LinProg.Text.Blank
import LinProg.Text.Lowercase

/-!
The two directions of an optimisation, and the words for them.
-/

namespace LinProg

/-- What is sought of the objective. -/
inductive Direction where
  | minimize
  | maximize
  deriving DecidableEq, Repr

namespace Direction

instance : Inhabited Direction := ⟨maximize⟩

def text : Direction → String
  | minimize => "minimize"
  | maximize => "maximize"

instance : ToString Direction := ⟨text⟩

/-- Reads a direction in any case, with blanks around it. The error is the word that was found. -/
def ofText (text : String) : Except String Direction :=
  match Text.lowercase (Text.trim text) with
  | "minimize" => .ok minimize
  | "maximize" => .ok maximize
  | word => .error word

/-- The message for a word that is no direction. -/
def unknown (word : String) : String := word ++ " is not an optimization direction"

end Direction

end LinProg
