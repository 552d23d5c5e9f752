/-!
Texts in columns of a fixed width, counted in characters.
-/

namespace LinProg.Text

/-- The text moved to the right end of a column. A text that is too wide keeps its width. -/
def alignRight (width : Nat) (text : String) : String :=
  String.ofList (List.replicate (width - text.length) ' ' ++ text.toList)

/-- The first characters of a text, moved to the right end of a column. -/
def fitRight (width : Nat) (text : String) : String :=
  alignRight width (String.ofList (text.toList.take width))

end LinProg.Text
