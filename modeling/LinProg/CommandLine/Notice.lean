import LinProg.Engine.Event
import LinProg.Text.Printable

/-!
What the error stream of a run says, line by line.
-/

namespace LinProg.CommandLine

/-- A piece of the error stream. An entry of a journal has its level in front. -/
structure Notice where
  level : Option Level
  text : String

namespace Notice

/-- An entry of a journal. Its lines after the first are indented, and no control sequence of the
message reaches the terminal. An unfinished sequence can hide the end of the line as well. -/
def ofEvent (e : Event Float) : Notice :=
  ⟨some e.level, Text.printable ("\n    ".intercalate (e.message.splitOn "\n") ++ "\n")⟩

def ofMessage (message : String) : Notice := ⟨none, message ++ "\n"⟩

def heading (n : Notice) : String := (n.level.map fun l => s!"[{l.text} lp_simplex] ").getD ""

/-- The piece as it is printed. -/
def whole (n : Notice) : String := n.heading ++ n.text

/-- What follows a piece stands on the line that it leaves unfinished. -/
def append (n m : Notice) : Notice := { n with text := n.text ++ m.whole }

/-- A line without the carriage return at its end. -/
def dropReturn (line : String) : String :=
  match line.toList.getLast? with
  | some '\r' => String.ofList line.toList.dropLast
  | _ => line

/-- The lines of a text. A carriage return before the end of a line belongs to the end. -/
def textLines (text : String) : List String :=
  let parts := text.splitOn "\n"
  parts.dropLast.map dropReturn ++ parts.getLast?.toList.filter (· ≠ "")

/-- The lines of a piece. Only the first has the level in front. -/
def lines (n : Notice) : List Notice :=
  match textLines n.text with
  | [] => []
  | first :: rest => ⟨n.level, first⟩ :: rest.map (⟨none, ·⟩)

/-- The lines of a piece and of those that follow it. -/
def linesBefore (n : Notice) : List Notice → List Notice
  | [] => n.lines
  | m :: rest =>
    if n.text.endsWith "\n" then n.lines ++ m.linesBefore rest else (n.append m).linesBefore rest

def allLines : List Notice → List Notice
  | [] => []
  | n :: rest => n.linesBefore rest

end Notice

end LinProg.CommandLine
