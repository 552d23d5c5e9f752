import LinProg.Direction

/-!
The words of a command line, sorted by their look.
-/

namespace LinProg.CommandLine

inductive Token where
  /-- `--`, after which every word is a file. -/
  | ending
  /-- `--name` or `--name=value`. -/
  | long (name : String) (value : Option String)
  /-- `-letters`. -/
  | short (letters : List Char)
  | plain (text : String)
  deriving DecidableEq, Repr

/-- Splits a text at its first equals sign. -/
def splitAtEquals (cs : List Char) : String × Option String :=
  match cs.dropWhile (· ≠ '=') with
  | [] => (String.ofList cs, none)
  | _ :: value => (String.ofList (cs.takeWhile (· ≠ '=')), some (String.ofList value))

def Token.ofText (text : String) : Token :=
  match text.toList with
  | ['-', '-'] => .ending
  | '-' :: '-' :: body => let (name, value) := splitAtEquals body; .long name value
  | ['-'] => .plain text
  | '-' :: letters => .short letters
  | _ => .plain text

/-- The direction that an old spelling with one dash stands for. -/
def oldSpelling? (text : String) : Option Direction :=
  match Text.lowercase text with
  | "-min" => some .minimize
  | "-minimize" => some .minimize
  | "-max" => some .maximize
  | "-maximize" => some .maximize
  | _ => none

/-- The present spelling of a word. It is put in place wherever an old one stands. -/
def modernise (text : String) : String :=
  match oldSpelling? text with
  | some direction => "--" ++ direction.text
  | none => text

end LinProg.CommandLine
