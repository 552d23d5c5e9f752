import LinProg.Format.Document
import LinProg.Format.Parser

/-!
The grammar of LP texts.

A text has a record a line: the direction, the counts of rows and columns, the column labels, the
constraints and the objective. Spaces, tabs and comments may stand between the parts of a record,
and empty lines between records. A comment runs from a `#` outside a label to the end of its line.
-/

namespace LinProg.Format.Grammar

def isSpace (c : Char) : Bool := c = ' ' || c = '\t'

def endsLine (c : Char) : Bool := c = '\n' || c = '\r'

/-- The count of characters in spaces, tabs and a comment in front of a text. -/
def gapLength (cs : List Char) : Nat :=
  let spaces := (cs.takeWhile isSpace).length
  match cs.drop spaces with
  | '#' :: rest => spaces + 1 + (rest.takeWhile (!endsLine ·)).length
  | _ => spaces

def gap : Parser Unit := .piece fun cs => some ((), gapLength cs)

/-- The parser behind a gap. -/
def next {β : Type} (p : Parser β) : Parser β := do
  gap
  p

/-- As many values as can be read, with gaps between them. -/
def several {β : Type} (p : Parser β) : Parser (List β) :=
  (do
    let first ← p
    let others ← (next p).many
    return first :: others) <|> pure []

/-- At least one value, with gaps between the values. -/
def several1 {β : Type} (p : Parser β) : Parser (List β) := do
  let first ← p
  let others ← next (several p)
  return first :: others

def lineEndLength? : List Char → Option Nat
  | '\n' :: _ => some 1
  | '\r' :: '\n' :: _ => some 2
  | '\r' :: _ => some 1
  | _ => none

def lineEnd : Parser Unit := .piece fun cs => (lineEndLength? cs).map ((), ·)

def endOfInput : Parser Unit :=
  .rule .endOfInput <| .piece fun cs => if cs.isEmpty then some ((), 0) else none

/-- An exact word. -/
def word (text : String) : Parser Unit :=
  .piece fun cs => if text.toList.isPrefixOf cs then some ((), text.length) else none

/-- A lowercase word that is written in any case of its ASCII letters. -/
def keyword (text : String) : Parser Unit :=
  .piece fun cs =>
    if (cs.take text.length).map Char.toLower = text.toList then some ((), text.length) else none

def comma : Parser Unit := word ","

/-- As many values as can be read, each one behind a comma. -/
def listed {β : Type} (p : Parser β) : Parser (List β) :=
  several do
    comma
    next p

def direction : Parser Direction :=
  .rule .direction <|
    (.rule .minimize do keyword "minimize"; return .minimize)
      <|> (.rule .maximize do keyword "maximize"; return .maximize)

/-- The numeral in front of a text, an optional sign and digits, and the count of its characters. -/
def scanNumeral (cs : List Char) : Option (Numeral × Nat) :=
  let (negative, n) := Decimal.scanSign cs
  let run := Decimal.digitRun (cs.drop n)
  let size : Int := Decimal.valueOf run
  if run.isEmpty then none
  else
    some (⟨String.ofList (cs.take (n + run.length)), if negative then -size else size⟩,
      n + run.length)

def integer : Parser Numeral := .rule .integer (.piece scanNumeral)

def number : Parser Decimal := .rule .number (.piece Decimal.scan)

def dimensions : Parser Header :=
  .rule .dimensions do
    let line ← Parser.line
    let rows ← integer
    next comma
    let columns ← next integer
    return { line, rows, columns }

def endsLabel (c : Char) : Bool := c = '"' || endsLine c

/-- The text of a label in front of a text. It ends before a quote or the end of the line. -/
def scanLabelText (cs : List Char) : Option (String × Nat) :=
  let run := cs.takeWhile (!endsLabel ·)
  some (String.ofList run, run.length)

def label : Parser String :=
  .rule .label do
    word "\""
    let text ← Parser.rule .labelText (.piece scanLabelText)
    word "\""
    return text

def columnLabels : Parser (List String) :=
  .rule .columnLabels do
    let first ← label
    let others ← next (listed label)
    return first :: others

def relation : Parser Relation :=
  .rule .relation <|
    (do word "<="; return .lessEq)
      <|> (do word "=="; return .equal)
      <|> (do word ">="; return .greaterEq)
      <|> (do word "="; return .equal)

def constraint : Parser ConstraintRecord :=
  .rule .constraint do
    let line ← Parser.line
    let label ← label
    let coefficients ← next (listed number)
    next comma
    let relation ← next relation
    next comma
    let rhs ← next number
    return { line, label, coefficients, relation, rhs }

def objective : Parser ObjectiveRecord :=
  .rule .objective do
    let line ← Parser.line
    let label ← label
    let costs ← next (listed number)
    return { line, label, costs }

def document : Parser Document :=
  .rule .lpFile do
    let _ ← next (several lineEnd)
    let direction ← next direction
    let _ ← next (several1 lineEnd)
    let header ← next dimensions
    let _ ← next (several1 lineEnd)
    let columnLabels ← next columnLabels
    let constraints ← next (several do
      let _ ← several1 lineEnd
      next constraint)
    let _ ← next (several1 lineEnd)
    let objective ← next objective
    let _ ← next (several lineEnd)
    next endOfInput
    return { direction, header, columnLabels, constraints, objective }

end LinProg.Format.Grammar
