import LinProg.Format.Grammar
import LinProg.Program.Basic

/-!
Reading a program from an LP text.

A text that fits the grammar is checked in a fixed order: the header by itself, then the counts that
it gives against the column labels, the constraints, each row of coefficients and the costs.
-/

namespace LinProg.Format

/-- The document that a text says, or where and how it breaks the grammar. -/
def Document.ofText (text : String) : Except Error Document :=
  let start := Cursor.ofText text
  match Grammar.document.read start with
  | some (document, _) => .ok document
  | none =>
    let frontier := Grammar.document.note start .start
    .error (.malformed frontier.line (.unexpected (Rule.inOrder frontier.rules)))

/-- The value of a numeral that fits a signed word of 64 bits. -/
def Numeral.word (n : Numeral) (line : Nat) : Except Error Int :=
  let bound : Int := Nat.pow 2 63
  if -bound ≤ n.value ∧ n.value < bound then .ok n.value
  else .error (.malformed line (.notADimension n.text))

/-- The counts of rows and columns. Both have to be positive. -/
def Header.counts (h : Header) : Except Error (Nat × Nat) := do
  let rows ← h.rows.word h.line
  let columns ← h.columns.word h.line
  if 0 < rows ∧ 0 < columns then .ok (rows.toNat, columns.toNat)
  else .error (.invalidDimensions rows columns)

/-- Accepts a count that is as expected. -/
def checkCount (line expected found : Nat) (complaint : Nat → Nat → Complaint) :
    Except Error Unit :=
  if expected = found then .ok () else .error (.malformed line (complaint expected found))

/-- Compares the counts of the header with the records. -/
def Document.check (d : Document) : Except Error Unit := do
  let (rows, columns) ← d.header.counts
  checkCount (d.header.line + 1) columns d.columnLabels.length .columnLabels
  checkCount d.objective.line rows d.constraints.length .constraintRows
  d.constraints.forM fun r => checkCount r.line columns r.coefficients.length .coefficients
  checkCount d.objective.line columns d.objective.costs.length .objectiveCoefficients

variable {α : Type} [Scalar α]

def ConstraintRecord.toConstraint (r : ConstraintRecord) : Constraint α :=
  { coefficients := r.coefficients.map Scalar.ofDecimal
    relation := r.relation
    rhs := Scalar.ofDecimal r.rhs
    label := some r.label }

/-- The program of a document whose counts agree. -/
def Document.toProgram (d : Document) : Program α :=
  let decisions := d.columnLabels.zipWith
    (fun label cost => (⟨Scalar.ofDecimal cost, some label⟩ : Decision α)) d.objective.costs
  { Program.ofRows (d.constraints.map ConstraintRecord.toConstraint) decisions with
    direction := d.direction
    objectiveLabel := some d.objective.label }

end LinProg.Format

namespace LinProg.Program

variable {α : Type} [Scalar α]

def ofText (text : String) : Except Error (Program α) := do
  let document ← Format.Document.ofText text
  document.check
  return document.toProgram

/-- Reads the bytes of a file. -/
def ofBytes (bytes : ByteArray) : Except Error (Program α) :=
  match String.fromUTF8? bytes with
  | some text => ofText text
  | none => .error (.fault .invalidUtf8)

end LinProg.Program
