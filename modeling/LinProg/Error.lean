import LinProg.Format.Complaint

/-!
What can go wrong, each cause with its message.
-/

namespace LinProg

/-- The two ways to count through a program. -/
inductive Axis where
  | row
  | column
  deriving DecidableEq, Repr

def Axis.text : Axis → String
  | row => "row"
  | column => "column"

/-- The parts of a program whose length has to fit its size. -/
inductive Part where
  | rightHandSide
  | relations
  | constraintRow
  | objective
  | column
  deriving DecidableEq, Repr

def Part.text : Part → String
  | rightHandSide => "right-hand side"
  | relations => "relations"
  | constraintRow => "constraint row"
  | objective => "objective"
  | column => "column"

/-- Why a text could not be read from its place or written to it. -/
inductive Fault where
  | notFound
  | isDirectory
  | notDirectory
  | nameTooLong
  | nulInName
  | invalidUtf8
  /-- A number without a decimal, given by its name. -/
  | notFinite (number : String)
  | other (reason : String)
  deriving DecidableEq, Repr

def Fault.message : Fault → String
  | notFound => "No such file or directory (os error 2)"
  | isDirectory => "Is a directory (os error 21)"
  | notDirectory => "Not a directory (os error 20)"
  | nameTooLong => "File name too long (os error 36)"
  | nulInName => "file name contained an unexpected NUL byte"
  | invalidUtf8 => "stream did not contain valid UTF-8"
  | notFinite number => number ++ " cannot be written in an LP file"
  | other reason => reason

inductive Error where
  | invalidDimensions (rows columns : Int)
  | shapeMismatch (part : Part) (expected found : Nat)
  | malformed (line : Nat) (complaint : Format.Complaint)
  | indexOutOfRange (axis : Axis) (index length : Nat)
  | pivotLimit (limit : Nat)
  /-- The search was given up, and its answer is not known. -/
  | unfinished (pivots : Nat)
  | fault (fault : Fault)
  deriving DecidableEq, Repr

def Error.message : Error → String
  | invalidDimensions rows columns =>
    s!"invalid dimensions: {rows} rows by {columns} columns, both must be positive"
  | shapeMismatch part expected found =>
    s!"{part.text} has length {found}, expected {expected}"
  | malformed line complaint => s!"malformed input on line {line}: {complaint.message}"
  | indexOutOfRange axis index length =>
    s!"{axis.text} index {index} is out of range for length {length}"
  | pivotLimit limit => s!"pivot limit of {limit} iterations exceeded"
  | unfinished pivots => s!"no answer after {pivots} pivots"
  | fault f => f.message

/-- Accepts an index below `length`. -/
def checkIndex (axis : Axis) (index length : Nat) : Except Error Unit :=
  if index < length then .ok () else .error (.indexOutOfRange axis index length)

/-- Accepts a part of the expected length. -/
def checkLength (part : Part) (expected found : Nat) : Except Error Unit :=
  if expected = found then .ok () else .error (.shapeMismatch part expected found)

end LinProg
