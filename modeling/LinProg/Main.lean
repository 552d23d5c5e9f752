import LinProg.CommandLine.Report

/-!
The program itself: it gathers what a command line may read, and prints the report.
-/

namespace LinProg.CommandLine

/-- The number of an error of the system, which some calls give negated. -/
def errorNumber (code : UInt32) : Nat := code.toInt32.toInt.natAbs

/-- A file that cannot be opened has a fault in place of its content. -/
def readFaultOf (error : IO.Error) : Fault :=
  match error with
  | .noFileOrDirectory .. => .notFound
  | .inappropriateType _ code _ => if errorNumber code = 21 then .isDirectory else .notDirectory
  | .invalidArgument _ code _ =>
    if errorNumber code = 36 then .nameTooLong else .other (toString error)
  | _ => .other (toString error)

def readOne (path : String) : IO (String × Except Fault ByteArray) := do
  try
    return (path, .ok (← IO.FS.readBinFile path))
  catch error =>
    return (path, .error (readFaultOf error))

/-- The paths that a command line names, and none if it is not understood. -/
def namedFiles (arguments : List String) : Option (List String) :=
  (Options.ofArguments arguments).toOption.map Options.files

def gather (paths : List String) : IO (String → Except Fault ByteArray) := do
  let contents ← paths.mapM readOne
  return fun path => (contents.lookup path).getD (.error .notFound)

/-- The standard input, read only if the command line names no file. -/
def gatherInput (files : Option (List String)) : IO ByteArray := do
  match files with
  | some [] => (← IO.getStdin).readBinToEnd
  | _ => return .empty

/-- More pivots than any run that ends is known to take. -/
def patience : Nat := 1000000000

end LinProg.CommandLine

open LinProg.CommandLine

def main (arguments : List String) : IO UInt32 := do
  let files := namedFiles arguments
  let read ← gather (files.getD [])
  let input ← gatherInput files
  let result := report read input patience arguments
  IO.print result.output
  if result.exitCode = 2 then IO.eprint Report.usage
  IO.eprint (String.join (result.notices.map Notice.whole))
  return result.exitCode.toUInt32
