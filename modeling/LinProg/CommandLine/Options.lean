import LinProg.CommandLine.Token
import LinProg.Decimal.Word
import LinProg.Engine.Basic

/-!
What a command line asks for.
-/

namespace LinProg.CommandLine

/-- A word that bears on which program is solved and how, in the order of the command line. -/
inductive Mark where
  | file (path : String)
  | direction (direction : Direction)
  deriving DecidableEq, Repr

structure Options where
  /-- Files and directions from left to right. -/
  marks : List Mark
  settings : Settings Float
  /-- Print the program instead of solving it. -/
  write : Bool
  /-- How much of the journal to show. -/
  verbosity : Nat

/-- Why a command line gives no options. -/
inductive Refusal where
  | usage
  | help
  | version
  deriving DecidableEq, Repr

namespace Options

def standard : Options := { marks := [], settings := .standard, write := false, verbosity := 0 }

def mark (o : Options) (m : Mark) : Options := { o with marks := o.marks ++ [m] }

def files (o : Options) : List String :=
  o.marks.filterMap fun
    | .file path => some path
    | .direction _ => none

/-- The last place among the marks that a test holds at. -/
def lastIndex? (o : Options) (test : Mark → Bool) : Option Nat :=
  (o.marks.zipIdx.filter (test ·.1)).getLast?.map (·.2)

def isFile : Mark → Bool
  | .file _ => true
  | .direction _ => false

def directions (o : Options) : List Direction :=
  o.marks.filterMap fun
    | .file _ => none
    | .direction d => some d

/-- The last direction of the command line, if no file comes after it. -/
def requestedDirection (o : Options) : Option Direction :=
  match o.lastIndex? (!isFile ·), o.lastIndex? isFile with
  | some flag, some file => if file < flag then o.directions.getLast? else none
  | some _, none => o.directions.getLast?
  | none, _ => none

/-- Adds a file. A file needs a name. -/
def addFile (o : Options) (path : String) : Except Refusal Options :=
  if path = "" then .error .usage else .ok (o.mark (.file path))

/-- Adds all words as files. -/
def addFiles (o : Options) (paths : List String) : Except Refusal Options := paths.foldlM addFile o

/-- Carries out an option without a value. -/
def addFlag (o : Options) : String → Except Refusal Options
  | "minimize" => .ok (o.mark (.direction .minimize))
  | "min" => .ok (o.mark (.direction .minimize))
  | "maximize" => .ok (o.mark (.direction .maximize))
  | "max" => .ok (o.mark (.direction .maximize))
  | "write" => .ok { o with write := true }
  | "verbose" => .ok { o with verbosity := o.verbosity + 1 }
  | "help" => .error .help
  | "version" => .error .version
  | _ => .error .usage

def addLetter (o : Options) : Char → Except Refusal Options
  | 'v' => o.addFlag "verbose"
  | 'h' => .error .help
  | 'V' => .error .version
  | _ => .error .usage

/-- The options that a value follows. -/
def needsValue (name : String) : Bool := name = "max-iterations" || name = "tolerance"

/-- Reads a count below `2 ^ 64` with an optional plus. -/
def count? (text : String) : Option Nat :=
  let digits := match text.toList with
    | '+' :: cs => cs
    | cs => cs
  if digits ≠ [] && digits.all Char.isDigit && Decimal.valueOf digits < Nat.pow 2 64 then
    some (Decimal.valueOf digits)
  else none

def setMaxIterations (o : Options) (limit : Nat) : Options :=
  { o with settings := { o.settings with maxIterations := some limit } }

def setTolerance (o : Options) (tolerance : Float) : Options :=
  { o with settings := { o.settings with tolerance } }

/-- Carries out an option with a value. A later value replaces an earlier one. -/
def addValue (o : Options) (name value : String) : Except Refusal Options :=
  let result := match name with
    | "max-iterations" => (count? value).map o.setMaxIterations
    | "tolerance" => (Binary64.ofText? value).map o.setTolerance
    | _ => none
  result.elim (.error .usage) .ok

/-- Carries out the words from left to right. The first that is wrong, or that asks for help or for
the version, decides. A value may stand in a word of its own if that does not look like an option. -/
def read (o : Options) : List String → Except Refusal Options
  | [] => .ok o
  | word :: rest =>
    match Token.ofText word with
    | .ending => o.addFiles rest
    | .plain path => do (← o.addFile path).read rest
    | .short letters => do (← letters.foldlM addLetter o).read rest
    | .long name (some value) =>
      if needsValue name then do (← o.addValue name value).read rest else .error .usage
    | .long name none =>
      if needsValue name then
        match rest with
        | [] => .error .usage
        | value :: rest =>
          match Token.ofText value with
          | .plain value => do (← o.addValue name value).read rest
          | _ => .error .usage
      else do (← o.addFlag name).read rest

/-- The options of a command line without the name of the program. -/
def ofArguments (arguments : List String) : Except Refusal Options :=
  standard.read (arguments.map modernise)

end Options

end LinProg.CommandLine
