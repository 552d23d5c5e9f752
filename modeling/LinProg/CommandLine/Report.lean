import LinProg.CommandLine.Notice
import LinProg.CommandLine.Options
import LinProg.Format.Reader
import LinProg.Format.Writer
import LinProg.Program.Display
import LinProg.Tableau.Display

/-!
What a command line does: read the files, then print the last program or solve it and report.
-/

namespace LinProg.CommandLine

/-- All that a command line leaves behind. -/
structure Report where
  /-- `0` for an answer, `1` for an error, `2` for a command line that was not understood. -/
  exitCode : Nat
  output : String
  error : Option Error
  /-- What happened, as far as the verbosity shows it. -/
  journal : List (Event Float)

namespace Report

def name : String := "lp-simplex"

def version : String := name ++ " 0.1.0"

def help : String :=
  "Solve linear programs with the Big-M simplex method\n\n"
    ++ "Usage: " ++ name ++ " [OPTIONS] [FILES]...\n\n"
    ++ "Options:\n"
    ++ "      --minimize                         Minimize the objective [aliases: --min]\n"
    ++ "      --maximize                         Maximize the objective [aliases: --max]\n"
    ++ "      --max-iterations <MAX_ITERATIONS>  Give up after this many pivots\n"
    ++ "      --tolerance <TOLERANCE>            Epsilon of the tests [default: 0.000000001]\n"
    ++ "      --write                            Print the program in LP file format\n"
    ++ "  -v, --verbose...                       More log output, repeat for more detail\n"
    ++ "  -h, --help                             Print help\n"
    ++ "  -V, --version                          Print version\n"

def usage : String :=
  "error: invalid arguments\n\nUsage: " ++ name ++ " [OPTIONS] [FILES]...\n"

def done (output : String) (journal : List (Event Float)) : Report := ⟨0, output, none, journal⟩

def failed (output : String) (error : Error) (journal : List (Event Float)) : Report :=
  ⟨1, output, some error, journal⟩

def ofRefusal : Refusal → Report
  | .usage => ⟨2, "", none, []⟩
  | .help => done help []
  | .version => done (version ++ "\n") []

/-- Keeps the entries of the journal that the verbosity shows. -/
def shown (verbosity : Nat) (r : Report) : Report :=
  { r with journal := r.journal.filter (·.level.rank ≤ verbosity) }

/-- What is said on the error stream: the journal, then the error. -/
def notices (r : Report) : List Notice :=
  r.journal.map .ofEvent ++ r.error.toList.map fun e => .ofMessage (name ++ ": " ++ e.message)

/-- The first lines of the entries of the journal, as the error stream shows them. -/
def journalLines (r : Report) : List (Level × String) :=
  (Notice.allLines r.notices).filterMap fun line => line.level.map (·, line.text)

/-- The line that tells of an error, if no entry of the journal runs on into it. -/
def errorLine (r : Report) : Option String :=
  ((Notice.allLines r.notices).find? fun line =>
    line.level.isNone && line.text.startsWith (name ++ ": ")).map (·.text)

end Report

/-- Reads files in order until one cannot be read. The last program is the result. -/
def readFiles (read : String → Except Fault ByteArray) :
    List String → Option (Program Float) → List (Event Float) × Except Error (Option (Program Float))
  | [], last => ([], .ok last)
  | path :: paths, _ =>
    match ((read path).mapError Error.fault).bind Program.ofBytes with
    | .error error => ([.reading path], .error error)
    | .ok program =>
      let (journal, result) := readFiles read paths (some program)
      (.reading path :: journal, result)

/-- The program of the last file, or of the standard input if there is no file. -/
def load (read : String → Except Fault ByteArray) (input : ByteArray) (files : List String) :
    List (Event Float) × Except Error (Program Float) :=
  match readFiles read files none with
  | (journal, .error error) => (journal, .error error)
  | (journal, .ok (some program)) => (journal, .ok program)
  | (journal, .ok none) => (journal, Program.ofBytes input)

/-- The lines that tell the answer. -/
def answer (p : Program Float) : Status → String
  | .solution =>
    p.objectiveLabel.getD "Z" ++ " = " ++ NumberText.text p.objectiveValue ++ "\n"
      ++ "x = " ++ " ".intercalate (p.solution.map NumberText.text) ++ "\n"
  | .noSolution => "No Solution\n"
  | .unbounded => "Unbounded Solution\n"

/-- Prints a program as an LP text. -/
def reportText (journal : List (Event Float)) (p : Program Float) : Report :=
  match p.toText with
  | .ok text => .done text journal
  | .error error => .failed "" error journal

/-- Prints a program, solves it, and prints the last tableau and the answer. -/
def reportAnswer (fuel : Nat) (settings : Settings Float) (journal : List (Event Float))
    (p : Program Float) : Report :=
  let shown := p.display ++ "\n"
  match (Engine.ofProgram p settings).optimize fuel p.direction with
  | (.error error, e) => .failed shown error (journal ++ e.journal)
  | (.ok status, e) =>
    let tableau := (e.tableau.map fun t => t.display ++ "\n").getD ""
    .done (shown ++ tableau ++ answer e.program status)
      (journal ++ e.journal ++ [.finished status e.iterations])

/-- Does what the options ask for. `read` gives the content of a file. -/
def Options.carryOut (o : Options) (read : String → Except Fault ByteArray) (input : ByteArray)
    (fuel : Nat) : Report :=
  let whole : Report := match load read input o.files with
    | (journal, .error error) => .failed "" error journal
    | (journal, .ok program) =>
      let program := { program with direction := o.requestedDirection.getD program.direction }
      if o.write then reportText journal program
      else reportAnswer fuel o.settings journal program
  whole.shown o.verbosity

/-- The report on a command line without the name of the program. -/
def report (read : String → Except Fault ByteArray) (input : ByteArray) (fuel : Nat)
    (arguments : List String) : Report :=
  match Options.ofArguments arguments with
  | .error refusal => .ofRefusal refusal
  | .ok o => o.carryOut read input fuel

end LinProg.CommandLine
