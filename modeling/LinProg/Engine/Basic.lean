import LinProg.Engine.Event
import LinProg.Tableau.Augment

/-!
The solver of a program: an engine holds the program, the tableau that it works on and a journal.

The pivot loop has a limit if the settings give one. Without a limit the loop may go on forever, so
the functions take a count of pivots after which an engine gives up. That is an error of its own,
and an answer that an engine does give does not depend on the count.
-/

namespace LinProg

structure Settings (α : Type) where
  /-- The most pivots that one solve may make. -/
  maxIterations : Option Nat
  /-- How far from zero a number has to be to count as different from zero. -/
  tolerance : α

/-- `1e-9`. -/
def Settings.defaultTolerance {α : Type} [Scalar α] : α := Scalar.ofDecimal ⟨false, 1, -9⟩

def Settings.standard {α : Type} [Scalar α] : Settings α := ⟨none, defaultTolerance⟩

structure Engine (α : Type) where
  program : Program α
  settings : Settings α
  tableau : Option (Tableau α)
  /-- The count of pivots in the last solve. -/
  iterations : Nat
  /-- What has happened so far, the oldest entry first. -/
  journal : List (Event α)

namespace Tableau

variable {α : Type}

/-- The answer that the end of a run stands for, before the artificial variables are looked at. -/
def Stop.status? : Stop → Option Status
  | optimal => some .solution
  | unbounded _ => some .unbounded
  | truncated => none

/-- The journal of a run. -/
def Run.events (r : Run α) : List (Event α) :=
  r.exchanges.map .pivot ++ match r.stop with
    | .unbounded column => [.noPositiveEntry column]
    | _ => []

/-- The values of the decision variables where all others are zero but the basic ones. -/
def decisionValues [Scalar α] (t : Tableau α) (count : Nat) : List α :=
  t.equations.foldl
    (fun x e => if e.basic.role = .decision then x.set e.basic.column e.rhs else x)
    (List.replicate count 0)

end Tableau

namespace Engine

variable {α : Type} [Scalar α]

def ofProgram (program : Program α) (settings : Settings α) : Engine α :=
  { program, settings, tableau := none, iterations := 0, journal := [] }

def record (e : Engine α) (events : List (Event α)) : Engine α :=
  { e with journal := e.journal ++ events }

/-- Starts from a fresh tableau and forgets the previous solution. -/
def setup (e : Engine α) (direction : Direction) : Engine α :=
  let program := e.program.clearSolution
  let t := Tableau.augment program direction
  let e := { e with program, tableau := some t, iterations := 0 }
  e.record [.setup direction (t.width - t.decisionCount) t.height t.width t.bigM]

/-- The tableau to work on: the present one, or the start of the program in its own direction. -/
def currentTableau (e : Engine α) : Tableau α :=
  e.tableau.getD (Tableau.augment e.program e.program.direction)

/-- The error for a run that its limit has cut short. -/
def cutShort (e : Engine α) (fuel : Nat) : Error :=
  match e.settings.maxIterations with
  | some limit => .pivotLimit limit
  | none => .unfinished fuel

/-- Pivots until the tableau gives an answer. The answer is open to correction by `classify`, since
an artificial variable may have stayed above zero. -/
def solve (fuel : Nat) (e : Engine α) : Except Error Status × Engine α :=
  let t := e.currentTableau
  if t.width ≤ t.height then
    let e := { e with tableau := some t, iterations := 0 }
    (.ok .noSolution, e.record [.noFreeColumn t.height t.width])
  else
    let run := t.run e.settings.tolerance (e.settings.maxIterations.getD fuel)
    let solved := { e with tableau := some run.final, iterations := run.exchanges.length }
    let result : Except Error Status :=
      match run.stop.status? with
      | some status => .ok status
      | none => .error (e.cutShort fuel)
    (result, solved.record run.events)

/-- Corrects an answer where an artificial variable has stayed above zero. -/
def classify (e : Engine α) (status : Status) : Status :=
  match e.tableau with
  | none => status
  | some t =>
    if status = .noSolution || !t.hasPositiveArtificial e.settings.tolerance then status
    else if 0 < t.artificialCount then .noSolution
    else .unbounded

/-- Stores the basic solution in the program, or zeros if there is no solution. -/
def extract (e : Engine α) (status : Status) : Engine α :=
  if status = .noSolution then { e with program := e.program.clearSolution }
  else
    match e.tableau with
    | none => e
    | some t =>
      { e with program := e.program.storeSolution (t.decisionValues e.program.width) }

/-- Solves the program in a direction and stores the answer. An error leaves the solution zero. -/
def optimize (fuel : Nat) (e : Engine α) (direction : Direction) :
    Except Error Status × Engine α :=
  let e := { e with program := { e.program with direction } }
  match (e.setup direction).solve fuel with
  | (.error error, e) => (.error error, e)
  | (.ok status, e) =>
    let status := e.classify status
    (.ok status, (e.record [.classified status e.iterations]).extract status)

end Engine

end LinProg
