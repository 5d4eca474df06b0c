import LinearSystem.Command.Report
import LinearSystem.Stored.Load

namespace LinearSystem.Command

/-- What a run leaves behind. -/
structure Outcome where
  status : Nat
  stdout : String
  stderr : String
  deriving DecidableEq, Repr

namespace Outcome

def success (report : String) : Outcome := ⟨0, report, ""⟩

def noSolution (report : String) : Outcome := ⟨1, report, ""⟩

def rejected (report message : String) : Outcome := ⟨2, report, message⟩

end Outcome

/-- The texts that come from elsewhere: what the reader of the command line says about arguments
that it rejects, and what a parser says about a text, its place in the text included. -/
structure Wording where
  usage : List String → String
  parser : FormatError → String

/-- The settings of the file, where the command line does not override them. -/
def Arguments.settings (a : Arguments) (s : Settings) : Settings where
  tolerance := a.tolerance.or s.tolerance
  pivoting := a.pivoting.getD s.pivoting
  zeroRows := if a.symmetricZeroRow then .symmetric else s.zeroRows

def loadComplaint (wording : Wording) (path : String) (e : LoadError) : String :=
  line s!"Error loading '{path}': {e.message wording.parser}"

/-- The description comes first, but only in a report for readers. -/
def heading (a : Arguments) (s : StoredSystem) : String :=
  if s.description.isEmpty || a.format = .json then "" else line s.description

def solveOutcome {n m : Nat} (a : Arguments) (s : StoredSystem) (A : DenseMatrix Float n m)
    (b : Vector Float n) : Outcome :=
  match solve (a.settings s.settings) A b.toList with
  | .ok solution => .success (heading a s ++ solutionReport solution a.format)
  | .error e =>
    if e.isNoSolution then .noSolution (heading a s ++ noSolutionReport e a.format)
    else .rejected (heading a s) (line s!"Error: {e.message}")

def ranksOutcome {n m : Nat} (a : Arguments) (s : StoredSystem) (A : DenseMatrix Float n m)
    (b : Vector Float n) : Outcome :=
  match classify (a.settings s.settings) A b.toList with
  | .ok ranks => .success (heading a s ++ ranksReport ranks a.format)
  | .error e => .rejected (heading a s) (line s!"Error: {e.message}")

/-- Solve the system of the input file, or only report its ranks. -/
def respond (wording : Wording) (read : String → Except ReadFailure ByteArray) (a : Arguments) :
    Outcome :=
  match StoredSystem.load read a.input with
  | .error e => .rejected "" (loadComplaint wording a.input e)
  | .ok s =>
    match s.toDense with
    | .error e =>
      .rejected "" (line s!"Error: {(LoadError.invalidSystem e).message wording.parser}")
    | .ok (A, b) => if a.rankOnly then ranksOutcome a s A b else solveOutcome a s A b

/-- Run a command line, where files are read by `read`. -/
def run (wording : Wording) (read : String → Except ReadFailure ByteArray) (args : List String) :
    Outcome :=
  match Arguments.ofList? args with
  | none => .rejected "" (wording.usage args)
  | some a => respond wording read a

end LinearSystem.Command
