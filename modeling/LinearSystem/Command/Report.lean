import LinearSystem.Command.Arguments
import LinearSystem.Json.Writer
import LinearSystem.Solver

namespace LinearSystem.Command

open Json (Value)

def line (s : String) : String := s ++ "\n"

/-- A report in the format of data: one object, its members sorted by name. -/
def dataReport (members : List (String × Value)) : String :=
  line ((Value.object members).pretty 0)

def columnList {m : Nat} (cs : List (Fin m)) : Value := .array (cs.map fun c => .count c.val)

def ranksReport (r : Ranks) : ReportFormat → String
  | .text =>
    line s!"rank(A)   = {r.matrix}" ++
    line s!"rank(A|b) = {r.augmented}" ++
    line s!"unknowns  = {r.unknowns}" ++
    line s!"system    : {r.solvability.describe}"
  | .json =>
    dataReport
      [("kind", .text r.solvability.describe),
       ("rank_augmented", .count r.augmented),
       ("rank_matrix", .count r.matrix),
       ("unknowns", .count r.unknowns)]

/-- The unknowns one a line, with ten decimal places, numbered from `i`. -/
def unknownLines (i : Nat) : List Float → String
  | [] => ""
  | x :: xs => line s!"x[{i}] = {Decimal.fixed 10 x}" ++ unknownLines (i + 1) xs

def freeLine {m : Nat} (cs : List (Fin m)) : String :=
  if cs.isEmpty then ""
  else
    let names := ", ".intercalate (cs.map fun c => toString c.val)
    line s!"free vars : [{names}] (set to 0)"

def solutionReport {n m : Nat} (s : Solution Float n m) : ReportFormat → String
  | .text =>
    unknownLines 0 s.x.toList ++
    line s!"rank      = {s.rank}" ++
    line s!"system    : {s.solvability.describe}" ++
    freeLine s.freeVariables ++
    line s!"residual  = {Decimal.scientific 3 s.residual}"
  | .json =>
    dataReport
      [("free_variables", columnList s.freeVariables),
       ("kind", .text s.solvability.describe),
       ("pivot_columns", columnList s.pivotColumns),
       ("rank", .count s.rank),
       ("residual", .number s.residual),
       ("x", .array (s.x.toList.map .number))]

/-- A row with six decimal places, each entry at least twelve characters wide. -/
def rowLine (row : List Float) : String :=
  line ("  " ++ " ".intercalate (row.map fun x => Decimal.rightAligned 12 (Decimal.fixed 6 x)))

def diagnosticsText (d : Diagnostics) : String :=
  line "augmented matrix [A|b]:" ++ String.join (d.augmented.map rowLine)

def noSolutionReport (e : SolveError) : ReportFormat → String
  | .text => line e.message ++ (e.diagnostics?.map diagnosticsText).getD ""
  | .json =>
    dataReport
      [("augmented",
        match e.diagnostics? with
        | none => .null
        | some d => .array (d.augmented.map fun row => .array (row.map .number))),
       ("error", .text e.message)]

end LinearSystem.Command
