import LinearSystem.Decimal.Text

namespace LinearSystem

/-- What an inconsistent system looked like: its entries in double precision. -/
structure Diagnostics where
  matrix : List (List Float)
  rhs : List Float
  augmented : List (List Float)

/-- Why a system was not solved. -/
inductive SolveError where
  | zeroRow (row : Nat) (rhs : Float)
  | inconsistent (rankMatrix rankAugmented : Nat) (diagnostics : Diagnostics)
  | emptySystem (rows cols : Nat)
  | raggedRow (row expected got : Nat)
  | lengthMismatch (expected got : Nat)
  /-- The right-hand side counts as the column after the last one. -/
  | nonFinite (row col : Nat)
  | invalidTolerance (tolerance : Float)

namespace SolveError

/-- The system was well formed and has no solution. -/
def isNoSolution : SolveError → Bool
  | zeroRow .. | inconsistent .. => true
  | _ => false

/-- The input was rejected before any elimination. -/
def isInvalidInput (e : SolveError) : Bool := !e.isNoSolution

def diagnostics? : SolveError → Option Diagnostics
  | inconsistent _ _ d => some d
  | _ => none

def message : SolveError → String
  | zeroRow row rhs =>
    s!"no solution: row {row} has only zero coefficients but right-hand side {Decimal.plain rhs}"
  | inconsistent rankMatrix rankAugmented _ =>
    s!"no solution: system is inconsistent (rank of matrix {rankMatrix} < rank of augmented matrix {rankAugmented})"
  | emptySystem rows cols =>
    s!"empty system: {rows} rows, {cols} columns (both must be > 0)"
  | raggedRow row expected got =>
    s!"ragged matrix: row {row} has {got} columns, expected {expected}"
  | lengthMismatch expected got =>
    s!"right-hand side dimension mismatch: expected {expected}, got {got}"
  | nonFinite row col => s!"non-finite value at row {row}, column {col}"
  | invalidTolerance tolerance =>
    s!"invalid tolerance: {Decimal.plain tolerance} (must be finite and >= 0)"

end SolveError

end LinearSystem
