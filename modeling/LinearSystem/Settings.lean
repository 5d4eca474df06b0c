namespace LinearSystem

/-- How the pivot row of a column is chosen. -/
inductive PivotRule where
  /-- The first unused row with a significant entry. -/
  | firstNonZero
  /-- The unused row whose entry has the largest magnitude. -/
  | largestMagnitude
  deriving DecidableEq, Repr

/-- Which right-hand sides make a row without significant coefficients fail at once. -/
inductive ZeroRowRule where
  /-- Those that reach the tolerance from above. -/
  | positiveRhs
  /-- Those that reach it with either sign. -/
  | symmetric
  deriving DecidableEq, Repr

structure Settings where
  /-- Entries up to this magnitude count as zero; when unset, each scalar type has its own. -/
  tolerance : Option Float
  pivoting : PivotRule
  zeroRows : ZeroRowRule
  deriving DecidableEq

namespace Settings

def default : Settings := ⟨none, .firstNonZero, .positiveRhs⟩

end Settings

end LinearSystem
