import LinearSystem.Dense.Rows
import LinearSystem.Settings
import LinearSystem.Stored.Error

namespace LinearSystem

/-- A system as it is kept in a file, its shape not yet checked. -/
structure StoredSystem where
  description : String
  matrix : List (List Float)
  rhs : List Float
  settings : Settings

namespace StoredSystem

/-- The matrix and the right-hand side, if they fit together. -/
def toDense (s : StoredSystem) :
    Except SolveError
      (DenseMatrix Float s.matrix.length (width s.matrix) × Vector Float s.matrix.length) := do
  let A ← DenseMatrix.ofRows s.matrix
  if h : s.rhs.length = s.matrix.length then pure (A, ⟨s.rhs.toArray, h⟩)
  else throw (.lengthMismatch s.matrix.length s.rhs.length)

end StoredSystem

/-- The names of pivot rules in a file, in the order in which messages list them. -/
def PivotRule.names : List (String × PivotRule) :=
  [("first_non_zero", .firstNonZero), ("largest_magnitude", .largestMagnitude)]

def PivotRule.name : PivotRule → String
  | firstNonZero => "first_non_zero"
  | largestMagnitude => "largest_magnitude"

/-- The names of zero-row rules in a file, in the order in which messages list them. -/
def ZeroRowRule.names : List (String × ZeroRowRule) :=
  [("positive_rhs", .positiveRhs), ("symmetric", .symmetric)]

def ZeroRowRule.name : ZeroRowRule → String
  | positiveRhs => "positive_rhs"
  | symmetric => "symmetric"

/-- The members of settings seen so far. -/
structure Settings.Draft where
  tolerance : Option (Option Float)
  pivoting : Option PivotRule
  zeroRows : Option ZeroRowRule

namespace Settings.Draft

def empty : Draft := ⟨none, none, none⟩

/-- The settings, with defaults for what was not given. -/
def finish (d : Draft) : Settings :=
  ⟨d.tolerance.getD none, d.pivoting.getD .firstNonZero, d.zeroRows.getD .positiveRhs⟩

end Settings.Draft

/-- The members of a system seen so far. -/
structure StoredSystem.Draft where
  description : Option String
  matrix : Option (List (List Float))
  rhs : Option (List Float)
  settings : Option Settings

namespace StoredSystem.Draft

def empty : Draft := ⟨none, none, none, none⟩

/-- The system, if matrix and right-hand side were given; the rest has defaults. -/
def finish (d : Draft) : Except FormatError StoredSystem :=
  match d.matrix, d.rhs with
  | none, _ => throw (.missingField "matrix")
  | some _, none => throw (.missingField "rhs")
  | some matrix, some rhs =>
    pure ⟨d.description.getD "", matrix, rhs, d.settings.getD Settings.default⟩

end StoredSystem.Draft

end LinearSystem
