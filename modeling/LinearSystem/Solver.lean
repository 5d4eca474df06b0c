import LinearSystem.Dense.Rows
import LinearSystem.Rank
import LinearSystem.Reduction
import LinearSystem.Scalar.Floating
import LinearSystem.Solvability
import LinearSystem.Solver.Error

namespace LinearSystem

open Scalar

variable {α : Type} [Scalar α] {n m : Nat}

structure Solution (α : Type) (n m : Nat) where
  /-- One solution; its free unknowns are zero. -/
  x : Vector α m
  rank : Nat
  pivots : List (Pivot n m)
  /-- The reduced matrix, with the right-hand side as its last column. -/
  reduced : DenseMatrix α n (m + 1)
  residual : α

namespace Solution

def pivotColumns (s : Solution α n m) : List (Fin m) := s.pivots.map (·.col)

/-- The columns without a pivot. -/
def freeVariables (s : Solution α n m) : List (Fin m) :=
  (List.finRange m).filter fun c => !s.pivotColumns.contains c

def isUnique (s : Solution α n m) : Bool := s.freeVariables.isEmpty

def solvability (s : Solution α n m) : Solvability :=
  if s.isUnique then .unique else .underdetermined s.freeVariables.length

end Solution

/-- The tolerance in force. A configured one must be finite and not negative. -/
def Settings.toleranceFor (α : Type) [Scalar α] (s : Settings) : Except SolveError α :=
  match s.tolerance with
  | none => .ok defaultTolerance
  | some t =>
    if !t.isFinite || t < 0 then .error (.invalidTolerance t) else .ok (ofFloat t)

/-- The first entry, row by row, that is a NaN or infinite. -/
def DenseMatrix.firstNonFinite? (A : DenseMatrix α n m) : Option (Fin n × Fin m) :=
  (List.finRange n).findSome? fun i =>
    ((List.finRange m).find? fun j => !finite (A i j)).map fun j => (i, j)

/-- A well-formed right-hand side for `A`, or the first thing wrong with the two. -/
def validate (A : DenseMatrix α n m) (b : List α) : Except SolveError (Vector α n) :=
  if n = 0 ∨ m = 0 then .error (.emptySystem n m)
  else if h : b.length = n then
    match A.firstNonFinite? with
    | some (i, j) => .error (.nonFinite i j)
    | none =>
      match b.findIdx? (!finite ·) with
      | some i => .error (.nonFinite i m)
      | none => .ok ⟨b.toArray, h⟩
  else .error (.lengthMismatch n b.length)

/-- Does a right-hand side rule out a row of negligible coefficients at once? -/
def ZeroRowRule.rejects (rule : ZeroRowRule) (tol rhs : α) : Bool :=
  match rule with
  | .positiveRhs => atMost tol rhs
  | .symmetric => atMost tol (magnitude rhs)

/-- The first row of negligible coefficients that its right-hand side rules out. -/
def badZeroRow? (rule : ZeroRowRule) (tol : α) (A : DenseMatrix α n m) (b : Vector α n) :
    Option (Fin n) :=
  (List.finRange n).find? fun i =>
    (List.finRange m).all (fun j => negligible tol (A i j)) && rule.rejects tol (b.get i)

def ranksAt (tol : α) (A : DenseMatrix α n m) (b : Vector α n) : Ranks :=
  ⟨rank tol A, rank tol (A.augment b), m⟩

/-- The system in double precision, as it stood before elimination. -/
def diagnose (A : DenseMatrix α n m) (b : Vector α n) : Diagnostics :=
  ⟨(A.map widen).toLists, b.toList.map widen, ((A.augment b).map widen).toLists⟩

/-- Solve a well-formed system at a given tolerance. Solvability is decided by the ranks
before anything is reduced. -/
def solveAt (pivoting : PivotRule) (zeroRows : ZeroRowRule) (tol : α) (A : DenseMatrix α n m)
    (b : Vector α n) : Except SolveError (Solution α n m) :=
  match badZeroRow? zeroRows tol A b with
  | some i => .error (.zeroRow i (widen (b.get i)))
  | none =>
    let ranks := ranksAt tol A b
    if ranks.matrix < ranks.augmented then
      .error (.inconsistent ranks.matrix ranks.augmented (diagnose A b))
    else
      let r := reduce pivoting tol (A.augment b)
      let x := backSubstitute tol r.entries
      .ok ⟨x, ranks.matrix, r.pivots, r.entries, residual A.toLists x.toList b.toList⟩

/-- Solve `A x = b`, where `b` may still have any length and any entry may be a NaN. -/
def solve (s : Settings) (A : DenseMatrix α n m) (b : List α) :
    Except SolveError (Solution α n m) := do
  let tol ← s.toleranceFor α
  let b ← validate A b
  solveAt s.pivoting s.zeroRows tol A b

/-- The ranks of `A x = b`, without solving it. -/
def classify (s : Settings) (A : DenseMatrix α n m) (b : List α) : Except SolveError Ranks := do
  let tol ← s.toleranceFor α
  let b ← validate A b
  pure (ranksAt tol A b)

end LinearSystem
