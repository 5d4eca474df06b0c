import LinearSystem.Dense
import LinearSystem.Settings

namespace LinearSystem

open Scalar

/-- A pivot: the row that was used and the column it clears. -/
structure Pivot (n m : Nat) where
  row : Fin n
  col : Fin m
  deriving DecidableEq

/-- A matrix under reduction, its last column being the right-hand side, with the pivots
so far in the order they were taken. Rows stay where they are. -/
structure Reduction (α : Type) (n m : Nat) where
  entries : DenseMatrix α n (m + 1)
  pivots : List (Pivot n m)

variable {α : Type} [Scalar α] {n m : Nat}

/-- The pivot row for a column, among the unused rows with a significant entry there. Of
equal magnitudes the first one wins. -/
def selectPivot (rule : PivotRule) (tol : α) (A : DenseMatrix α n m) (used : Fin n → Bool)
    (c : Fin m) : Option (Fin n) :=
  let candidates := (List.finRange n).filter fun i => !used i && significant tol (A i c)
  match rule with
  | .firstNonZero => candidates.head?
  | .largestMagnitude =>
    candidates.foldl (fun best i =>
      match best with
      | some b => if atMost (magnitude (A i c)) (magnitude (A b c)) then some b else some i
      | none => some i) none

/-- Divide row `p` by its entry in column `c`, then clear that column in every other row.
Entries to the left of `c` keep their values, as does a row with nothing to clear. -/
def clearColumn (A : DenseMatrix α n m) (p : Fin n) (c : Fin m) : DenseMatrix α n m :=
  let pivotRow := Vector.ofFn fun j => if c ≤ j then A p j / A p c else A p j
  DenseMatrix.ofFn fun i j =>
    if i = p then pivotRow.get j
    else if isZero (A i c) then A i j
    else if c ≤ j then A i j - A i c * pivotRow.get j
    else A i j

namespace Reduction

def start (A : DenseMatrix α n (m + 1)) : Reduction α n m := ⟨A, []⟩

def used (s : Reduction α n m) (i : Fin n) : Bool := s.pivots.any (·.row = i)

/-- Take the pivot of one coefficient column, if it has one. -/
def step (rule : PivotRule) (tol : α) (s : Reduction α n m) (c : Fin m) : Reduction α n m :=
  match selectPivot rule tol s.entries s.used c.castSucc with
  | some p => ⟨clearColumn s.entries p c.castSucc, s.pivots ++ [⟨p, c⟩]⟩
  | none => s

end Reduction

/-- Reduce the coefficient columns from left to right. -/
def reduce (rule : PivotRule) (tol : α) (A : DenseMatrix α n (m + 1)) : Reduction α n m :=
  (List.finRange m).foldl (Reduction.step rule tol) (Reduction.start A)

/-- The first coefficient column in which a row has a significant entry. -/
def leadingColumn? (tol : α) (A : DenseMatrix α n (m + 1)) (i : Fin n) : Option (Fin m) :=
  (List.finRange m).find? fun j => significant tol (A i j.castSucc)

/-- Solve one row for its leading unknown, from the unknowns to the right of it. -/
def solveRow (tol : α) (A : DenseMatrix α n (m + 1)) (i : Fin n) (x : Vector α m) :
    Vector α m :=
  match leadingColumn? tol A i with
  | none => x
  | some c =>
    let right := (List.finRange m).filter (c < ·)
    let value := right.foldl (fun v j => v - A i j.castSucc * x.get j) (A i (Fin.last m))
    x.set c value

/-- Read a solution off a reduced matrix, last row first; unknowns that lead no row are zero. -/
def backSubstitute (tol : α) (A : DenseMatrix α n (m + 1)) : Vector α m :=
  (List.finRange n).foldr (solveRow tol A) (Vector.replicate m 0)

end LinearSystem
