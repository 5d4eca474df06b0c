import LinearSystem.Dense
import LinearSystem.Solver.Error

namespace LinearSystem

variable {α : Type}

/-- The first row whose length is not `expected`, counted from `i`, with its length. -/
def firstRagged? (expected : Nat) (i : Nat) : List (List α) → Option (Nat × Nat)
  | [] => none
  | r :: rs => if r.length = expected then firstRagged? expected (i + 1) rs else some (i, r.length)

theorem length_of_firstRagged?_eq_none {expected i : Nat} {rows : List (List α)}
    (h : firstRagged? expected i rows = none) : ∀ r ∈ rows, r.length = expected := by
  induction rows generalizing i with
  | nil => simp
  | cons r rs ih =>
    simp only [firstRagged?] at h
    split at h
    next hr => simpa [hr] using ih h
    next => simp at h

/-- The length of the first row. -/
def width : List (List α) → Nat
  | [] => 0
  | r :: _ => r.length

/-- The matrix with the given rows, which must be as long as the first one and not empty. -/
def DenseMatrix.ofRows (rows : List (List α)) :
    Except SolveError (DenseMatrix α rows.length (width rows)) :=
  if rows.length = 0 ∨ width rows = 0 then .error (.emptySystem rows.length (width rows))
  else
    match h : firstRagged? (width rows) 0 rows with
    | some (i, got) => .error (.raggedRow i (width rows) got)
    | none =>
      .ok (DenseMatrix.ofFn fun i j =>
        (rows.get i).get
          (j.cast (length_of_firstRagged?_eq_none h _ (List.get_mem rows i)).symm))

end LinearSystem
