import LinearSystem.Dense

namespace LinearSystem

open Scalar

namespace Rank

variable {α : Type} [Scalar α] {n m : Nat}

/-- Elimination in progress. The rows above `row` are done, the columns from `live` on are
discarded, and the next pivot is sought in column `row` of the square corner between. -/
structure State (α : Type) (n m : Nat) where
  work : DenseMatrix α n m
  row : Nat
  live : Nat
  row_le : row ≤ n
  row_le_live : row ≤ live
  live_le : live ≤ m

namespace State

def Active (s : State α n m) : Prop := s.row < n ∧ s.row < s.live

instance (s : State α n m) : Decidable s.Active :=
  inferInstanceAs (Decidable (s.row < n ∧ s.row < s.live))

def pivotRow (s : State α n m) (h : s.Active) : Fin n := ⟨s.row, h.1⟩

def pivotCol (s : State α n m) (h : s.Active) : Fin m :=
  ⟨s.row, Nat.lt_of_lt_of_le h.2 s.live_le⟩

/-- The first row from the current one down with a significant entry in the pivot column. -/
def candidate? (tol : α) (s : State α n m) (h : s.Active) : Option (Fin n) :=
  (List.finRange n).find? fun i =>
    decide (s.row ≤ i.val) && significant tol (s.work i (s.pivotCol h))

/-- Clear the pivot column below the pivot. Only live columns are touched, and a row with
nothing to clear keeps its entries. -/
def clearBelow (work : DenseMatrix α n m) (p : Fin n) (c : Fin m) (live : Nat) :
    DenseMatrix α n m :=
  DenseMatrix.ofFn fun i =>
    let factor := work i c / work p c
    if p < i ∧ !isZero factor then
      fun j => if c ≤ j ∧ j.val < live then work i j - factor * work p j else work i j
    else work i

/-- The last live column moves into the place of the exhausted one. -/
def overwriteColumn (work : DenseMatrix α n m) (c last : Fin m) : DenseMatrix α n m :=
  DenseMatrix.ofFn fun i j => if j = c then work i last else work i j

/-- One pivot step, or one column discarded. -/
def advance (tol : α) (s : State α n m) (h : s.Active) : State α n m :=
  match s.candidate? tol h with
  | some i =>
    { work := clearBelow (s.work.swapRows (s.pivotRow h) i) (s.pivotRow h) (s.pivotCol h) s.live
      row := s.row + 1
      live := s.live
      row_le := h.1
      row_le_live := h.2
      live_le := s.live_le }
  | none =>
    { work := overwriteColumn s.work (s.pivotCol h)
        ⟨s.live - 1, by have := h.2; have := s.live_le; omega⟩
      row := s.row
      live := s.live - 1
      row_le := s.row_le
      row_le_live := Nat.le_pred_of_lt h.2
      live_le := Nat.le_trans (Nat.sub_le _ _) s.live_le }

/-- The rows still to do and the columns still live. -/
def size (s : State α n m) : Nat := (n - s.row) + s.live

theorem size_advance (tol : α) (s : State α n m) (h : s.Active) :
    (s.advance tol h).size < s.size := by
  have h1 := h.1
  have h2 := h.2
  unfold advance
  split <;> simp only [size] <;> omega

end State

def start (A : DenseMatrix α n m) : State α n m :=
  ⟨A, 0, m, Nat.zero_le _, Nat.zero_le _, Nat.le_refl _⟩

/-- The state after at most `fuel` steps. -/
def advanceN (tol : α) : Nat → State α n m → State α n m
  | 0, s => s
  | fuel + 1, s => if h : s.Active then advanceN tol fuel (s.advance tol h) else s

/-- The state in which no row or no live column is left. -/
def finish (tol : α) (s : State α n m) : State α n m := advanceN tol s.size s

theorem advanceN_not_active (tol : α) (fuel : Nat) (s : State α n m) (h : s.size ≤ fuel) :
    ¬(advanceN tol fuel s).Active := by
  induction fuel generalizing s with
  | zero =>
    intro ha
    have := ha.2
    simp only [advanceN, State.size] at h this
    omega
  | succ fuel ih =>
    unfold advanceN
    split
    next ha =>
      have := s.size_advance tol ha
      exact ih _ (by omega)
    next ha => exact ha

theorem finish_not_active (tol : α) (s : State α n m) : ¬(finish tol s).Active :=
  advanceN_not_active tol s.size s (Nat.le_refl _)

end Rank

/-- The number of pivot rows that elimination finds when entries up to `tol` count as zero. -/
def rank {α : Type} [Scalar α] {n m : Nat} (tol : α) (A : DenseMatrix α n m) : Nat :=
  (Rank.finish tol (Rank.start A)).row

end LinearSystem
