import LinearSystem.Scalar

namespace LinearSystem

/-- A matrix with `n` rows and `m` columns, stored row by row. -/
structure DenseMatrix (α : Type) (n m : Nat) where
  rows : Vector (Vector α m) n

namespace DenseMatrix

variable {α : Type} {n m : Nat}

def entry (A : DenseMatrix α n m) (i : Fin n) (j : Fin m) : α := (A.rows.get i).get j

instance : CoeFun (DenseMatrix α n m) fun _ => Fin n → Fin m → α := ⟨entry⟩

def ofFn (f : Fin n → Fin m → α) : DenseMatrix α n m :=
  ⟨Vector.ofFn fun i => Vector.ofFn (f i)⟩

@[simp] theorem ofFn_apply (f : Fin n → Fin m → α) (i : Fin n) (j : Fin m) :
    ofFn f i j = f i j := by
  simp [ofFn, entry, Vector.get]
  rfl

@[ext] theorem ext {A B : DenseMatrix α n m} (h : ∀ i j, A i j = B i j) : A = B := by
  obtain ⟨a⟩ := A
  obtain ⟨b⟩ := B
  congr 1
  apply Vector.ext
  intro i hi
  apply Vector.ext
  intro j hj
  exact h ⟨i, hi⟩ ⟨j, hj⟩

def row (A : DenseMatrix α n m) (i : Fin n) : Vector α m := A.rows.get i

@[simp] theorem row_get (A : DenseMatrix α n m) (i : Fin n) (j : Fin m) :
    (A.row i).get j = A i j := rfl

def toLists (A : DenseMatrix α n m) : List (List α) := A.rows.toList.map Vector.toList

def map {β : Type} (f : α → β) (A : DenseMatrix α n m) : DenseMatrix β n m :=
  ofFn fun i j => f (A i j)

@[simp] theorem map_apply {β : Type} (f : α → β) (A : DenseMatrix α n m) (i : Fin n) (j : Fin m) :
    A.map f i j = f (A i j) := by
  simp [map]

/-- The matrix with one more column on the right. -/
def augment (A : DenseMatrix α n m) (b : Vector α n) : DenseMatrix α n (m + 1) :=
  ofFn fun i => Fin.lastCases (b.get i) (A i)

@[simp] theorem augment_castSucc (A : DenseMatrix α n m) (b : Vector α n) (i : Fin n) (j : Fin m) :
    A.augment b i j.castSucc = A i j := by
  simp [augment]

@[simp] theorem augment_last (A : DenseMatrix α n m) (b : Vector α n) (i : Fin n) :
    A.augment b i (Fin.last m) = b.get i := by
  simp [augment]

/-- The matrix with one more column on the right, taken from the front of a list; none if
the list has fewer values than the matrix has rows. -/
def augmentList? (A : DenseMatrix α n m) (b : List α) : Option (DenseMatrix α n (m + 1)) :=
  if h : n ≤ b.length then
    some (A.augment (Vector.ofFn fun i => b.get (i.castLE h)))
  else none

/-- The matrix with rows `p` and `q` exchanged. -/
def swapRows (A : DenseMatrix α n m) (p q : Fin n) : DenseMatrix α n m :=
  ofFn fun i j => if i = p then A q j else if i = q then A p j else A i j

@[simp] theorem swapRows_apply (A : DenseMatrix α n m) (p q i : Fin n) (j : Fin m) :
    A.swapRows p q i j = if i = p then A q j else if i = q then A p j else A i j := by
  simp [swapRows]

end DenseMatrix

section Residual

variable {α : Type} [Scalar α]

open Scalar

/-- The products of paired entries summed from the left; the longer list is cut off. -/
def dot (a x : List α) : α :=
  (a.zip x).foldl (fun sum p => sum + p.1 * p.2) 0

/-- How far each equation is from holding at `x`. -/
def deviations (rows : List (List α)) (x b : List α) : List α :=
  (rows.zip b).map fun p => magnitude (dot p.1 x - p.2)

/-- The largest deviation, zero if there is no equation. -/
def residual (rows : List (List α)) (x b : List α) : α :=
  (deviations rows x b).foldl larger 0

end Residual

end LinearSystem
