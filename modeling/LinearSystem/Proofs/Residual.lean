import LinearSystem.Proofs.Equations

namespace LinearSystem

open Scalar

theorem toList_eq_map_get {α : Type} {m : ℕ} (v : Vector α m) :
    v.toList = (List.finRange m).map v.get := by
  apply List.ext_getElem
  · simp
  · intro i hi _
    simp [Vector.get]

theorem toLists_eq_map_row {α : Type} {n m : ℕ} (A : DenseMatrix α n m) :
    A.toLists = (List.finRange n).map fun i => (A.row i).toList := by
  rw [DenseMatrix.toLists, toList_eq_map_get, List.map_map]
  rfl

/-- How far equation `i` is from holding at `x`, in the order in which the residual adds it up. -/
def deviation {α : Type} [Scalar α] {n m : ℕ} (A : DenseMatrix α n m) (x : Vector α m)
    (b : Vector α n) (i : Fin n) : α :=
  magnitude (dot (A.row i).toList x.toList - b.get i)

theorem deviations_eq_map {α : Type} [Scalar α] {n m : ℕ} (A : DenseMatrix α n m)
    (x : Vector α m) (b : Vector α n) :
    deviations A.toLists x.toList b.toList = (List.finRange n).map (deviation A x b) := by
  rw [deviations, toLists_eq_map_row, toList_eq_map_get b, List.zip_map', List.map_map]
  rfl

variable {n m : ℕ}

theorem dot_toList (v w : Vector ℚ m) : dot v.toList w.toList = ∑ j, v.get j * w.get j := by
  rw [toList_eq_map_get, toList_eq_map_get, dot, List.zip_map', List.foldl_map, Fin.sum_univ_def,
    List.sum_eq_foldl, List.foldl_map]
  rfl

theorem deviations_toLists (A : DenseMatrix ℚ n m) (x : Vector ℚ m) (b : Vector ℚ n) :
    deviations A.toLists x.toList b.toList =
      (List.finRange n).map fun i => |∑ j, A i j * x.get j - b.get i| := by
  rw [deviations_eq_map]
  apply List.map_congr_left
  intro i _
  rw [deviation, Rational.magnitude_eq, dot_toList]
  rfl

private theorem foldl_larger_zero {l : List ℚ} (h : ∀ d ∈ l, d = 0) : l.foldl larger 0 = 0 := by
  induction l with
  | nil => rfl
  | cons d l ih =>
    rw [List.foldl_cons, h d List.mem_cons_self, Rational.larger_eq_max, max_self]
    exact ih fun e he => h e (List.mem_cons_of_mem d he)

/-- At an exact solution nothing remains. -/
theorem residual_eq_zero {A : DenseMatrix ℚ n m} {x : Vector ℚ m} {b : Vector ℚ n}
    (h : Solves A b x.get) : residual A.toLists x.toList b.toList = 0 := by
  apply foldl_larger_zero
  intro d hd
  rw [deviations_toLists] at hd
  obtain ⟨i, -, rfl⟩ := List.mem_map.mp hd
  rw [h i, sub_self, abs_zero]

end LinearSystem
