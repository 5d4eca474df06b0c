import LinearSystem.Proofs.Exact
import LinearSystem.Proofs.Reduction.Bookkeeping
import LinearSystem.Scalar.Floating

namespace LinearSystem

variable {α : Type} {n m : ℕ}

namespace Solution

/-- The columns of an answer: those of its pivots and the others share them out, each list in
order, and everything else has the size of the system. -/
structure Partitioned (s : Solution α n m) : Prop where
  pivots_increasing : s.pivotColumns.Pairwise (· < ·)
  pivots_bounded : ∀ c ∈ s.pivotColumns, c.val < m
  pivots_length : s.pivotColumns.length ≤ min n m
  free_increasing : s.freeVariables.Pairwise (· < ·)
  each_once : ∀ c, s.pivotColumns.count c + s.freeVariables.count c = 1
  length_x : s.x.toList.length = m
  reduced_rows : s.reduced.toLists.length = n
  reduced_columns : ∀ r ∈ s.reduced.toLists, r.length = m + 1
  solvability : s.solvability =
    if s.pivotColumns.length = m then .unique
    else .underdetermined (m - s.pivotColumns.length)

variable {s : Solution α n m}

theorem pairwise_freeVariables : s.freeVariables.Pairwise (· < ·) :=
  (List.pairwise_lt_finRange m).filter _

theorem mem_freeVariables_iff {c : Fin m} : c ∈ s.freeVariables ↔ c ∉ s.pivotColumns := by
  simp [freeVariables]

theorem count_add_count (h : s.pivotColumns.Nodup) (c : Fin m) :
    s.pivotColumns.count c + s.freeVariables.count c = 1 := by
  have hfree : s.freeVariables.Nodup := pairwise_freeVariables.imp Fin.ne_of_lt
  by_cases hc : c ∈ s.pivotColumns
  · have hnot : c ∉ s.freeVariables := fun hf => mem_freeVariables_iff.mp hf hc
    rw [List.count_eq_one_of_mem h hc, List.count_eq_zero_of_not_mem hnot]
  · have hmem : c ∈ s.freeVariables := mem_freeVariables_iff.mpr hc
    rw [List.count_eq_zero_of_not_mem hc, List.count_eq_one_of_mem hfree hmem]

theorem length_pivotColumns_le (h : s.pivotColumns.Nodup) : s.pivotColumns.length ≤ m := by
  have htotal := length_pivotColumns_add_freeVariables h
  omega

end Solution

theorem DenseMatrix.length_toLists (A : DenseMatrix α n m) : A.toLists.length = n := by
  simp [toLists]

theorem DenseMatrix.length_of_mem_toLists {A : DenseMatrix α n m} {r : List α}
    (h : r ∈ A.toLists) : r.length = m := by
  obtain ⟨v, -, rfl⟩ := List.mem_map.mp h
  exact v.length_toList

theorem solutionAt_partitioned [Scalar α] (pivoting : PivotRule) (tol : α) (A : DenseMatrix α n m)
    (b : Vector α n) : (solutionAt pivoting tol A b).Partitioned := by
  have hordered : (reduce pivoting tol (A.augment b)).Ordered m := reduce_ordered _ _ _
  have hsorted : (solutionAt pivoting tol A b).pivotColumns.Pairwise (· < ·) :=
    hordered.sorted_columns
  have hnodup : (solutionAt pivoting tol A b).pivotColumns.Nodup := hsorted.imp Fin.ne_of_lt
  have hrows : (solutionAt pivoting tol A b).pivotColumns.length ≤ n := by
    rw [Solution.pivotColumns, List.length_map]
    exact hordered.length_le
  exact {
    pivots_increasing := hsorted
    pivots_bounded := fun c _ => c.isLt
    pivots_length := Nat.le_min.mpr ⟨hrows, Solution.length_pivotColumns_le hnodup⟩
    free_increasing := Solution.pairwise_freeVariables
    each_once := Solution.count_add_count hnodup
    length_x := Vector.length_toList
    reduced_rows := DenseMatrix.length_toLists _
    reduced_columns := fun _ => DenseMatrix.length_of_mem_toLists
    solvability := Solution.solvability_eq hnodup }

/-- Whatever the arithmetic does, an answer's pivot columns and free unknowns share out the columns
of the system, with at most one pivot for each equation. -/
theorem solve_partitions_columns [Scalar α] {settings : Settings} {A : DenseMatrix α n m}
    {l : List α} {s : Solution α n m} (h : solve settings A l = .ok s) : s.Partitioned := by
  obtain ⟨tol, b, -, -, hsolve⟩ := solve_eq_ok_iff.mp h
  obtain ⟨-, -, rfl⟩ := solveAt_eq_ok_iff.mp hsolve
  exact solutionAt_partitioned _ _ _ _

/-- Two equations for three unknowns, in the course of which numbers overflow to a NaN. -/
theorem solve_partitions_columns_overflow :
    let A : DenseMatrix Float 2 3 := ⟨#v[#v[1e-9, 1e308, 0], #v[1e-9, 1e308, 1]]⟩
    let b : Vector Float 2 := #v[1, 2]
    ∃ s, solve .default A b.toList = .ok s ∧ (s.reduced 0 2).isNaN = true ∧ s.Partitioned ∧
      s.freeVariables = [2] ∧ s.solvability = .underdetermined 1 := by
  intro A b
  have hrow : badZeroRow? .positiveRhs 1e-10 A b = none := by decide +kernel
  have hrank : ¬rank 1e-10 A < rank 1e-10 (A.augment b) := by decide +kernel
  have hvalid : validate A b.toList = .ok b :=
    validate_of_finite (by decide) (by decide) (by decide +kernel) (by decide +kernel)
  have hsolve : solve .default A b.toList = .ok (solutionAt .firstNonZero 1e-10 A b) :=
    solve_of_rank_not_lt rfl hvalid hrow hrank
  exact ⟨_, hsolve, by decide +kernel, solve_partitions_columns hsolve, by decide +kernel,
    by decide +kernel⟩

end LinearSystem
