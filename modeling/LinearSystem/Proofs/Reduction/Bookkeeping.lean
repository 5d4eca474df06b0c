import LinearSystem.Proofs.Reduction.Pivots
import LinearSystem.Proofs.Solver
import Mathlib.Data.Fintype.Card
import Mathlib.Data.List.FinRange

namespace LinearSystem

variable {α : Type} {n m : ℕ}

namespace Reduction

/-- The pivots taken in the first `c` columns: columns increase and no row is used twice. -/
structure Ordered (c : ℕ) (s : Reduction α n m) : Prop where
  col_lt : ∀ p ∈ s.pivots, p.col.val < c
  sorted : s.pivots.Pairwise fun p q => p.col < q.col
  rows_nodup : (s.pivots.map (·.row)).Nodup

variable {s : Reduction α n m}

theorem start_ordered (A : DenseMatrix α n (m + 1)) : (start A).Ordered 0 where
  col_lt := by simp [start]
  sorted := .nil
  rows_nodup := .nil

theorem Ordered.step [Scalar α] {rule : PivotRule} {tol : α} {c : Fin m} (hs : s.Ordered c) :
    (s.step rule tol c).Ordered (c + 1) := by
  cases h : selectPivot rule tol s.entries s.used c.castSucc with
  | none =>
    rw [step_of_none h]
    exact ⟨fun p hp => Nat.lt_succ_of_lt (hs.col_lt p hp), hs.sorted, hs.rows_nodup⟩
  | some p =>
    have hunused : s.used p = false := (mem_candidates.mp (selectPivot_mem h)).1
    rw [step_of_some h]
    refine ⟨fun q hq => ?_, ?_, ?_⟩
    · cases List.mem_append.mp hq with
      | inl hold => exact Nat.lt_succ_of_lt (hs.col_lt q hold)
      | inr hnew =>
        rw [List.mem_singleton.mp hnew]
        exact Nat.lt_succ_self _
    · refine List.pairwise_append.mpr ⟨hs.sorted, List.pairwise_singleton _ _, ?_⟩
      intro q hq r hr
      rw [List.mem_singleton.mp hr]
      exact hs.col_lt q hq
    · have hnew : p ∉ s.pivots.map (·.row) := by
        intro hmap
        obtain ⟨q, hq, hrow⟩ := List.mem_map.mp hmap
        exact used_eq_false_iff.mp hunused q hq hrow
      rw [List.map_append]
      exact hs.rows_nodup.append (List.nodup_singleton p) (List.disjoint_singleton.mpr hnew)

theorem Ordered.length_le {c : ℕ} (hs : s.Ordered c) : s.pivots.length ≤ n := by
  have hle := List.Nodup.length_le_card hs.rows_nodup
  rwa [List.length_map, Fintype.card_fin] at hle

theorem Ordered.sorted_columns {c : ℕ} (hs : s.Ordered c) :
    (s.pivots.map (·.col)).Pairwise (· < ·) :=
  List.pairwise_map.mpr hs.sorted

end Reduction

theorem reduce_ordered [Scalar α] (rule : PivotRule) (tol : α) (A : DenseMatrix α n (m + 1)) :
    (reduce rule tol A).Ordered m :=
  reduce_invariant (fun _ _ hs => hs.step) (Reduction.start_ordered A)

namespace Solution

theorem length_pivotColumns_add_freeVariables {s : Solution α n m}
    (h : s.pivotColumns.Nodup) : s.pivotColumns.length + s.freeVariables.length = m := by
  have hperm : ((List.finRange m).filter s.pivotColumns.contains).Perm s.pivotColumns := by
    rw [List.perm_ext_iff_of_nodup ((List.nodup_finRange m).filter _) h]
    simp
  have hsplit := List.length_eq_length_filter_add (l := List.finRange m) s.pivotColumns.contains
  rw [List.length_finRange, hperm.length_eq] at hsplit
  exact hsplit.symm

theorem solvability_eq {s : Solution α n m} (h : s.pivotColumns.Nodup) :
    s.solvability =
      if s.pivotColumns.length = m then .unique
      else .underdetermined (m - s.pivotColumns.length) := by
  have hlen := length_pivotColumns_add_freeVariables h
  have hfree : s.isUnique = true ↔ s.pivotColumns.length = m := by
    rw [isUnique, List.isEmpty_iff_length_eq_zero]
    omega
  rw [solvability]
  simp only [hfree]
  congr 2
  omega

end Solution

theorem nodup_pivotColumns_solutionAt [Scalar α] (pivoting : PivotRule) (tol : α)
    (A : DenseMatrix α n m) (b : Vector α n) : (solutionAt pivoting tol A b).pivotColumns.Nodup :=
  (reduce_ordered pivoting tol (A.augment b)).sorted_columns.imp fun h => h.ne

end LinearSystem
