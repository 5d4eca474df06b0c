import LinearSystem.Proofs.EquationOrder
import Mathlib.LinearAlgebra.Matrix.Echelon.Basic

namespace LinearSystem

open DenseMatrix

variable {n m : ℕ}

/-- Row `k` is led by a one in column `cols[k]`, where no other row has anything, and the rows
beyond the list are zero. -/
structure DenseMatrix.ReducedTo (R : DenseMatrix ℚ n (m + 1)) (cols : List (Fin m)) : Prop where
  left : ∀ (k : Fin n) (hk : k.val < cols.length), ∀ j < cols[k], R k j.castSucc = 0
  unit : ∀ (k : Fin n) (hk : k.val < cols.length), R.column cols[k].castSucc = Pi.single k 1
  beyond : ∀ k : Fin n, cols.length ≤ k.val → ∀ j, R k j = 0

namespace DenseMatrix.ReducedTo

variable {R : DenseMatrix ℚ n (m + 1)} {cols : List (Fin m)}

theorem isLeadingEntry (h : R.ReducedTo cols) {k : Fin n} (hk : k.val < cols.length) :
    R.toMatrix.IsLeadingEntry k cols[k].castSucc := by
  have hone : R k cols[k].castSucc = 1 := by
    rw [← column_apply, h.unit k hk, Pi.single_eq_same]
  refine ⟨fun j hj => ?_, hone.trans_ne one_ne_zero⟩
  have hjm : j.val < m := lt_trans hj cols[k].isLt
  exact h.left k hk ⟨j.val, hjm⟩ hj

theorem eq_of_isLeadingEntry (h : R.ReducedTo cols) {k : Fin n} {c : Fin (m + 1)}
    (hc : R.toMatrix.IsLeadingEntry k c) : ∃ hk : k.val < cols.length, c = cols[k].castSucc := by
  by_cases hk : k.val < cols.length
  · exact ⟨hk, hc.unique (h.isLeadingEntry hk)⟩
  · exact absurd (h.beyond k (not_lt.mp hk) c) hc.2

/-- With its leading columns from left to right, the matrix is in reduced row-echelon form. -/
theorem isReducedRowEchelon (h : R.ReducedTo cols) (hsorted : cols.Pairwise (· < ·)) :
    R.toMatrix.IsReducedRowEchelon := by
  constructor
  case isRowEchelon =>
    intro i k hik c hzero
    by_cases hk : k.val < cols.length
    · have hi : i.val < cols.length := lt_trans hik hk
      have hcols : cols[i] < cols[k] := List.pairwise_iff_getElem.mp hsorted _ _ hi hk hik
      rcases le_or_gt c cols[i].castSucc with hle | hlt
      · exact (h.isLeadingEntry hk).1 c (hle.trans_lt hcols)
      · exact absurd (hzero _ hlt) (h.isLeadingEntry hi).2
    · exact h.beyond k (not_lt.mp hk) c
  case eq_one =>
    intro k c hc
    obtain ⟨hk, rfl⟩ := h.eq_of_isLeadingEntry hc
    exact (congrFun (h.unit k hk) k).trans (Pi.single_eq_same k 1)
  case eq_zero =>
    intro i k c hik hc
    obtain ⟨hk, rfl⟩ := h.eq_of_isLeadingEntry hc
    exact (congrFun (h.unit k hk) i).trans (Pi.single_eq_of_ne hik.ne 1)

end DenseMatrix.ReducedTo

namespace Reduction

variable {s : Reduction ℚ n m}

/-- The pivot rows, put into the order of their pivots, come first and are followed by zeros. -/
theorem Settled.reducedTo_reorder (hs : s.Settled 0 m) (hsol : ∃ z, Satisfies s.entries z)
    {τ : Equiv.Perm (Fin n)}
    (hτ : ∀ (k : Fin n) (hk : k.val < s.pivots.length), τ k = s.pivots[k].row) :
    (s.entries.reorder τ).ReducedTo (s.pivots.map (·.col)) := by
  constructor
  case left =>
    intro k hk j hj
    rw [List.length_map] at hk
    rw [Fin.getElem_fin, List.getElem_map] at hj
    rw [reorder_apply, hτ k hk]
    exact abs_nonpos_iff.mp (hs.left _ (List.getElem_mem hk) j hj)
  case unit =>
    intro k hk
    rw [List.length_map] at hk
    funext i
    have hunit := hs.unit _ (List.getElem_mem hk) (τ i)
    rw [← Fin.getElem_fin, ← hτ k hk] at hunit
    simpa [Pi.single_apply] using hunit
  case beyond =>
    intro k hk j
    rw [List.length_map] at hk
    rw [reorder_apply]
    apply hs.unused_row hsol
    refine used_eq_false_iff.mpr fun p hp hrow => ?_
    obtain ⟨l, hl, rfl⟩ := List.getElem_of_mem hp
    have hln : l < n := hl.trans_le hs.ordered.length_le
    have hlk := τ.injective ((hτ ⟨l, hln⟩ hl).trans hrow)
    have hval : l = k.val := congrArg Fin.val hlk
    omega

/-- A unit column belongs to one row only, so where row `k` is led by the one of pivot `k`, that
pivot was found there. -/
theorem Settled.row_eq_of_reducedTo (hs : s.Settled 0 m)
    (hform : s.entries.ReducedTo (s.pivots.map (·.col))) {k : Fin n}
    (hk : k.val < s.pivots.length) : s.pivots[k].row = k := by
  have hunit := hform.unit k (by rwa [List.length_map])
  rw [Fin.getElem_fin, List.getElem_map, hs.column_pivot (List.getElem_mem hk)] at hunit
  by_contra hne
  rw [Fin.getElem_fin] at hne
  have hone := congrFun hunit k
  rw [Pi.single_eq_same, Pi.single_eq_of_ne (Ne.symm hne)] at hone
  exact zero_ne_one hone

theorem Settled.reducedTo_iff (hs : s.Settled 0 m) (hsol : ∃ z, Satisfies s.entries z) :
    s.entries.ReducedTo (s.pivots.map (·.col)) ↔
      ∀ (k : Fin n) (hk : k.val < s.pivots.length), s.pivots[k].row = k := by
  constructor
  · exact fun hform k hk => hs.row_eq_of_reducedTo hform hk
  · intro hrows
    have hform := hs.reducedTo_reorder hsol (τ := 1) fun k hk => (hrows k hk).symm
    rwa [reorder_one] at hform

end Reduction

variable {pivoting : PivotRule} {zeroRows : ZeroRowRule} {A : DenseMatrix ℚ n m} {b : Vector ℚ n}
  {s : Solution ℚ n m}

/-- Once its rows are put into the order of their pivots, a reduced matrix is in reduced row-echelon
form with its leading ones in the pivot columns. As returned it has that form exactly when the
pivots were found from the first row down. -/
theorem solve_reduced_up_to_row_order
    (h : solve (Settings.exact pivoting zeroRows) A b.toList = .ok s) :
    s.rank = s.pivotColumns.length ∧
      (∃ τ : Equiv.Perm (Fin n), (s.reduced.reorder τ).ReducedTo s.pivotColumns ∧
        (s.reduced.reorder τ).toMatrix.IsReducedRowEchelon) ∧
      (s.reduced.ReducedTo s.pivotColumns ↔
        ∀ (k : Fin n) (hk : k.val < s.pivots.length), s.pivots[k].row = k) := by
  obtain ⟨-, hrank, rfl⟩ := solveAt_eq_ok_iff.mp (solveAt_of_solve_exact h)
  obtain ⟨z, hz⟩ := solvable_iff_ranksAt.mpr hrank
  have hs : (reduce pivoting 0 (A.augment b)).Settled 0 m := reduce_settled le_rfl _
  have hsol : ∃ z, Satisfies (reduce pivoting 0 (A.augment b)).entries z :=
    ⟨z, (satisfies_reduced z).mpr hz⟩
  refine ⟨rank_solutionAt_eq_length pivoting A b, ?_, hs.reducedTo_iff hsol⟩
  obtain ⟨τ, hτ⟩ := exists_perm_of_injective
    (Fin.castLE_injective hs.ordered.length_le) hs.row_injective
  have hform := hs.reducedTo_reorder hsol fun k hk => hτ ⟨k.val, hk⟩
  exact ⟨τ, hform, hform.isReducedRowEchelon hs.ordered.sorted_columns⟩

/-- The pivots are found in the last row and then in the second one, the first row being a
combination of the others. -/
theorem solve_reduced_up_to_row_order_last_first :
    let A : DenseMatrix ℚ 3 3 := ⟨#v[#v[0, 1, 2], #v[0, 2, 4], #v[2, 4, 6]]⟩
    let b : Vector ℚ 3 := #v[1, 2, 8]
    ∃ s, solve (Settings.exact .largestMagnitude .symmetric) A b.toList = .ok s ∧
      s.pivots = [⟨2, 0⟩, ⟨1, 1⟩] ∧ s.rank = s.pivotColumns.length ∧
      (∃ τ : Equiv.Perm (Fin 3), (s.reduced.reorder τ).ReducedTo s.pivotColumns ∧
        (s.reduced.reorder τ).toMatrix.IsReducedRowEchelon) ∧
      (s.reduced.ReducedTo s.pivotColumns ↔
        ∀ (k : Fin 3) (hk : k.val < s.pivots.length), s.pivots[k].row = k) := by
  intro A b
  have hrow : badZeroRow? .symmetric 0 A b = none := by decide +kernel
  have hrank : ¬rank 0 A < rank 0 (A.augment b) := by decide +kernel
  have hvalid : validate A b.toList = .ok b := validate_rational (by decide) (by decide) A b
  have hsolve := solve_of_rank_not_lt (toleranceFor_exact .largestMagnitude .symmetric) hvalid hrow
    hrank
  exact ⟨_, hsolve, by decide +kernel, solve_reduced_up_to_row_order hsolve⟩

/-- Two equations for two unknowns, each without one of them: the ones lead the rows from right to
left. -/
theorem solve_reduced_out_of_order :
    let A : DenseMatrix ℚ 2 2 := ⟨#v[#v[0, 1], #v[1, 0]]⟩
    let b : Vector ℚ 2 := #v[2, 3]
    ∃ s, solve (Settings.exact .firstNonZero .positiveRhs) A b.toList = .ok s ∧
      s.pivots = [⟨1, 0⟩, ⟨0, 1⟩] ∧ s.reduced = ⟨#v[#v[0, 1, 2], #v[1, 0, 3]]⟩ ∧
      ¬s.reduced.ReducedTo s.pivotColumns ∧ ¬s.reduced.toMatrix.IsReducedRowEchelon := by
  intro A b
  have hrow : badZeroRow? .positiveRhs 0 A b = none := by decide +kernel
  have hrank : ¬rank 0 A < rank 0 (A.augment b) := by decide +kernel
  have hvalid : validate A b.toList = .ok b := validate_rational (by decide) (by decide) A b
  have hsolve : solve (Settings.exact .firstNonZero .positiveRhs) A b.toList =
      .ok (solutionAt .firstNonZero 0 A b) :=
    solve_of_rank_not_lt (toleranceFor_exact .firstNonZero .positiveRhs) hvalid hrow hrank
  have hcols : (solutionAt .firstNonZero 0 A b).pivotColumns = [0, 1] := by decide +kernel
  have hreduced : (solutionAt .firstNonZero 0 A b).reduced = ⟨#v[#v[0, 1, 2], #v[1, 0, 3]]⟩ :=
    DenseMatrix.ext (by decide +kernel)
  refine ⟨_, hsolve, by decide +kernel, hreduced, fun hform => ?_, fun hechelon => ?_⟩
  · rw [hcols, hreduced] at hform
    have hone := congrFun (hform.unit 0 (by decide)) 0
    exact absurd hone (by decide +kernel)
  · rw [hreduced] at hechelon
    have hzero : (⟨#v[#v[0, 1, 2], #v[1, 0, 3]]⟩ : DenseMatrix ℚ 2 3).toMatrix 1 0 = 0 :=
      hechelon.isRowEchelon Fin.zero_lt_one fun j hj => absurd hj (Fin.not_lt_zero j)
    exact absurd hzero (by decide +kernel)

end LinearSystem
