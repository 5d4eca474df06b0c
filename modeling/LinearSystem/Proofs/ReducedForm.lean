import LinearSystem.Proofs.Reduction.Span

namespace LinearSystem

variable {n m : ℕ}

/-- Whatever counts as zero, reduction ends with unit columns at its pivots. A pivot row has
nothing but negligible coefficients to the left of its pivot, and a row without a pivot has no
others at all. -/
theorem reduce_leaves_unit_columns (rule : PivotRule) {tol : ℚ} (htol : 0 ≤ tol)
    (A : DenseMatrix ℚ n (m + 1)) :
    let s := reduce rule tol A
    (s.pivots.map (·.col)).Pairwise (· < ·) ∧ (s.pivots.map (·.row)).Nodup ∧
      (∀ p ∈ s.pivots, s.entries.column p.col.castSucc = Pi.single p.row 1 ∧
        ∀ j : Fin m, j < p.col → |s.entries p.row j.castSucc| ≤ tol) ∧
      ∀ i, (∀ p ∈ s.pivots, p.row ≠ i) → ∀ j : Fin m, |s.entries i j.castSucc| ≤ tol := by
  intro s
  have hs : s.Settled tol m := reduce_settled htol A
  refine ⟨hs.ordered.sorted_columns, hs.rows_nodup, fun p hp => ?_, fun i hi j => ?_⟩
  · exact ⟨hs.column_pivot hp, hs.left p hp⟩
  · exact hs.unused i (Reduction.used_eq_false_iff.mpr hi) j j.isLt

/-- The first column is all negligible and stays as it is; the pivots are found in the second row
and then in the first one. -/
theorem reduce_leaves_unit_columns_out_of_order :
    let A : DenseMatrix ℚ 3 4 :=
      ⟨#v[#v[1 / 4, 1, 3, 1], #v[1 / 2, 4, 2, 0], #v[-1 / 4, 2, 1, 5]]⟩
    let s := reduce .largestMagnitude (1 / 2) A
    s.pivots = [⟨1, 1⟩, ⟨0, 2⟩] ∧ s.entries.column 1 = Pi.single 1 1 ∧
      s.entries.column 2 = Pi.single 0 1 ∧ |s.entries 0 0| ≤ 1 / 2 ∧
      ∀ j : Fin 3, |s.entries 2 j.castSucc| ≤ 1 / 2 := by
  intro A s
  have hpivots : s.pivots = [⟨1, 1⟩, ⟨0, 2⟩] := by decide +kernel
  obtain ⟨-, -, hpivot, hrest⟩ :=
    reduce_leaves_unit_columns .largestMagnitude (show (0 : ℚ) ≤ 1 / 2 by norm_num) A
  have hfirst : (⟨1, 1⟩ : Pivot 3 3) ∈ s.pivots := by simp [hpivots]
  have hsecond : (⟨0, 2⟩ : Pivot 3 3) ∈ s.pivots := by simp [hpivots]
  refine ⟨hpivots, (hpivot _ hfirst).1, (hpivot _ hsecond).1, (hpivot _ hsecond).2 0 (by decide),
    hrest 2 ?_⟩
  rw [show (reduce .largestMagnitude (1 / 2) A).pivots = [⟨1, 1⟩, ⟨0, 2⟩] from hpivots]
  decide

end LinearSystem
