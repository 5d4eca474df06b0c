import LinearSystem.Proofs.Reduction.Solutions
import Mathlib.LinearAlgebra.StdBasis

namespace LinearSystem

/-- An injective map neither adds nor removes dependencies between vectors. -/
theorem mem_span_image_iff {n : ℕ} {ι : Type} {T : (Fin n → ℚ) →ₗ[ℚ] (Fin n → ℚ)}
    (hT : Function.Injective T) {f g : ι → Fin n → ℚ} (h : ∀ j, g j = T (f j)) (j : ι) (K : Set ι) :
    g j ∈ Submodule.span ℚ (g '' K) ↔ f j ∈ Submodule.span ℚ (f '' K) := by
  have himage : g '' K = T '' (f '' K) := by
    rw [Set.image_image]
    exact Set.image_congr fun k _ => h k
  rw [himage, ← Submodule.map_span, h j, Submodule.mem_map]
  constructor
  · intro hmem
    obtain ⟨v, hv, heq⟩ := hmem
    rwa [← hT heq]
  · exact fun hmem => ⟨f j, hmem, rfl⟩

variable {n m : ℕ}

namespace Reduction

variable {tol : ℚ} {c : ℕ} {s : Reduction ℚ n m}

theorem Settled.column_pivot (hs : s.Settled tol c) {p : Pivot n m} (hp : p ∈ s.pivots) :
    s.entries.column p.col.castSucc = Pi.single p.row 1 := by
  funext i
  rw [DenseMatrix.column_apply, hs.unit p hp, Pi.single_apply]

theorem Settled.row_injective (hs : s.Settled tol c) :
    Function.Injective fun k : Fin s.pivots.length => (s.pivots.get k).row := by
  intro k l hkl
  have hget := hs.eq_of_row_eq (List.get_mem s.pivots k) (List.get_mem s.pivots l) hkl
  exact List.nodup_iff_injective_get.mp (hs.rows_nodup.of_map _) hget

/-- Different pivots have different unit columns, so their columns were independent before. -/
theorem Settled.linearIndependent_pivots (hs : s.Settled tol c) {A : DenseMatrix ℚ n (m + 1)}
    (h : A.CarriesColumns s.entries s.pivotSet) :
    LinearIndependent ℚ fun k : Fin s.pivots.length => A.column (s.pivots.get k).col.castSucc := by
  obtain ⟨T, -, hcol⟩ := h
  apply LinearIndependent.of_comp T
  have hunit : (T ∘ fun k : Fin s.pivots.length => A.column (s.pivots.get k).col.castSucc) =
      fun k => Pi.basisFun ℚ (Fin n) (s.pivots.get k).row := by
    funext k
    have hk := List.get_mem s.pivots k
    rw [Function.comp_apply, ← hcol _ ⟨_, hk, rfl⟩, hs.column_pivot hk, Pi.basisFun_apply]
  rw [hunit]
  exact (Pi.basisFun ℚ (Fin n)).linearIndependent.comp _ hs.row_injective

theorem Settled.mem_span_pivots (hs : s.Settled tol c) {K : Set (Fin m)} {v : Fin n → ℚ}
    (hv : ∀ i, v i ≠ 0 → ∃ p ∈ s.pivots, p.row = i ∧ p.col ∈ K) :
    v ∈ Submodule.span ℚ ((fun j : Fin m => s.entries.column j.castSucc) '' K) := by
  rw [pi_eq_sum_univ' v]
  apply Submodule.sum_mem
  intro i _
  by_cases hi : v i = 0
  · rw [hi, zero_smul]
    exact Submodule.zero_mem _
  · obtain ⟨p, hp, rfl, hK⟩ := hv i hi
    apply Submodule.smul_mem
    rw [← hs.column_pivot hp]
    exact Submodule.subset_span ⟨p.col, hK, rfl⟩

/-- A nonzero entry is in a pivot row and not left of its pivot, so a column is a combination of the
pivot columns up to it. -/
theorem Settled.column_mem_span (hs : s.Settled 0 m) (j : Fin m) :
    s.entries.column j.castSucc ∈ Submodule.span ℚ
      ((fun k : Fin m => s.entries.column k.castSucc) '' {k | ¬s.Free k ∧ k ≤ j}) := by
  apply hs.mem_span_pivots
  intro i hi
  by_cases hunused : s.used i = false
  · exact absurd (abs_nonpos_iff.mp (hs.unused i hunused j j.isLt)) hi
  · obtain ⟨p, hp, rfl⟩ := exists_pivot_of_used hunused
    refine ⟨p, hp, rfl, not_free_iff.mpr ⟨p, hp, rfl⟩, ?_⟩
    by_contra hlt
    exact hi (abs_nonpos_iff.mp (hs.left p hp j (not_le.mp hlt)))

/-- A pivot row is zero in all columns before the pivot, and so in all combinations of them. -/
theorem Settled.pivot_not_mem_span (hs : s.Settled 0 m) {p : Pivot n m} (hp : p ∈ s.pivots) :
    s.entries.column p.col.castSucc ∉ Submodule.span ℚ
      ((fun k : Fin m => s.entries.column k.castSucc) '' {k | k < p.col}) := by
  intro hmem
  have hle : Submodule.span ℚ ((fun k : Fin m => s.entries.column k.castSucc) '' {k | k < p.col}) ≤
      LinearMap.ker (LinearMap.proj p.row : (Fin n → ℚ) →ₗ[ℚ] ℚ) := by
    apply Submodule.span_le.mpr
    rintro v ⟨k, hk, rfl⟩
    exact abs_nonpos_iff.mp (hs.left p hp k hk)
  have hzero : s.entries.column p.col.castSucc p.row = 0 := hle hmem
  rw [hs.column_pivot hp, Pi.single_eq_same] at hzero
  exact one_ne_zero hzero

end Reduction

theorem exists_injective_reduce_zero (rule : PivotRule) (A : DenseMatrix ℚ n m) (b : Vector ℚ n) :
    ∃ T : (Fin n → ℚ) →ₗ[ℚ] (Fin n → ℚ), Function.Injective T ∧ ∀ j : Fin m,
      (reduce rule 0 (A.augment b)).entries.column j.castSucc = T (A.column j) := by
  obtain ⟨T, hT, hcol⟩ := reduce_carries_zero rule (A.augment b)
  refine ⟨T, hT, fun j => ?_⟩
  rw [hcol _ (Set.mem_univ _), column_augment_castSucc]

/-- An exact reduction leaves no column out: each depends on the pivot columns up to it. -/
theorem column_mem_span_pivots (rule : PivotRule) (A : DenseMatrix ℚ n m) (b : Vector ℚ n)
    (j : Fin m) : A.column j ∈ Submodule.span ℚ
      (A.column '' {k | ¬(reduce rule 0 (A.augment b)).Free k ∧ k ≤ j}) := by
  obtain ⟨T, hT, hcol⟩ := exists_injective_reduce_zero rule A b
  rw [← mem_span_image_iff hT hcol]
  exact (reduce_settled le_rfl (A.augment b)).column_mem_span j

/-- Column `c` is not a combination of the columns before it. -/
def DenseMatrix.IsLeading (A : DenseMatrix ℚ n m) (c : Fin m) : Prop :=
  A.column c ∉ Submodule.span ℚ (A.column '' {k | k < c})

/-- An exact reduction takes its pivots in the leading columns, whatever rows it chooses. -/
theorem not_free_reduce_iff {rule : PivotRule} {A : DenseMatrix ℚ n m} {b : Vector ℚ n}
    {c : Fin m} : ¬(reduce rule 0 (A.augment b)).Free c ↔ A.IsLeading c := by
  constructor
  · intro hfree
    obtain ⟨p, hp, rfl⟩ := Reduction.not_free_iff.mp hfree
    obtain ⟨T, hT, hcol⟩ := exists_injective_reduce_zero rule A b
    rw [DenseMatrix.IsLeading, ← mem_span_image_iff hT hcol]
    exact (reduce_settled le_rfl (A.augment b)).pivot_not_mem_span hp
  · intro hleading hfree
    apply hleading
    refine Submodule.span_mono (Set.image_mono ?_) (column_mem_span_pivots rule A b c)
    intro k hk
    obtain ⟨hpivot, hle⟩ := hk
    exact lt_of_le_of_ne hle fun hkc => hpivot (hkc ▸ hfree)

end LinearSystem
