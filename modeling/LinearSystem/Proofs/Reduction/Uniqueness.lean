import LinearSystem.Proofs.Reduction.Span
import Mathlib.Data.List.Sort
import Mathlib.Logic.Equiv.Fintype

namespace LinearSystem

theorem exists_perm_of_injective {ι : Type} {n : ℕ} {f g : ι → Fin n} (hf : Function.Injective f)
    (hg : Function.Injective g) : ∃ τ : Equiv.Perm (Fin n), ∀ k, τ (f k) = g k := by
  classical
  let e : Set.range f ≃ Set.range g :=
    (Equiv.ofInjective f hf).symm.trans (Equiv.ofInjective g hg)
  refine ⟨Equiv.extendSubtype e, fun k => ?_⟩
  rw [Equiv.extendSubtype_apply_of_mem e _ ⟨k, rfl⟩]
  simp [e]

namespace Reduction

variable {n m : ℕ} {s s' : Reduction ℚ n m}

theorem Settled.unused_row (hs : s.Settled 0 m) (hsol : ∃ z, Satisfies s.entries z) {i : Fin n}
    (hi : s.used i = false) (j : Fin (m + 1)) : s.entries i j = 0 := by
  induction j using Fin.lastCases with
  | last =>
    obtain ⟨z, hz⟩ := hsol
    rw [← hz i, hs.sum_unused_row hi]
  | cast j => exact abs_nonpos_iff.mp (hs.unused i hi j j.isLt)

theorem Settled.pivot_row_of_not_free (hs : s.Settled 0 m) {p : Pivot n m} (hp : p ∈ s.pivots)
    {j : Fin m} (hj : ¬s.Free j) : s.entries p.row j.castSucc = if j = p.col then 1 else 0 := by
  obtain ⟨q, hq, rfl⟩ := not_free_iff.mp hj
  split_ifs with hcol
  · rw [hcol, hs.unit p hp, if_pos rfl]
  · exact hs.pivot_row_apply hp hq hcol

/-- A pivot row is determined by the solutions it leaves: the right-hand side by the one with free
unknowns zero, a coefficient by the one that sets its unknown to one. -/
theorem Settled.pivot_row_eq (hs : s.Settled 0 m) (hs' : s'.Settled 0 m)
    (hfree : ∀ j, s.Free j ↔ s'.Free j) (hcompletion : ∀ v, s.completion v = s'.completion v)
    {p p' : Pivot n m} (hp : p ∈ s.pivots) (hp' : p' ∈ s'.pivots) (hcol : p.col = p'.col)
    (j : Fin (m + 1)) : s.entries p.row j = s'.entries p'.row j := by
  have hvalue : ∀ v : Fin m → ℚ,
      s.entries p.row (Fin.last m) - ∑ k with s.Free k, s.entries p.row k.castSucc * v k =
        s'.entries p'.row (Fin.last m) -
          ∑ k with s'.Free k, s'.entries p'.row k.castSucc * v k := by
    intro v
    rw [← hs.completion_pivot hp, ← hs'.completion_pivot hp', hcompletion, hcol]
  have hlast : s.entries p.row (Fin.last m) = s'.entries p'.row (Fin.last m) := by
    simpa using hvalue 0
  induction j using Fin.lastCases with
  | last => exact hlast
  | cast j =>
    by_cases hj : s.Free j
    · have hone := hvalue (Pi.single j 1)
      simpa [hlast, Pi.single_apply, hj, (hfree j).mp hj] using hone
    · rw [hs.pivot_row_of_not_free hp hj, hs'.pivot_row_of_not_free hp' (mt (hfree j).mpr hj), hcol]

theorem Settled.columns_eq (hs : s.Settled 0 m) (hs' : s'.Settled 0 m)
    (hfree : ∀ j, s.Free j ↔ s'.Free j) : s.pivots.map (·.col) = s'.pivots.map (·.col) := by
  refine hs.ordered.sorted_columns.eq_of_mem_iff hs'.ordered.sorted_columns ?_
  intro j
  rw [List.mem_map, List.mem_map, ← not_free_iff, ← not_free_iff, hfree]

/-- Two reductions that leave the same solutions over the same free unknowns have the same rows. -/
theorem Settled.exists_perm_rows (hs : s.Settled 0 m) (hs' : s'.Settled 0 m)
    (hsol : ∃ z, Satisfies s.entries z) (hsol' : ∃ z, Satisfies s'.entries z)
    (hfree : ∀ j, s.Free j ↔ s'.Free j) (hcompletion : ∀ v, s.completion v = s'.completion v) :
    ∃ τ : Equiv.Perm (Fin n), ∀ i j, s'.entries i j = s.entries (τ i) j := by
  have hcols := hs.columns_eq hs' hfree
  have hlen : s'.pivots.length = s.pivots.length := by
    simpa only [List.length_map] using (congrArg List.length hcols).symm
  obtain ⟨τ, hτ⟩ := exists_perm_of_injective hs'.row_injective
    (hs.row_injective.comp (Fin.cast_injective hlen))
  have hcol : ∀ k, (s.pivots.get (Fin.cast hlen k)).col = (s'.pivots.get k).col := by
    intro k
    have hk := List.getElem_of_eq hcols (i := k.val) (by rw [List.length_map]; omega)
    simp only [List.getElem_map] at hk
    exact hk
  refine ⟨τ, fun i j => ?_⟩
  by_cases hi : s'.used i = false
  · have hτi : s.used (τ i) = false := by
      refine used_eq_false_iff.mpr fun p hp hrow => ?_
      obtain ⟨k, rfl⟩ := List.get_of_mem hp
      have hk : τ (s'.pivots.get (Fin.cast hlen.symm k)).row = τ i := (hτ _).trans hrow
      exact used_eq_false_iff.mp hi _ (List.get_mem _ _) (τ.injective hk)
    rw [hs'.unused_row hsol' hi, hs.unused_row hsol hτi]
  · obtain ⟨p, hp, rfl⟩ := exists_pivot_of_used hi
    obtain ⟨k, rfl⟩ := List.get_of_mem hp
    rw [hτ k]
    exact (hs.pivot_row_eq hs' hfree hcompletion (List.get_mem _ _) hp (hcol k) j).symm

end Reduction

end LinearSystem
