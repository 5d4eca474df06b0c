import LinearSystem.Proofs.Reduction.Columns

namespace LinearSystem

open Scalar

variable {n m : ℕ}

namespace Reduction

variable {s : Reduction ℚ n m}

/-- No pivot was taken in this column. -/
def Free (s : Reduction ℚ n m) (j : Fin m) : Prop := ∀ p ∈ s.pivots, p.col ≠ j

instance (s : Reduction ℚ n m) : DecidablePred s.Free := fun _ =>
  inferInstanceAs (Decidable (∀ p ∈ s.pivots, _))

theorem not_free_iff {j : Fin m} : ¬s.Free j ↔ ∃ p ∈ s.pivots, p.col = j := by
  simp [Free]

theorem Settled.eq_of_row_eq {tol : ℚ} {c : ℕ} (hs : s.Settled tol c) {p q : Pivot n m}
    (hp : p ∈ s.pivots) (hq : q ∈ s.pivots) (h : p.row = q.row) : p = q :=
  List.inj_on_of_nodup_map hs.rows_nodup hp hq h

theorem Settled.eq_of_col_eq {tol : ℚ} {c : ℕ} (hs : s.Settled tol c) {p q : Pivot n m}
    (hp : p ∈ s.pivots) (hq : q ∈ s.pivots) (h : p.col = q.col) : p = q := by
  apply hs.eq_of_row_eq hp hq
  have hunit := hs.unit p hp q.row
  rw [h, hs.unit q hq, if_pos rfl] at hunit
  by_contra hne
  rw [if_neg (Ne.symm hne)] at hunit
  exact one_ne_zero hunit

theorem Settled.pivot_row_apply {tol : ℚ} {c : ℕ} (hs : s.Settled tol c) {p q : Pivot n m}
    (hp : p ∈ s.pivots) (hq : q ∈ s.pivots) (h : q.col ≠ p.col) :
    s.entries p.row q.col.castSucc = 0 := by
  have hrow : p.row ≠ q.row := by
    intro hf
    rw [hs.eq_of_row_eq hp hq hf] at h
    exact h rfl
  rw [hs.unit q hq, if_neg hrow]

/-- A pivot row says how its unknown depends on the free ones. -/
theorem Settled.sum_pivot_row {tol : ℚ} {c : ℕ} (hs : s.Settled tol c) {p : Pivot n m}
    (hp : p ∈ s.pivots) (y : Fin m → ℚ) :
    ∑ j : Fin m, s.entries p.row j.castSucc * y j =
      y p.col + ∑ j with s.Free j, s.entries p.row j.castSucc * y j := by
  have hpivot : ∑ j with ¬s.Free j, s.entries p.row j.castSucc * y j = y p.col := by
    rw [Finset.sum_eq_single p.col]
    · rw [hs.unit p hp, if_pos rfl, one_mul]
    · intro j hj hne
      obtain ⟨q, hq, rfl⟩ := not_free_iff.mp (Finset.mem_filter.mp hj).2
      rw [hs.pivot_row_apply hp hq hne, zero_mul]
    · intro hnot
      exact absurd (Finset.mem_filter.mpr ⟨Finset.mem_univ _, fun hf => hf p hp rfl⟩) hnot
  rw [← Finset.sum_filter_add_sum_filter_not Finset.univ s.Free, hpivot, add_comm]

theorem Settled.sum_unused_row (hs : s.Settled 0 m) {i : Fin n} (hi : s.used i = false)
    (y : Fin m → ℚ) : ∑ j : Fin m, s.entries i j.castSucc * y j = 0 := by
  apply Finset.sum_eq_zero
  intro j _
  rw [abs_nonpos_iff.mp (hs.unused i hi j j.isLt), zero_mul]

/-- In a system that has solutions at all, only the pivot rows constrain them. -/
theorem Settled.satisfies_iff (hs : s.Settled 0 m) (hsol : ∃ z, Satisfies s.entries z)
    {y : Fin m → ℚ} :
    Satisfies s.entries y ↔ ∀ p ∈ s.pivots,
      y p.col + ∑ j with s.Free j, s.entries p.row j.castSucc * y j =
        s.entries p.row (Fin.last m) := by
  constructor
  · intro hy p hp
    rw [← hs.sum_pivot_row hp]
    exact hy p.row
  · intro hy i
    by_cases hi : s.used i = false
    · obtain ⟨z, hz⟩ := hsol
      rw [hs.sum_unused_row hi, ← hz i, hs.sum_unused_row hi]
    · obtain ⟨p, hp, rfl⟩ := exists_pivot_of_used hi
      rw [hs.sum_pivot_row hp]
      exact hy p hp

/-- The free unknowns take their values from `v`, the others from their pivot rows. -/
def completion (s : Reduction ℚ n m) (v : Fin m → ℚ) (j : Fin m) : ℚ :=
  match s.pivots.find? (·.col = j) with
  | some p => s.entries p.row (Fin.last m) - ∑ k with s.Free k, s.entries p.row k.castSucc * v k
  | none => v j

theorem completion_of_free {v : Fin m → ℚ} {j : Fin m} (hj : s.Free j) :
    s.completion v j = v j := by
  have hnone : s.pivots.find? (·.col = j) = none := by
    simpa [Free] using hj
  simp only [completion, hnone]

theorem Settled.completion_pivot {tol : ℚ} {c : ℕ} (hs : s.Settled tol c) {p : Pivot n m}
    (hp : p ∈ s.pivots) (v : Fin m → ℚ) :
    s.completion v p.col = s.entries p.row (Fin.last m) -
      ∑ k with s.Free k, s.entries p.row k.castSucc * v k := by
  obtain ⟨q, hfind⟩ := Option.isSome_iff_exists.mp
    (List.find?_isSome.mpr ⟨p, hp, decide_eq_true rfl⟩ :
      (s.pivots.find? (·.col = p.col)).isSome = true)
  have hcol := List.find?_some hfind
  rw [decide_eq_true_eq] at hcol
  obtain rfl : q = p := hs.eq_of_col_eq (List.mem_of_find?_eq_some hfind) hp hcol
  simp only [completion, hfind]

/-- There is one solution for each choice of the free unknowns. -/
theorem Settled.satisfies_iff_eq_completion (hs : s.Settled 0 m)
    (hsol : ∃ z, Satisfies s.entries z) {v y : Fin m → ℚ} (hv : ∀ j, s.Free j → y j = v j) :
    Satisfies s.entries y ↔ y = s.completion v := by
  have hsum : ∀ i, ∑ k with s.Free k, s.entries i k.castSucc * y k =
      ∑ k with s.Free k, s.entries i k.castSucc * v k := fun i =>
    Finset.sum_congr rfl fun k hk => by rw [hv k (Finset.mem_filter.mp hk).2]
  rw [hs.satisfies_iff hsol]
  constructor
  · intro hy
    funext j
    by_cases hj : s.Free j
    · rw [completion_of_free hj, hv j hj]
    · obtain ⟨p, hp, rfl⟩ := not_free_iff.mp hj
      rw [hs.completion_pivot hp, ← hsum, ← hy p hp, add_sub_cancel_right]
  · intro hy p hp
    rw [hsum, hy, hs.completion_pivot hp, sub_add_cancel]

end Reduction

end LinearSystem
