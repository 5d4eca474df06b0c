import LinearSystem.Proofs.Rational
import LinearSystem.Proofs.Reduction.Bookkeeping
import Mathlib.Algebra.Field.Basic
import Mathlib.Order.Fin.Basic

namespace LinearSystem

open Scalar

variable {n m : ℕ}

theorem clearColumn_apply (A : DenseMatrix ℚ n m) (p i : Fin n) (c j : Fin m) :
    clearColumn A p c i j =
      if i = p then if c ≤ j then A p j / A p c else A p j
      else if c ≤ j then A i j - A i c * (A p j / A p c) else A i j := by
  rw [clearColumn_entry]
  split_ifs with hp hc hz hc
  · rfl
  · rfl
  · rw [Rational.isZero_iff.mp hz, zero_mul, sub_zero]
  · rfl
  · rfl
  · rfl

theorem clearColumn_pivot {A : DenseMatrix ℚ n m} {p : Fin n} {c : Fin m} (h : A p c ≠ 0)
    (i : Fin n) : clearColumn A p c i c = if i = p then 1 else 0 := by
  rw [clearColumn_apply, if_pos le_rfl, if_pos le_rfl, div_self h, mul_one, sub_self]

/-- A pivot row was free to be used, and it can be divided by its entry. -/
theorem selectPivot_spec {rule : PivotRule} {tol : ℚ} (htol : 0 ≤ tol) {A : DenseMatrix ℚ n m}
    {used : Fin n → Bool} {c : Fin m} {p : Fin n} (h : selectPivot rule tol A used c = some p) :
    used p = false ∧ A p c ≠ 0 := by
  obtain ⟨hunused, hsig⟩ := mem_candidates.mp (selectPivot_mem h)
  exact ⟨hunused, Rational.ne_zero_of_significant htol hsig⟩

namespace Reduction

/-- What the columns before `c` look like once they were reduced: each pivot column is a unit
column, and everything else that a later step could have used is negligible. -/
structure Settled (tol : ℚ) (c : ℕ) (s : Reduction ℚ n m) : Prop where
  col_lt : ∀ p ∈ s.pivots, p.col.val < c
  sorted : s.pivots.Pairwise fun p q => p.col < q.col
  rows_nodup : (s.pivots.map (·.row)).Nodup
  unit : ∀ p ∈ s.pivots, ∀ i, s.entries i p.col.castSucc = if i = p.row then 1 else 0
  left : ∀ p ∈ s.pivots, ∀ j : Fin m, j < p.col → |s.entries p.row j.castSucc| ≤ tol
  unused : ∀ i, s.used i = false → ∀ j : Fin m, j.val < c → |s.entries i j.castSucc| ≤ tol

variable {rule : PivotRule} {tol : ℚ} {s : Reduction ℚ n m}

theorem start_settled (A : DenseMatrix ℚ n (m + 1)) : (start A).Settled tol 0 where
  col_lt := by simp [start]
  sorted := .nil
  rows_nodup := .nil
  unit := by simp [start]
  left := by simp [start]
  unused := fun _ _ _ hj => absurd hj (Nat.not_lt_zero _)

theorem Settled.ordered {c : ℕ} (hs : s.Settled tol c) : s.Ordered c :=
  ⟨hs.col_lt, hs.sorted, hs.rows_nodup⟩

theorem Settled.step_of_none {c : Fin m} (hs : s.Settled tol c)
    (h : selectPivot rule tol s.entries s.used c.castSucc = none) :
    (s.step rule tol c).Settled tol (c + 1) := by
  rw [Reduction.step_of_none h]
  refine ⟨fun p hp => Nat.lt_succ_of_lt (hs.col_lt p hp), hs.sorted, hs.rows_nodup, hs.unit,
    hs.left, ?_⟩
  intro i hi j hj
  cases Nat.lt_succ_iff_lt_or_eq.mp hj with
  | inl hlt => exact hs.unused i hi j hlt
  | inr heq =>
    obtain rfl : j = c := Fin.ext heq
    exact Rational.negligible_iff.mp (negligible_of_selectPivot_eq_none h hi)

theorem Settled.step_of_some (htol : 0 ≤ tol) {c : Fin m} (hs : s.Settled tol c) {p : Fin n}
    (h : selectPivot rule tol s.entries s.used c.castSucc = some p) :
    (s.step rule tol c).Settled tol (c + 1) := by
  obtain ⟨hunused, hpivot⟩ := selectPivot_spec htol h
  have hleft : ∀ i (j : Fin m), j.val < c.val →
      clearColumn s.entries p c.castSucc i j.castSucc = s.entries i j.castSucc :=
    fun i j hj => clearColumn_left _ p i hj
  have hordered : (s.step rule tol c).Ordered (c + 1) := hs.ordered.step
  rw [Reduction.step_of_some h] at hordered ⊢
  refine ⟨hordered.col_lt, hordered.sorted, hordered.rows_nodup, ?unit, ?left, ?unused⟩
  case unit =>
    refine List.forall_mem_append.mpr ⟨fun q hq i => ?_, List.forall_mem_singleton.mpr ?_⟩
    · rw [hleft i q.col (hs.col_lt q hq), hs.unit q hq]
    · exact fun i => clearColumn_pivot hpivot i
  case left =>
    refine List.forall_mem_append.mpr ⟨fun q hq j hj => ?_,
      List.forall_mem_singleton.mpr fun j hj => ?_⟩
    · rw [hleft q.row j (hj.trans (hs.col_lt q hq))]
      exact hs.left q hq j hj
    · rw [hleft p j hj]
      exact hs.unused p hunused j hj
  case unused =>
    intro i hi j hj
    have hfresh := used_eq_false_iff.mp hi
    have hip : i ≠ p := fun hf =>
      hfresh ⟨p, c⟩ (List.mem_append_right _ (List.mem_singleton_self _)) hf.symm
    cases Nat.lt_succ_iff_lt_or_eq.mp hj with
    | inl hlt =>
      have hold : s.used i = false := used_eq_false_iff.mpr fun q hq =>
        hfresh q (List.mem_append_left _ hq)
      rw [hleft i j hlt]
      exact hs.unused i hold j hlt
    | inr heq =>
      obtain rfl : j = c := Fin.ext heq
      rw [clearColumn_pivot hpivot, if_neg hip, abs_zero]
      exact htol

theorem Settled.step (htol : 0 ≤ tol) {c : Fin m} (hs : s.Settled tol c) :
    (s.step rule tol c).Settled tol (c + 1) := by
  cases h : selectPivot rule tol s.entries s.used c.castSucc with
  | none => exact hs.step_of_none h
  | some p => exact hs.step_of_some htol h

end Reduction

theorem reduce_settled {rule : PivotRule} {tol : ℚ} (htol : 0 ≤ tol)
    (A : DenseMatrix ℚ n (m + 1)) : (reduce rule tol A).Settled tol m :=
  reduce_invariant (fun _ _ hs => hs.step htol) (Reduction.start_settled A)

end LinearSystem
