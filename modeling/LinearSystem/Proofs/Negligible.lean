import LinearSystem.Proofs.RankRun
import LinearSystem.Proofs.Reduction.Pivots

namespace LinearSystem

open Scalar

variable {α : Type} [Scalar α] {n m : ℕ} {tol : α}

/-- No entry could serve as a pivot. -/
def DenseMatrix.Negligible (tol : α) (A : DenseMatrix α n m) : Prop :=
  ∀ i j, negligible tol (A i j) = true

/-- The rank is zero exactly when elimination has nothing to start with. -/
theorem rank_eq_zero_iff {A : DenseMatrix α n m} : rank tol A = 0 ↔ A.Negligible tol := by
  have hrun : rank tol A = 0 ↔ (Rank.start A).Exhausted tol := Rank.row_finish_eq_iff
  rw [hrun]
  constructor
  · exact fun h i j => h i j (Nat.zero_le _) (Nat.zero_le _) j.isLt
  · exact fun h i j _ _ _ => h i j

/-- A reduction without a pivot has left the matrix as it was, and found nothing in it. -/
theorem pivots_reduce_eq_nil_iff {rule : PivotRule} {A : DenseMatrix α n (m + 1)} :
    (reduce rule tol A).pivots = [] ↔ ∀ i (j : Fin m), negligible tol (A i j.castSucc) = true := by
  constructor
  · intro hnil i j
    let P (c : ℕ) (s : Reduction α n m) : Prop := s.pivots = [] →
      s.entries = A ∧ ∀ i (j : Fin m), j.val < c → negligible tol (A i j.castSucc) = true
    have hstep : ∀ (c : Fin m) s, P c.val s → P (c.val + 1) (s.step rule tol c) := by
      intro c s hs hempty
      cases hsel : selectPivot rule tol s.entries s.used c.castSucc with
      | some p =>
        rw [Reduction.step_of_some hsel] at hempty
        exact absurd hempty (by simp)
      | none =>
        rw [Reduction.step_of_none hsel] at hempty ⊢
        obtain ⟨hentries, hbefore⟩ := hs hempty
        refine ⟨hentries, fun i j hj => ?_⟩
        cases Nat.lt_succ_iff_lt_or_eq.mp hj with
        | inl hlt => exact hbefore i j hlt
        | inr heq =>
          obtain rfl : j = c := Fin.ext heq
          rw [← hentries]
          refine negligible_of_selectPivot_eq_none hsel (Reduction.used_eq_false_iff.mpr ?_)
          simp [hempty]
    have hrun : P m (reduce rule tol A) :=
      reduce_invariant hstep fun _ => ⟨rfl, fun _ _ hj => absurd hj (Nat.not_lt_zero _)⟩
    exact (hrun hnil).2 i j j.isLt
  · intro hA
    let P (_ : ℕ) (s : Reduction α n m) : Prop := s = Reduction.start A
    have hstep : ∀ (c : Fin m) s, P c.val s → P (c.val + 1) (s.step rule tol c) := by
      intro c s hs
      cases hsel : selectPivot rule tol s.entries s.used c.castSucc with
      | none => rwa [Reduction.step_of_none hsel]
      | some p =>
        have hsig := (mem_candidates.mp (selectPivot_mem hsel)).2
        rw [show s = Reduction.start A from hs, Reduction.start,
          significant_eq_not_negligible, hA p c] at hsig
        exact absurd hsig (by decide)
    have hrun : P m (reduce rule tol A) := reduce_invariant hstep rfl
    rw [show reduce rule tol A = Reduction.start A from hrun]
    rfl

end LinearSystem
