import LinearSystem.Proofs.Reduction.Bookkeeping
import LinearSystem.Proofs.Reduction.Leading

namespace LinearSystem

open Scalar

variable {α : Type} [Scalar α] {n m : ℕ} {rule : PivotRule} {tol : α}

namespace Reduction

/-- What the columns before `c` keep from the step that passed them, whatever the arithmetic does
afterwards: a pivot row holds the quotient of its pivot by itself, and an entry of a column
without a pivot is negligible unless its row has a pivot further left. -/
structure Frozen (tol : α) (c : ℕ) (s : Reduction α n m) : Prop where
  ordered : s.Ordered c
  quotient : ∀ p ∈ s.pivots, ∃ v, significant tol v = true ∧
    s.entries p.row p.col.castSucc = v / v
  free : ∀ i (j : Fin m), j.val < c → (∀ p ∈ s.pivots, p.col ≠ j) →
    negligible tol (s.entries i j.castSucc) = true ∨ ∃ p ∈ s.pivots, p.row = i ∧ p.col < j

variable {s : Reduction α n m}

theorem start_frozen (A : DenseMatrix α n (m + 1)) : (start A).Frozen tol 0 where
  ordered := start_ordered A
  quotient := by simp [start]
  free := fun _ _ hj => absurd hj (Nat.not_lt_zero _)

theorem Frozen.step_of_none {c : Fin m} (hs : s.Frozen tol c)
    (h : selectPivot rule tol s.entries s.used c.castSucc = none) :
    (s.step rule tol c).Frozen tol (c + 1) := by
  have hordered : (s.step rule tol c).Ordered (c + 1) := hs.ordered.step
  rw [Reduction.step_of_none h] at hordered ⊢
  refine ⟨hordered, hs.quotient, fun i j hj hfree => ?_⟩
  cases Nat.lt_succ_iff_lt_or_eq.mp hj with
  | inl hlt => exact hs.free i j hlt hfree
  | inr heq =>
    obtain rfl : j = c := Fin.ext heq
    by_cases hi : s.used i = false
    · exact .inl (negligible_of_selectPivot_eq_none h hi)
    · obtain ⟨p, hp, hrow⟩ := exists_pivot_of_used hi
      exact .inr ⟨p, hp, hrow, hs.ordered.col_lt p hp⟩

theorem Frozen.step_of_some {c : Fin m} (hs : s.Frozen tol c) {p : Fin n}
    (h : selectPivot rule tol s.entries s.used c.castSucc = some p) :
    (s.step rule tol c).Frozen tol (c + 1) := by
  have hsig : significant tol (s.entries p c.castSucc) = true :=
    (mem_candidates.mp (selectPivot_mem h)).2
  have hleft : ∀ i (j : Fin m), j.val < c.val →
      clearColumn s.entries p c.castSucc i j.castSucc = s.entries i j.castSucc :=
    fun i j hj => clearColumn_left _ p i hj
  have hordered : (s.step rule tol c).Ordered (c + 1) := hs.ordered.step
  rw [Reduction.step_of_some h] at hordered ⊢
  refine ⟨hordered, List.forall_mem_append.mpr ⟨fun q hq => ?_, ?_⟩, fun i j hj hfree => ?_⟩
  · rw [hleft q.row q.col (hs.ordered.col_lt q hq)]
    exact hs.quotient q hq
  · exact List.forall_mem_singleton.mpr ⟨_, hsig, clearColumn_pivot_self s.entries p c.castSucc⟩
  · have hne : c ≠ j := hfree ⟨p, c⟩ (List.mem_append_right _ (List.mem_singleton_self _))
    have hlt : j.val < c.val := by omega
    rw [hleft i j hlt]
    cases hs.free i j hlt fun q hq => hfree q (List.mem_append_left _ hq) with
    | inl hnegl => exact .inl hnegl
    | inr hpivot =>
      obtain ⟨q, hq, hrow, hcol⟩ := hpivot
      exact .inr ⟨q, List.mem_append_left _ hq, hrow, hcol⟩

theorem Frozen.step {c : Fin m} (hs : s.Frozen tol c) :
    (s.step rule tol c).Frozen tol (c + 1) := by
  cases h : selectPivot rule tol s.entries s.used c.castSucc with
  | none => exact hs.step_of_none h
  | some p => exact hs.step_of_some h

/-- If no pivot can vanish under division by itself, a column without a pivot leads no row. -/
theorem Frozen.leadingColumn_ne (hs : s.Frozen tol m)
    (hquot : ∀ v : α, significant tol v = true → significant tol (v / v) = true) {j : Fin m}
    (hj : ∀ p ∈ s.pivots, p.col ≠ j) (i : Fin n) : leadingColumn? tol s.entries i ≠ some j := by
  intro hlead
  obtain ⟨hsig, hleft⟩ := leadingColumn?_eq_some_iff.mp hlead
  cases hs.free i j j.isLt hj with
  | inl hnegl => simp [significant, hnegl] at hsig
  | inr hpivot =>
    obtain ⟨p, hp, rfl, hcol⟩ := hpivot
    obtain ⟨v, hv, hentry⟩ := hs.quotient p hp
    have hnegl : negligible tol (v / v) = true := hentry ▸ hleft p.col hcol
    have hsigv : significant tol (v / v) = true := hquot v hv
    simp [significant, hnegl] at hsigv

end Reduction

theorem reduce_frozen (rule : PivotRule) (tol : α) (A : DenseMatrix α n (m + 1)) :
    (reduce rule tol A).Frozen tol m :=
  reduce_invariant (fun _ _ hs => hs.step) (Reduction.start_frozen A)

end LinearSystem
