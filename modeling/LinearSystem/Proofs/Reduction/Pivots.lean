import LinearSystem.Reduction

namespace LinearSystem

open Scalar

section SelectPivot

variable {α : Type} [Scalar α] {n m : Nat} {rule : PivotRule} {tol : α} {A : DenseMatrix α n m}
  {used : Fin n → Bool} {c : Fin m}

/-- The unused rows with a significant entry in the column. -/
def candidates (tol : α) (A : DenseMatrix α n m) (used : Fin n → Bool) (c : Fin m) :
    List (Fin n) :=
  (List.finRange n).filter fun i => !used i && significant tol (A i c)

theorem mem_candidates {i : Fin n} :
    i ∈ candidates tol A used c ↔ used i = false ∧ significant tol (A i c) = true := by
  simp [candidates]

/-- The better of the best row so far and the next one. -/
def keepLarger (A : DenseMatrix α n m) (c : Fin m) (best : Option (Fin n)) (i : Fin n) :
    Option (Fin n) :=
  match best with
  | some b => if atMost (magnitude (A i c)) (magnitude (A b c)) then some b else some i
  | none => some i

theorem selectPivot_largestMagnitude :
    selectPivot .largestMagnitude tol A used c =
      (candidates tol A used c).foldl (keepLarger A c) none := rfl

theorem keepLarger_eq (best : Option (Fin n)) (i : Fin n) :
    keepLarger A c best i = some i ∨ best.isSome ∧ keepLarger A c best i = best := by
  cases best with
  | none => exact .inl rfl
  | some b =>
    by_cases h : atMost (magnitude (A i c)) (magnitude (A b c)) = true
    · exact .inr ⟨rfl, if_pos h⟩
    · exact .inl (if_neg h)

theorem foldl_keepLarger_mem {l : List (Fin n)} {best : Option (Fin n)} {p : Fin n}
    (h : l.foldl (keepLarger A c) best = some p) : best = some p ∨ p ∈ l := by
  induction l generalizing best with
  | nil => exact .inl h
  | cons i l ih =>
    cases ih h with
    | inl hbest =>
      rcases keepLarger_eq (A := A) (c := c) best i with hi | ⟨-, hkeep⟩
      · obtain rfl : i = p := Option.some.inj (hi.symm.trans hbest)
        exact .inr List.mem_cons_self
      · exact .inl (hkeep.symm.trans hbest)
    | inr hmem => exact .inr (List.mem_cons_of_mem i hmem)

theorem foldl_keepLarger_isSome {l : List (Fin n)} {best : Option (Fin n)}
    (h : best.isSome ∨ l ≠ []) : (l.foldl (keepLarger A c) best).isSome := by
  induction l generalizing best with
  | nil => exact h.resolve_right (absurd rfl)
  | cons i l ih =>
    apply ih
    rcases keepLarger_eq (A := A) (c := c) best i with hi | ⟨hbest, hkeep⟩
    · rw [hi]
      exact .inl rfl
    · rw [hkeep]
      exact .inl hbest

/-- The pivot row is one of the candidates, whatever the rule. -/
theorem selectPivot_mem {p : Fin n} (h : selectPivot rule tol A used c = some p) :
    p ∈ candidates tol A used c := by
  cases rule with
  | firstNonZero => exact List.mem_of_head? h
  | largestMagnitude => exact (foldl_keepLarger_mem h).resolve_left (by simp)

/-- A column goes without a pivot only if it has no candidate. -/
theorem candidates_eq_nil (h : selectPivot rule tol A used c = none) :
    candidates tol A used c = [] := by
  cases rule with
  | firstNonZero => exact List.head?_eq_none_iff.mp h
  | largestMagnitude =>
    refine Classical.byContradiction fun hne => ?_
    have hsome : ((candidates tol A used c).foldl (keepLarger A c) none).isSome :=
      foldl_keepLarger_isSome (.inr hne)
    rw [← selectPivot_largestMagnitude, h] at hsome
    exact absurd hsome (by simp)

theorem negligible_of_selectPivot_eq_none (h : selectPivot rule tol A used c = none) {i : Fin n}
    (hi : used i = false) : negligible tol (A i c) = true := by
  have hnot : i ∉ candidates tol A used c := candidates_eq_nil h ▸ List.not_mem_nil
  rw [mem_candidates] at hnot
  simpa [hi, significant] using hnot

end SelectPivot

/-- What becomes of an entry depends on its own column and on the column that is cleared. -/
theorem clearColumn_entry {α : Type} [Scalar α] {n m : Nat} (A : DenseMatrix α n m) (p i : Fin n)
    (c j : Fin m) :
    clearColumn A p c i j =
      if i = p then if c ≤ j then A p j / A p c else A p j
      else if isZero (A i c) = true then A i j
      else if c ≤ j then A i j - A i c * (if c ≤ j then A p j / A p c else A p j)
      else A i j := by
  have hrow : (Vector.ofFn fun l => if c ≤ l then A p l / A p c else A p l).get j =
      if c ≤ j then A p j / A p c else A p j := by
    simp only [Vector.get, Vector.toArray_ofFn, Array.getElem_ofFn]
    rfl
  rw [← hrow, clearColumn, DenseMatrix.ofFn_apply]

/-- The columns to the left of the pivot column are left alone. -/
theorem clearColumn_left {α : Type} [Scalar α] {n m : Nat} (A : DenseMatrix α n m) (p i : Fin n)
    {c j : Fin m} (hj : j < c) : clearColumn A p c i j = A i j := by
  have hnot : ¬c ≤ j := Fin.not_le.mpr hj
  rw [clearColumn_entry, if_neg hnot, if_neg hnot]
  split
  next h => rw [h]
  next => split <;> rfl

theorem clearColumn_pivot_self {α : Type} [Scalar α] {n m : Nat} (A : DenseMatrix α n m)
    (p : Fin n) (c : Fin m) : clearColumn A p c p c = A p c / A p c := by
  rw [clearColumn_entry, if_pos rfl, if_pos (Fin.le_refl c)]

namespace Reduction

theorem used_eq_false_iff {α : Type} {n m : Nat} {s : Reduction α n m} {i : Fin n} :
    s.used i = false ↔ ∀ p ∈ s.pivots, p.row ≠ i := by
  simp [used]

theorem exists_pivot_of_used {α : Type} {n m : Nat} {s : Reduction α n m} {i : Fin n}
    (h : ¬s.used i = false) : ∃ p ∈ s.pivots, p.row = i := by
  rw [used_eq_false_iff] at h
  simpa using h

section Run

variable {α : Type} [Scalar α] {n m : Nat} {rule : PivotRule} {tol : α} {s : Reduction α n m}
  {c : Fin m}

theorem step_of_none (h : selectPivot rule tol s.entries s.used c.castSucc = none) :
    step rule tol s c = s := by
  simp only [step, h]

theorem step_of_some {p : Fin n} (h : selectPivot rule tol s.entries s.used c.castSucc = some p) :
    step rule tol s c = ⟨clearColumn s.entries p c.castSucc, s.pivots ++ [⟨p, c⟩]⟩ := by
  simp only [step, h]

end Run

end Reduction

/-- What every column step preserves holds once all columns were visited from left to right. -/
theorem foldl_finRange_invariant {β : Type} {m : Nat} {P : Nat → β → Prop} {f : β → Fin m → β}
    (hstep : ∀ (c : Fin m) s, P c.val s → P (c.val + 1) (f s c)) {s : β} (hs : P 0 s) :
    P m ((List.finRange m).foldl f s) := by
  induction m with
  | zero => exact hs
  | succ m ih =>
    rw [List.finRange_succ_last, List.foldl_append, List.foldl_map]
    exact hstep (Fin.last m) _ (ih fun c s => hstep c.castSucc s)

theorem reduce_invariant {α : Type} [Scalar α] {n m : Nat} {rule : PivotRule} {tol : α}
    {A : DenseMatrix α n (m + 1)} {P : Nat → Reduction α n m → Prop}
    (hstep : ∀ (c : Fin m) s, P c.val s → P (c.val + 1) (s.step rule tol c))
    (hstart : P 0 (Reduction.start A)) : P m (reduce rule tol A) :=
  foldl_finRange_invariant hstep hstart

end LinearSystem
