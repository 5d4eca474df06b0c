import LinearSystem.Proofs.RowOperation
import LinearSystem.Proofs.Reduction.Settled

namespace LinearSystem

open Scalar

variable {n m : ℕ}

/-- The multiples of the pivot row that each row loses; the pivot row keeps one part in `A p c`. -/
def pivotFactors (A : DenseMatrix ℚ n m) (p : Fin n) (c : Fin m) (i : Fin n) : ℚ :=
  if i = p then 1 - 1 / A p c else A i c / A p c

theorem pivotFactors_ne_one {A : DenseMatrix ℚ n m} {p : Fin n} {c : Fin m} (h : A p c ≠ 0) :
    pivotFactors A p c p ≠ 1 := by
  rw [pivotFactors, if_pos rfl, ne_eq, sub_eq_self]
  exact one_div_ne_zero h

theorem column_clearColumn (A : DenseMatrix ℚ n m) (p : Fin n) {c j : Fin m} (hj : c ≤ j) :
    (clearColumn A p c).column j = rowOperation p (pivotFactors A p c) (A.column j) := by
  funext i
  simp only [rowOperation_apply, DenseMatrix.column_apply, clearColumn_apply, if_pos hj,
    pivotFactors]
  split_ifs with hi
  · rw [hi]
    ring
  · ring

theorem column_clearColumn_of_zero {A : DenseMatrix ℚ n m} {p : Fin n} {c j : Fin m}
    (h : c ≤ j ∨ A p j = 0) :
    (clearColumn A p c).column j = rowOperation p (pivotFactors A p c) (A.column j) := by
  cases le_or_gt c j with
  | inl hle => exact column_clearColumn A p hle
  | inr hlt =>
    have hzero : A.column j p = 0 := h.resolve_left hlt.not_ge
    rw [rowOperation_of_zero _ hzero]
    exact funext fun i => clearColumn_left A p i hlt

namespace DenseMatrix

/-- One injective map takes the columns `K` of `A` to the columns `K` of `R`. -/
def CarriesColumns (A R : DenseMatrix ℚ n m) (K : Set (Fin m)) : Prop :=
  ∃ T : (Fin n → ℚ) →ₗ[ℚ] (Fin n → ℚ), Function.Injective T ∧ ∀ j ∈ K, R.column j = T (A.column j)

variable {A R : DenseMatrix ℚ n m} {K L : Set (Fin m)}

theorem CarriesColumns.refl (A : DenseMatrix ℚ n m) (K : Set (Fin m)) : A.CarriesColumns A K :=
  ⟨LinearMap.id, Function.injective_id, fun _ _ => rfl⟩

theorem CarriesColumns.mono (h : A.CarriesColumns R K) (hL : L ⊆ K) : A.CarriesColumns R L := by
  obtain ⟨T, hT, hcol⟩ := h
  exact ⟨T, hT, fun j hj => hcol j (hL hj)⟩

theorem CarriesColumns.clearColumn (h : A.CarriesColumns R K) {p : Fin n} {c : Fin m}
    (hpivot : R p c ≠ 0) (hK : ∀ j ∈ K, c ≤ j ∨ R p j = 0) :
    A.CarriesColumns (clearColumn R p c) K := by
  obtain ⟨T, hT, hcol⟩ := h
  refine ⟨rowOperation p (pivotFactors R p c) ∘ₗ T, ?_, fun j hj => ?_⟩
  · rw [LinearMap.coe_comp]
    exact (rowOperation_injective (pivotFactors_ne_one hpivot)).comp hT
  · rw [LinearMap.comp_apply, ← hcol j hj, column_clearColumn_of_zero (hK j hj)]

end DenseMatrix

namespace Reduction

variable {rule : PivotRule} {tol : ℚ} {s : Reduction ℚ n m} {A : DenseMatrix ℚ n (m + 1)}

/-- A step carries the columns in which no row that is still free to use has anything left of the
current column. -/
theorem carries_step (htol : 0 ≤ tol) {c : Fin m} {K : Set (Fin (m + 1))}
    (h : A.CarriesColumns s.entries K)
    (hK : ∀ i, s.used i = false → ∀ j ∈ K, c.castSucc ≤ j ∨ s.entries i j = 0) :
    A.CarriesColumns (s.step rule tol c).entries K := by
  cases hsel : selectPivot rule tol s.entries s.used c.castSucc with
  | none => rwa [step_of_none hsel]
  | some p =>
    obtain ⟨hunused, hpivot⟩ := selectPivot_spec htol hsel
    rw [step_of_some hsel]
    exact h.clearColumn hpivot (hK p hunused)

/-- The columns in which a pivot was taken. -/
def pivotSet (s : Reduction ℚ n m) : Set (Fin (m + 1)) := {j | ∃ p ∈ s.pivots, p.col.castSucc = j}

theorem pivotSet_step_subset {c : Fin m} :
    {j | c.val + 1 ≤ j.val} ∪ (s.step rule tol c).pivotSet ⊆ {j | c.val ≤ j.val} ∪ s.pivotSet := by
  rintro j (hj | hj)
  · exact .inl (Nat.le_of_succ_le hj)
  · cases hsel : selectPivot rule tol s.entries s.used c.castSucc with
    | none =>
      rw [step_of_none hsel] at hj
      exact .inr hj
    | some p =>
      rw [step_of_some hsel] at hj
      obtain ⟨q, hq, rfl⟩ := hj
      cases List.mem_append.mp hq with
      | inl hold => exact .inr ⟨q, hold, rfl⟩
      | inr hnew =>
        rw [List.mem_singleton.mp hnew]
        exact .inl (le_refl c.val)

/-- A pivot column and the columns still to come go through every step: once a column is a unit
column, no later pivot row has anything in it. -/
theorem Settled.carries_step_pivots (htol : 0 ≤ tol) {c : Fin m} (hs : s.Settled tol c)
    (h : A.CarriesColumns s.entries ({j | c.val ≤ j.val} ∪ s.pivotSet)) :
    A.CarriesColumns (s.step rule tol c).entries
      ({j | c.val + 1 ≤ j.val} ∪ (s.step rule tol c).pivotSet) := by
  refine (carries_step htol h ?_).mono pivotSet_step_subset
  rintro i hi j (hj | hj)
  · exact .inl hj
  · obtain ⟨q, hq, rfl⟩ := hj
    have hrow : i ≠ q.row := fun hf => used_eq_false_iff.mp hi q hq hf.symm
    exact .inr ((hs.unit q hq i).trans (if_neg hrow))

theorem Settled.carries_step_zero {c : Fin m} (hs : s.Settled 0 c)
    (h : A.CarriesColumns s.entries Set.univ) :
    A.CarriesColumns (s.step rule 0 c).entries Set.univ := by
  refine carries_step le_rfl h fun i hi j _ => ?_
  rcases le_or_gt c.castSucc j with hle | hlt
  · exact .inl hle
  · have hjm : j.val < m := lt_trans (show j.val < c.val from hlt) c.isLt
    exact .inr (abs_nonpos_iff.mp (hs.unused i hi ⟨j.val, hjm⟩ hlt))

end Reduction

theorem reduce_carries {rule : PivotRule} {tol : ℚ} (htol : 0 ≤ tol) (A : DenseMatrix ℚ n (m + 1)) :
    A.CarriesColumns (reduce rule tol A).entries (reduce rule tol A).pivotSet := by
  let P (c : ℕ) (s : Reduction ℚ n m) : Prop :=
    s.Settled tol c ∧ A.CarriesColumns s.entries ({j | c ≤ j.val} ∪ s.pivotSet)
  have hstep : ∀ (c : Fin m) s, P c.val s → P (c.val + 1) (s.step rule tol c) := fun c s hs =>
    ⟨hs.1.step htol, hs.1.carries_step_pivots htol hs.2⟩
  have hrun : P m (reduce rule tol A) :=
    reduce_invariant hstep ⟨Reduction.start_settled A, .refl A _⟩
  exact hrun.2.mono Set.subset_union_right

theorem reduce_carries_zero (rule : PivotRule) (A : DenseMatrix ℚ n (m + 1)) :
    A.CarriesColumns (reduce rule 0 A).entries Set.univ := by
  let P (c : ℕ) (s : Reduction ℚ n m) : Prop :=
    s.Settled 0 c ∧ A.CarriesColumns s.entries Set.univ
  have hstep : ∀ (c : Fin m) s, P c.val s → P (c.val + 1) (s.step rule 0 c) := fun c s hs =>
    ⟨hs.1.step le_rfl, hs.1.carries_step_zero hs.2⟩
  exact (reduce_invariant (P := P) hstep ⟨Reduction.start_settled A, .refl A _⟩).2

/-- Reduction changes the equations, not their solutions. -/
theorem satisfies_reduce (rule : PivotRule) (A : DenseMatrix ℚ n (m + 1)) (y : Fin m → ℚ) :
    Satisfies (reduce rule 0 A).entries y ↔ Satisfies A y := by
  obtain ⟨T, hT, hcol⟩ := reduce_carries_zero rule A
  exact satisfies_of_column_eq hT (fun j => hcol j (Set.mem_univ j)) y

end LinearSystem
