import LinearSystem.Proofs.Exact
import LinearSystem.Proofs.Reduction.Pivots

namespace LinearSystem

open Scalar

section Coefficients

variable {α : Type} {n m : ℕ}

/-- Equal in every column but the last one, where the right-hand side stands. -/
def SameCoefficients (R S : DenseMatrix α n (m + 1)) : Prop :=
  ∀ i (j : Fin m), R i j.castSucc = S i j.castSucc

theorem sameCoefficients_augment (A : DenseMatrix α n m) (b c : Vector α n) :
    SameCoefficients (A.augment b) (A.augment c) := by
  intro i j
  rw [DenseMatrix.augment_castSucc, DenseMatrix.augment_castSucc]

end Coefficients

variable {α : Type} [Scalar α] {n m : ℕ} {rule : PivotRule} {tol : α}

namespace SameCoefficients

variable {R S : DenseMatrix α n (m + 1)}

/-- A pivot is chosen by the entries of its column. -/
theorem selectPivot_eq (h : SameCoefficients R S) (used : Fin n → Bool) (c : Fin m) :
    selectPivot rule tol R used c.castSucc = selectPivot rule tol S used c.castSucc := by
  unfold selectPivot
  simp only [h _ c]

/-- Dividing and subtracting mix a column with the one that is cleared, and with no other. -/
theorem clearColumn (h : SameCoefficients R S) (p : Fin n) (c : Fin m) :
    SameCoefficients (clearColumn R p c.castSucc) (clearColumn S p c.castSucc) := by
  intro i j
  simp only [clearColumn_entry, h _ c, h _ j]

end SameCoefficients

namespace Reduction

/-- Two reductions that have taken the same pivots in the same coefficients. -/
structure InStep (s t : Reduction α n m) : Prop where
  pivots : s.pivots = t.pivots
  coefficients : SameCoefficients s.entries t.entries

variable {s t : Reduction α n m}

theorem InStep.selectPivot_eq (h : s.InStep t) (c : Fin m) :
    selectPivot rule tol s.entries s.used c.castSucc =
      selectPivot rule tol t.entries t.used c.castSucc := by
  have hused : s.used = t.used := funext fun i => by rw [used, used, h.pivots]
  rw [hused, h.coefficients.selectPivot_eq]

theorem InStep.step (h : s.InStep t) (c : Fin m) :
    (s.step rule tol c).InStep (t.step rule tol c) := by
  cases hp : selectPivot rule tol t.entries t.used c.castSucc with
  | none =>
    rw [step_of_none ((h.selectPivot_eq c).trans hp), step_of_none hp]
    exact h
  | some p =>
    rw [step_of_some ((h.selectPivot_eq c).trans hp), step_of_some hp]
    exact ⟨congrArg (· ++ [⟨p, c⟩]) h.pivots, h.coefficients.clearColumn p c⟩

theorem InStep.foldl_step (h : s.InStep t) (cs : List (Fin m)) :
    (cs.foldl (Reduction.step rule tol) s).InStep (cs.foldl (Reduction.step rule tol) t) := by
  induction cs generalizing s t with
  | nil => exact h
  | cons c cs ih => exact ih (h.step c)

end Reduction

theorem reduce_inStep {R S : DenseMatrix α n (m + 1)} (h : SameCoefficients R S) :
    (reduce rule tol R).InStep (reduce rule tol S) := by
  have hstart : (Reduction.start R).InStep (Reduction.start S) := ⟨rfl, h⟩
  exact hstart.foldl_step (List.finRange m)

variable {settings : Settings} {A : DenseMatrix α n m} {l l' : List α} {s s' : Solution α n m}

/-- Two right-hand sides of one matrix, if both are answered, are answered with the same rank, the
same pivots and the same reduced coefficients, whatever the arithmetic does on the way. -/
theorem solve_pivoting_ignores_rhs (h : solve settings A l = .ok s)
    (h' : solve settings A l' = .ok s') :
    s.rank = s'.rank ∧ s.pivotColumns = s'.pivotColumns ∧ s.freeVariables = s'.freeVariables ∧
      ∀ i (j : Fin m), s.reduced i j.castSucc = s'.reduced i j.castSucc := by
  obtain ⟨tol, b, htol, -, hsolve⟩ := solve_eq_ok_iff.mp h
  obtain ⟨tol', b', htol', -, hsolve'⟩ := solve_eq_ok_iff.mp h'
  obtain rfl : tol = tol' := Except.ok.inj (htol.symm.trans htol')
  obtain ⟨-, -, rfl⟩ := solveAt_eq_ok_iff.mp hsolve
  obtain ⟨-, -, rfl⟩ := solveAt_eq_ok_iff.mp hsolve'
  have hrun : (reduce settings.pivoting tol (A.augment b)).InStep
      (reduce settings.pivoting tol (A.augment b')) :=
    reduce_inStep (sameCoefficients_augment A b b')
  have hcols : (solutionAt settings.pivoting tol A b).pivotColumns =
      (solutionAt settings.pivoting tol A b').pivotColumns :=
    congrArg (List.map Pivot.col) hrun.pivots
  refine ⟨rfl, hcols, ?_, hrun.coefficients⟩
  rw [Solution.freeVariables, Solution.freeVariables, hcols]

/-- A coefficient overflows when its row is divided, and the next pivot is an infinity: both runs
end with the same column of NaNs. -/
theorem solve_pivoting_ignores_rhs_overflow :
    let A : DenseMatrix Float 2 2 := ⟨#v[#v[1e-9, 1e308], #v[1, 1]]⟩
    let b : Vector Float 2 := #v[1, 2]
    let b' : Vector Float 2 := #v[-3, 1e300]
    ∃ s s', solve .default A b.toList = .ok s ∧ solve .default A b'.toList = .ok s' ∧
      s.pivotColumns = [0, 1] ∧ (s.reduced 0 1).isNaN = true ∧
      s.rank = s'.rank ∧ s.pivotColumns = s'.pivotColumns ∧ s.freeVariables = s'.freeVariables ∧
      ∀ i (j : Fin 2), s.reduced i j.castSucc = s'.reduced i j.castSucc := by
  intro A b b'
  have hrow : badZeroRow? .positiveRhs 1e-10 A b = none := by decide +kernel
  have hrow' : badZeroRow? .positiveRhs 1e-10 A b' = none := by decide +kernel
  have hrank : ¬rank 1e-10 A < rank 1e-10 (A.augment b) := by decide +kernel
  have hrank' : ¬rank 1e-10 A < rank 1e-10 (A.augment b') := by decide +kernel
  have hvalid : validate A b.toList = .ok b :=
    validate_of_finite (by decide) (by decide) (by decide +kernel) (by decide +kernel)
  have hvalid' : validate A b'.toList = .ok b' :=
    validate_of_finite (by decide) (by decide) (by decide +kernel) (by decide +kernel)
  have hsolve : solve .default A b.toList = .ok (solutionAt .firstNonZero 1e-10 A b) :=
    solve_of_rank_not_lt rfl hvalid hrow hrank
  have hsolve' : solve .default A b'.toList = .ok (solutionAt .firstNonZero 1e-10 A b') :=
    solve_of_rank_not_lt rfl hvalid' hrow' hrank'
  exact ⟨_, _, hsolve, hsolve', by decide +kernel, by decide +kernel,
    solve_pivoting_ignores_rhs hsolve hsolve'⟩

end LinearSystem
