import LinearSystem.Proofs.Exact
import LinearSystem.Proofs.Reduction.BackSubstitution
import LinearSystem.Proofs.RightHandSide

namespace LinearSystem

open Scalar

variable {n m : ℕ} {rule : PivotRule} {tol : ℚ}

namespace Reduction

variable {s t : Reduction ℚ n m}

/-- What a step does to the right-hand sides, in every reduction in step with `s`. -/
def stepMap (rule : PivotRule) (tol : ℚ) (s : Reduction ℚ n m) (c : Fin m) :
    (Fin n → ℚ) →ₗ[ℚ] (Fin n → ℚ) :=
  match selectPivot rule tol s.entries s.used c.castSucc with
  | some p => rowOperation p (pivotFactors s.entries p c.castSucc)
  | none => LinearMap.id

theorem InStep.column_step (h : s.InStep t) (c : Fin m) :
    (t.step rule tol c).entries.column (Fin.last m) =
      s.stepMap rule tol c (t.entries.column (Fin.last m)) := by
  cases hp : selectPivot rule tol s.entries s.used c.castSucc with
  | none =>
    rw [step_of_none ((h.selectPivot_eq c).symm.trans hp)]
    simp only [stepMap, hp, LinearMap.id_apply]
  | some p =>
    have hfactors : pivotFactors t.entries p c.castSucc = pivotFactors s.entries p c.castSucc := by
      funext i
      simp only [pivotFactors, h.coefficients _ c]
    rw [step_of_some ((h.selectPivot_eq c).symm.trans hp)]
    simp only [stepMap, hp]
    rw [column_clearColumn _ _ (Fin.le_last _), hfactors]

/-- The right-hand sides go through a linear map that the coefficients alone determine. -/
theorem exists_linear_foldl_step (rule : PivotRule) (tol : ℚ) (cs : List (Fin m))
    (s : Reduction ℚ n m) :
    ∃ T : (Fin n → ℚ) →ₗ[ℚ] (Fin n → ℚ), ∀ t, s.InStep t →
      (cs.foldl (step rule tol) t).entries.column (Fin.last m) =
        T (t.entries.column (Fin.last m)) := by
  induction cs generalizing s with
  | nil => exact ⟨LinearMap.id, fun _ _ => rfl⟩
  | cons c cs ih =>
    obtain ⟨T, hT⟩ := ih (s.step rule tol c)
    refine ⟨T ∘ₗ s.stepMap rule tol c, fun t h => ?_⟩
    rw [List.foldl_cons, hT _ (h.step c), h.column_step, LinearMap.comp_apply]

end Reduction

theorem exists_linear_reduce (rule : PivotRule) (tol : ℚ) (A : DenseMatrix ℚ n m) :
    ∃ T : (Fin n → ℚ) →ₗ[ℚ] (Fin n → ℚ), ∀ b,
      (reduce rule tol (A.augment b)).entries.column (Fin.last m) = T b.get := by
  obtain ⟨T, hT⟩ := Reduction.exists_linear_foldl_step rule tol (List.finRange m)
    (Reduction.start (A.augment (Vector.replicate n 0)))
  refine ⟨T, fun b => ?_⟩
  have hstart : (Reduction.start (A.augment (Vector.replicate n 0))).InStep
      (Reduction.start (A.augment b)) := ⟨rfl, sameCoefficients_augment A _ b⟩
  have hrun := hT _ hstart
  rwa [show (Reduction.start (A.augment b)).entries = A.augment b from rfl,
    column_augment_last] at hrun

section BackSubstitution

variable {R S : DenseMatrix ℚ n (m + 1)}

theorem SameCoefficients.leadingColumn?_eq (h : SameCoefficients R S) (i : Fin n) :
    leadingColumn? tol S i = leadingColumn? tol R i := by
  simp only [leadingColumn?, h i]

/-- If the unknowns so far are linear in the right-hand sides, so they are after one more row. -/
theorem exists_linear_solveRow (tol : ℚ) (R : DenseMatrix ℚ n (m + 1)) (i : Fin n)
    (X : (Fin n → ℚ) →ₗ[ℚ] (Fin m → ℚ)) :
    ∃ X' : (Fin n → ℚ) →ₗ[ℚ] (Fin m → ℚ), ∀ S x, SameCoefficients R S →
      x.get = X (S.column (Fin.last m)) →
      (solveRow tol S i x).get = X' (S.column (Fin.last m)) := by
  cases hlead : leadingColumn? tol R i with
  | none =>
    refine ⟨X, fun S x h hx => ?_⟩
    rw [solveRow_of_none ((h.leadingColumn?_eq i).trans hlead), hx]
  | some c =>
    let value : (Fin n → ℚ) →ₗ[ℚ] ℚ :=
      LinearMap.proj i - ∑ k with c < k, R i k.castSucc • (LinearMap.proj k ∘ₗ X)
    refine ⟨LinearMap.pi fun j => if j = c then value else LinearMap.proj j ∘ₗ X, ?_⟩
    intro S x h hx
    funext j
    rw [solveRow_of_some ((h.leadingColumn?_eq i).trans hlead)]
    simp only [LinearMap.pi_apply, ← h i, hx]
    split_ifs
    · simp [value, DenseMatrix.column]
    · rfl

/-- The answer is read off linearly: which row gives which unknown is up to the coefficients. -/
theorem exists_linear_backSubstitute (tol : ℚ) (R : DenseMatrix ℚ n (m + 1)) :
    ∃ X : (Fin n → ℚ) →ₗ[ℚ] (Fin m → ℚ), ∀ S, SameCoefficients R S →
      (backSubstitute tol S).get = X (S.column (Fin.last m)) := by
  have hrows : ∀ rows : List (Fin n), ∃ X : (Fin n → ℚ) →ₗ[ℚ] (Fin m → ℚ), ∀ S,
      SameCoefficients R S → (rows.foldr (solveRow tol S) (Vector.replicate m 0)).get =
        X (S.column (Fin.last m)) := by
    intro rows
    induction rows with
    | nil => exact ⟨0, fun S _ => funext fun j => Vector.getElem_replicate j.isLt⟩
    | cons i rows ih =>
      obtain ⟨X, hX⟩ := ih
      obtain ⟨X', hX'⟩ := exists_linear_solveRow tol R i X
      exact ⟨X', fun S h => hX' S _ h (hX S h)⟩
  exact hrows (List.finRange n)

end BackSubstitution

theorem exists_linear_solutionAt (pivoting : PivotRule) (tol : ℚ) (A : DenseMatrix ℚ n m) :
    ∃ X : (Fin n → ℚ) →ₗ[ℚ] (Fin m → ℚ), ∀ b, (solutionAt pivoting tol A b).x.get = X b.get := by
  obtain ⟨T, hT⟩ := exists_linear_reduce pivoting tol A
  obtain ⟨X, hX⟩ := exists_linear_backSubstitute tol
    (reduce pivoting tol (A.augment (Vector.replicate n 0))).entries
  refine ⟨X ∘ₗ T, fun b => ?_⟩
  have hrun : (reduce pivoting tol (A.augment (Vector.replicate n 0))).InStep
      (reduce pivoting tol (A.augment b)) := reduce_inStep (sameCoefficients_augment A _ b)
  rw [LinearMap.comp_apply, ← hT b]
  exact hX _ hrun.coefficients

/-- The vector `p * v + q * w`. -/
def combination {k : ℕ} (p q : ℚ) (v w : Vector ℚ k) : Vector ℚ k :=
  Vector.ofFn fun i => p * v.get i + q * w.get i

theorem get_combination {k : ℕ} (p q : ℚ) (v w : Vector ℚ k) :
    (combination p q v w).get = p • v.get + q • w.get := by
  funext i
  simp [combination, Vector.get]
  rfl

/-- The answer to a combination of right-hand sides is the combination of the answers, at every
tolerance and also where an answer misses some equations. -/
theorem solve_superposes {settings : Settings} {A : DenseMatrix ℚ n m} {b b' : Vector ℚ n}
    {p q : ℚ} {s s' t : Solution ℚ n m} (h : solve settings A b.toList = .ok s)
    (h' : solve settings A b'.toList = .ok s')
    (ht : solve settings A (combination p q b b').toList = .ok t) :
    t.x = combination p q s.x s'.x := by
  obtain ⟨tol, -, htol, -⟩ := solve_eq_ok_iff.mp h
  obtain ⟨-, -, rfl⟩ := solveAt_eq_ok_iff.mp ((solve_rational_eq_ok_iff htol).mp h).2
  obtain ⟨-, -, rfl⟩ := solveAt_eq_ok_iff.mp ((solve_rational_eq_ok_iff htol).mp h').2
  obtain ⟨-, -, rfl⟩ := solveAt_eq_ok_iff.mp ((solve_rational_eq_ok_iff htol).mp ht).2
  obtain ⟨X, hX⟩ := exists_linear_solutionAt settings.pivoting tol A
  have hget : (solutionAt settings.pivoting tol A (combination p q b b')).x.get =
      (combination p q (solutionAt settings.pivoting tol A b).x
        (solutionAt settings.pivoting tol A b').x).get := by
    rw [get_combination, hX, hX, hX, get_combination, map_add, map_smul, map_smul]
  exact Vector.ext fun i hi => congrFun hget ⟨i, hi⟩

/-- All three answers ignore the small coefficients of the first unknown, which stay in the reduced
rows. -/
theorem solve_superposes_small_coefficients :
    let settings : Settings := ⟨some 0.5, .largestMagnitude, .positiveRhs⟩
    let A : DenseMatrix ℚ 2 3 := ⟨#v[#v[1 / 4, 1, 3], #v[1 / 2, 4, 2]]⟩
    let b : Vector ℚ 2 := #v[1, 0]
    let b' : Vector ℚ 2 := #v[-2, 3]
    ∃ s s' t, solve settings A b.toList = .ok s ∧ solve settings A b'.toList = .ok s' ∧
      solve settings A (combination 2 (-1 / 3) b b').toList = .ok t ∧ s.reduced 1 0 ≠ 0 ∧
      t.x = combination 2 (-1 / 3) s.x s'.x := by
  intro settings A b b'
  have htol : settings.toleranceFor ℚ = .ok (1 / 2) :=
    toleranceFor_of_valid (by decide) (by decide +kernel)
  have hsolve : ∀ c, badZeroRow? .positiveRhs (1 / 2) A c = none →
      ¬rank (1 / 2) A < rank (1 / 2) (A.augment c) →
      solve settings A c.toList = .ok (solutionAt .largestMagnitude (1 / 2) A c) := fun c =>
    solve_of_rank_not_lt htol (validate_rational (by decide) (by decide) A c)
  have h := hsolve b (by decide +kernel) (by decide +kernel)
  have h' := hsolve b' (by decide +kernel) (by decide +kernel)
  have ht := hsolve (combination 2 (-1 / 3) b b') (by decide +kernel) (by decide +kernel)
  exact ⟨_, _, _, h, h', ht, by decide +kernel, solve_superposes h h' ht⟩

end LinearSystem
