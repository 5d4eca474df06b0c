import LinearSystem.Proofs.Exact
import LinearSystem.Proofs.Floating.Quotient
import LinearSystem.Proofs.Reduction.Frozen

namespace LinearSystem

open Scalar

/-- Free unknowns are never touched, in any arithmetic in which a pivot divided by itself stays
significant. -/
theorem get_free_eq_zero {α : Type} [Scalar α] {n m : ℕ} {settings : Settings} {tol : α}
    {A : DenseMatrix α n m} {l : List α} {s : Solution α n m}
    (htol : settings.toleranceFor α = .ok tol)
    (hquot : ∀ v : α, significant tol v = true → significant tol (v / v) = true)
    (h : solve settings A l = .ok s) {f : Fin m} (hf : f ∈ s.freeVariables) : s.x.get f = 0 := by
  obtain ⟨tol', b, htol', -, hsolve⟩ := solve_eq_ok_iff.mp h
  obtain rfl : tol = tol' := Except.ok.inj (htol.symm.trans htol')
  obtain ⟨-, -, rfl⟩ := solveAt_eq_ok_iff.mp hsolve
  have hs : (reduce settings.pivoting tol (A.augment b)).Frozen tol m := reduce_frozen _ _ _
  exact backSubstitute_get_of_not_leading
    (hs.leadingColumn_ne hquot (Solution.mem_freeVariables.mp hf))

/-- With a tolerance below one, as both default tolerances are, every free unknown of an answer in
double or single precision is a positive zero, whatever overflowed on the way to the others. -/
theorem solve_free_unknowns_positive_zero :
    (∀ {n m : ℕ} {settings : Settings} {tol : Float} {A : DenseMatrix Float n m} {l : List Float}
        {s : Solution Float n m}, settings.toleranceFor Float = .ok tol → tol < 1 →
        solve settings A l = .ok s → ∀ f ∈ s.freeVariables, (s.x.get f).toBits = 0) ∧
      (∀ {n m : ℕ} {settings : Settings} {tol : Float32} {A : DenseMatrix Float32 n m}
        {l : List Float32} {s : Solution Float32 n m}, settings.toleranceFor Float32 = .ok tol →
        tol < 1 → solve settings A l = .ok s → ∀ f ∈ s.freeVariables, (s.x.get f).toBits = 0) ∧
      (defaultTolerance : Float) < 1 ∧ (defaultTolerance : Float32) < 1 := by
  refine ⟨?double, ?single, by decide +kernel, by decide +kernel⟩
  case double =>
    intro n m settings tol A l s htol hone h f hf
    have hzero : s.x.get f = 0 :=
      get_free_eq_zero htol (fun v _ => Floating.double.significant_div_self (by decide +kernel)
        (by decide +kernel) hone v) h hf
    rw [hzero]
    rfl
  case single =>
    intro n m settings tol A l s htol hone h f hf
    have hzero : s.x.get f = 0 :=
      get_free_eq_zero htol (fun v _ => Floating.single.significant_div_self (by decide +kernel)
        (by decide +kernel) hone v) h hf
    rw [hzero]
    rfl

/-- Here the free column of the first row ends as a NaN, which counts as significant; the row is
led by its pivot all the same. -/
theorem solve_free_unknowns_positive_zero_overflow :
    let A : DenseMatrix Float 2 3 := ⟨#v[#v[1e-9, 1e308, 0], #v[1e-9, 1e308, 1]]⟩
    let b : Vector Float 2 := #v[1, 2]
    let A' : DenseMatrix Float32 2 3 := ⟨#v[#v[1e-4, 3e38, 0], #v[1e-4, 3e38, 1]]⟩
    let b' : Vector Float32 2 := #v[1, 2]
    ∃ s s', solve .default A b.toList = .ok s ∧ solve .default A' b'.toList = .ok s' ∧
      (s.reduced 0 2).isNaN = true ∧ (s.x.get 0).isNaN = true ∧ (s'.x.get 0).isNaN = true ∧
      s.freeVariables = [2] ∧ s'.freeVariables = [2] ∧
      (∀ f ∈ s.freeVariables, (s.x.get f).toBits = 0) ∧
      ∀ f ∈ s'.freeVariables, (s'.x.get f).toBits = 0 := by
  intro A b A' b'
  have hrow : badZeroRow? .positiveRhs 1e-10 A b = none := by decide +kernel
  have hrow' : badZeroRow? .positiveRhs 1e-5 A' b' = none := by decide +kernel
  have hrank : ¬rank 1e-10 A < rank 1e-10 (A.augment b) := by decide +kernel
  have hrank' : ¬rank 1e-5 A' < rank 1e-5 (A'.augment b') := by decide +kernel
  have hvalid : validate A b.toList = .ok b :=
    validate_of_finite (by decide) (by decide) (by decide +kernel) (by decide +kernel)
  have hvalid' : validate A' b'.toList = .ok b' :=
    validate_of_finite (by decide) (by decide) (by decide +kernel) (by decide +kernel)
  have hsolve : solve .default A b.toList = .ok (solutionAt .firstNonZero 1e-10 A b) :=
    solve_of_rank_not_lt rfl hvalid hrow hrank
  have hsolve' : solve .default A' b'.toList = .ok (solutionAt .firstNonZero 1e-5 A' b') :=
    solve_of_rank_not_lt rfl hvalid' hrow' hrank'
  obtain ⟨hdouble, hsingle, htol, htol'⟩ := solve_free_unknowns_positive_zero
  exact ⟨_, _, hsolve, hsolve', by decide +kernel, by decide +kernel, by decide +kernel,
    by decide +kernel, by decide +kernel, hdouble rfl htol hsolve, hsingle rfl htol' hsolve'⟩

end LinearSystem
