import LinearSystem.Proofs.Exact
import LinearSystem.Proofs.Reduction.BackSubstitution
import LinearSystem.Proofs.Tolerance

namespace LinearSystem

open Scalar

variable {n m : ℕ}

namespace Reduction

variable {tol : ℚ} {s : Reduction ℚ n m}

/-- A tolerance of one or more hides the pivots, which reduction has made ones: a row is then led
by a coefficient to the right of its pivot, if by any. -/
theorem Settled.free_of_leadingColumn (hs : s.Settled tol m) (htol : 1 ≤ tol) {i : Fin n}
    {c : Fin m} (h : leadingColumn? tol s.entries i = some c) : s.Free c := by
  rintro p hp rfl
  have hsig := Rational.significant_iff.mp (leadingColumn?_eq_some_iff.mp h).1
  rw [hs.unit p hp] at hsig
  split_ifs at hsig
  · rw [abs_one] at hsig
    exact htol.not_gt hsig
  · rw [abs_zero] at hsig
    exact (zero_le_one.trans htol).not_gt hsig

theorem Settled.backSubstitute_pivot_of_coarse (hs : s.Settled tol m) (htol : 1 ≤ tol)
    {p : Pivot n m} (hp : p ∈ s.pivots) : (backSubstitute tol s.entries).get p.col = 0 :=
  backSubstitute_get_of_not_leading fun _ hlead => hs.free_of_leadingColumn htol hlead p hp rfl

/-- Pivot rows without a right-hand side are solved by zero, whatever leads them. -/
theorem Settled.backSubstitute_eq_zero (hs : s.Settled tol m)
    (hzero : ∀ p ∈ s.pivots, s.entries p.row (Fin.last m) = 0) (j : Fin m) :
    (backSubstitute tol s.entries).get j = 0 := by
  revert j
  refine backSubstitute_invariant (P := fun _ x => ∀ j, x.get j = 0) (fun i rows x hx j => ?_)
    fun j => Vector.getElem_replicate j.isLt
  cases hlead : leadingColumn? tol s.entries i with
  | none => rw [solveRow_of_none hlead, hx]
  | some c =>
    have hused : ¬s.used i = false := fun hi => by
      simp [hs.leadingColumn_unused hi] at hlead
    obtain ⟨p, hp, rfl⟩ := exists_pivot_of_used hused
    rw [solveRow_of_some hlead]
    simp only [hx, hzero p hp, mul_zero, Finset.sum_const_zero, sub_zero, ite_self]

end Reduction

/-- Each pivot unknown is read off the row its pivot was found in, and the free unknowns are
zero. -/
def Solution.ReadsPivots (s : Solution ℚ n m) : Prop :=
  (∀ p ∈ s.pivots, s.x.get p.col = s.reduced p.row (Fin.last m)) ∧
    ∀ f ∈ s.freeVariables, s.x.get f = 0

variable {settings : Settings} {tol : ℚ} {A : DenseMatrix ℚ n m} {b : Vector ℚ n}
  {s : Solution ℚ n m}

/-- Below a tolerance of one, the answer is read off at the pivots that reduction chose. From one
on no pivot unknown is ever set, so that only pivot rows with right-hand side zero are read
correctly. -/
theorem solve_readsPivots_iff (htol : settings.toleranceFor ℚ = .ok tol)
    (h : solve settings A b.toList = .ok s) :
    (tol < 1 → s.ReadsPivots) ∧
      (1 ≤ tol → (∀ p ∈ s.pivots, s.x.get p.col = 0) ∧
        (s.ReadsPivots ↔ ∀ p ∈ s.pivots, s.reduced p.row (Fin.last m) = 0)) := by
  obtain ⟨-, hsolve⟩ := (solve_rational_eq_ok_iff htol).mp h
  obtain ⟨-, -, rfl⟩ := solveAt_eq_ok_iff.mp hsolve
  have hs : (reduce settings.pivoting tol (A.augment b)).Settled tol m :=
    reduce_settled (toleranceFor_nonneg htol) _
  constructor
  · intro hfine
    refine ⟨fun p hp => hs.backSubstitute_pivot hfine hp, fun f hf => ?_⟩
    exact hs.backSubstitute_free hfine (Solution.mem_freeVariables.mp hf)
  · intro hcoarse
    have hpivot : ∀ p ∈ (solutionAt settings.pivoting tol A b).pivots,
        (solutionAt settings.pivoting tol A b).x.get p.col = 0 :=
      fun p hp => hs.backSubstitute_pivot_of_coarse hcoarse hp
    refine ⟨hpivot, fun hreads p hp => ?_, fun hzero => ?_⟩
    · rw [← hreads.1 p hp, hpivot p hp]
    · refine ⟨fun p hp => ?_, fun f _ => hs.backSubstitute_eq_zero hzero f⟩
      rw [hpivot p hp, hzero p hp]

/-- The first unknown is free, and its small coefficients stay to the left of both pivots. -/
theorem solve_readsPivots_iff_small_coefficients :
    let settings : Settings := ⟨some 0.5, .largestMagnitude, .positiveRhs⟩
    let A : DenseMatrix ℚ 2 3 := ⟨#v[#v[1 / 4, 1, 3], #v[1 / 2, 4, 2]]⟩
    let b : Vector ℚ 2 := #v[1, 0]
    ∃ s, solve settings A b.toList = .ok s ∧ s.pivots = [⟨1, 1⟩, ⟨0, 2⟩] ∧
      s.reduced 1 0 ≠ 0 ∧ s.ReadsPivots := by
  intro settings A b
  have htol : settings.toleranceFor ℚ = .ok (1 / 2) :=
    toleranceFor_of_valid (by decide) (by decide +kernel)
  have hrow : badZeroRow? .positiveRhs (1 / 2) A b = none := by decide +kernel
  have hrank : ¬rank (1 / 2) A < rank (1 / 2) (A.augment b) := by decide +kernel
  have hsolve : solve settings A b.toList = .ok (solutionAt .largestMagnitude (1 / 2) A b) :=
    solve_of_rank_not_lt htol (validate_rational (by decide) (by decide) A b) hrow hrank
  have hreads := (solve_readsPivots_iff htol hsolve).1 (by norm_num)
  exact ⟨_, hsolve, by decide +kernel, by decide +kernel, hreads⟩

/-- At a tolerance of one, `2 x + 10 y = 4` is reduced to `x + 5 y = 2` with its pivot in the first
column, and then read as if the second unknown led the row: the answer `x = 0`, `y = 2` leaves a
residual of 16 and gives a value to the free unknown. -/
theorem solve_overlooks_pivot :
    let settings : Settings := ⟨some 1, .firstNonZero, .positiveRhs⟩
    let A : DenseMatrix ℚ 1 2 := ⟨#v[#v[2, 10]]⟩
    let b : Vector ℚ 1 := #v[4]
    ∃ s, solve settings A b.toList = .ok s ∧ s.pivots = [⟨0, 0⟩] ∧ s.reduced 0 2 = 2 ∧
      s.x.get 0 = 0 ∧ s.freeVariables = [1] ∧ s.x.get 1 = 2 ∧ s.residual = 16 ∧
      ¬s.ReadsPivots := by
  intro settings A b
  have htol : settings.toleranceFor ℚ = .ok 1 :=
    toleranceFor_of_valid (by decide) (by decide +kernel)
  have hrow : badZeroRow? .positiveRhs 1 A b = none := by decide +kernel
  have hrank : ¬rank 1 A < rank 1 (A.augment b) := by decide +kernel
  have hsolve : solve settings A b.toList = .ok (solutionAt .firstNonZero 1 A b) :=
    solve_of_rank_not_lt htol (validate_rational (by decide) (by decide) A b) hrow hrank
  have hfree : (solutionAt .firstNonZero 1 A b).freeVariables = [1] := by decide +kernel
  have hvalue : (solutionAt .firstNonZero 1 A b).x.get 1 = 2 := by decide +kernel
  refine ⟨_, hsolve, by decide +kernel, by decide +kernel, by decide +kernel, hfree, hvalue,
    by decide +kernel, fun hreads => ?_⟩
  have hzero := hreads.2 1 (by rw [hfree]; exact List.mem_singleton_self 1)
  rw [hvalue] at hzero
  exact two_ne_zero hzero

end LinearSystem
