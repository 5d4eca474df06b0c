import LinearSystem.Proofs.Reduction.BackSubstitution
import LinearSystem.Proofs.Residual
import LinearSystem.Proofs.Solvability
import LinearSystem.Proofs.Solver

namespace LinearSystem

variable {n m : ℕ} {pivoting : PivotRule} {A : DenseMatrix ℚ n m} {b : Vector ℚ n}

theorem satisfies_reduced (y : Fin m → ℚ) :
    Satisfies (solutionAt pivoting 0 A b).reduced y ↔ Solves A b y :=
  (satisfies_reduce pivoting (A.augment b) y).trans satisfies_augment

/-- In a solvable system the free unknowns determine the others. -/
theorem solves_iff_eq_completion (hsol : ∃ z, Solves A b z) {v y : Fin m → ℚ}
    (hv : ∀ f ∈ (solutionAt pivoting 0 A b).freeVariables, y f = v f) :
    Solves A b y ↔ y = (reduce pivoting 0 (A.augment b)).completion v := by
  obtain ⟨z, hz⟩ := hsol
  have hreduced : Satisfies (reduce pivoting 0 (A.augment b)).entries z :=
    (satisfies_reduced z).mpr hz
  have hcompletion := (reduce_settled le_rfl _).satisfies_iff_eq_completion ⟨z, hreduced⟩
    fun j hj => hv j (Solution.mem_freeVariables.mpr hj)
  exact (satisfies_reduced y).symm.trans hcompletion

theorem solutionAt_free {j : Fin m} (hj : j ∈ (solutionAt pivoting 0 A b).freeVariables) :
    (solutionAt pivoting 0 A b).x.get j = 0 :=
  (reduce_settled le_rfl _).backSubstitute_free zero_lt_one (Solution.mem_freeVariables.mp hj)

/-- The solution read off is the one whose free unknowns are all zero. -/
theorem solutionAt_x : (solutionAt pivoting 0 A b).x.get =
    (reduce pivoting 0 (A.augment b)).completion 0 := by
  have hs : (reduce pivoting 0 (A.augment b)).Settled 0 m := reduce_settled le_rfl _
  funext j
  by_cases hj : (reduce pivoting 0 (A.augment b)).Free j
  · rw [Reduction.completion_of_free hj]
    exact hs.backSubstitute_free zero_lt_one hj
  · obtain ⟨p, hp, rfl⟩ := Reduction.not_free_iff.mp hj
    rw [hs.completion_pivot hp]
    simp only [Pi.zero_apply, mul_zero, Finset.sum_const_zero, sub_zero]
    exact hs.backSubstitute_pivot zero_lt_one hp

theorem solves_solutionAt (hsol : ∃ z, Solves A b z) :
    Solves A b (solutionAt pivoting 0 A b).x.get :=
  (solves_iff_eq_completion hsol fun _ hf => solutionAt_free hf).mpr solutionAt_x

/-- A solved system is described completely: the solution found, the family of all solutions
over the free unknowns, and the reduced equations that say the same as the original ones. -/
theorem solve_describes_solutions {zeroRows : ZeroRowRule} {s : Solution ℚ n m}
    (h : solve (Settings.exact pivoting zeroRows) A b.toList = .ok s) :
    Solves A b s.x.get ∧ s.residual = 0 ∧ (∀ f ∈ s.freeVariables, s.x.get f = 0) ∧
      (∀ v : Fin m → ℚ, ∃! y, (∀ f ∈ s.freeVariables, y f = v f) ∧ Solves A b y) ∧
      ∀ y, Solves A b y ↔ Satisfies s.reduced y := by
  obtain ⟨-, hrank, rfl⟩ := solveAt_eq_ok_iff.mp (solveAt_of_solve_exact h)
  have hsol : ∃ z, Solves A b z := solvable_iff_ranksAt.mpr hrank
  have hx : Solves A b (solutionAt pivoting 0 A b).x.get := solves_solutionAt hsol
  refine ⟨hx, residual_eq_zero hx, fun f hf => solutionAt_free hf, fun v => ?_,
    fun y => (satisfies_reduced y).symm⟩
  refine ⟨(reduce pivoting 0 (A.augment b)).completion v, ⟨?_, ?_⟩, ?_⟩
  · exact fun f hf => Reduction.completion_of_free (Solution.mem_freeVariables.mp hf)
  · exact (solves_iff_eq_completion hsol fun f hf =>
      Reduction.completion_of_free (Solution.mem_freeVariables.mp hf)).mpr rfl
  · intro y h
    obtain ⟨hy, hsolves⟩ := h
    exact (solves_iff_eq_completion hsol hy).mp hsolves

/-- Two equations in three unknowns, the second of them redundant, leave a family with two free
unknowns. -/
theorem solve_describes_solutions_plane :
    let A : DenseMatrix ℚ 2 3 := ⟨#v[#v[0, 1, 2], #v[0, 2, 4]]⟩
    let b : Vector ℚ 2 := #v[1, 2]
    ∃ s, solve (Settings.exact .largestMagnitude .symmetric) A b.toList = .ok s ∧
      s.freeVariables = [0, 2] ∧ Solves A b s.x.get ∧
      ∃! y, (∀ f ∈ s.freeVariables, y f = 3) ∧ Solves A b y := by
  intro A b
  have hrow : badZeroRow? .symmetric 0 A b = none := by decide +kernel
  have hrank : ¬rank 0 A < rank 0 (A.augment b) := by decide +kernel
  have hsolve := solve_exact (by decide) (by decide) A b .largestMagnitude .symmetric
  rw [solveAt_of_rank_not_lt hrow hrank] at hsolve
  obtain ⟨hx, -, -, hfamily, -⟩ := solve_describes_solutions hsolve
  exact ⟨_, hsolve, by decide +kernel, hx, hfamily fun _ => 3⟩

end LinearSystem
