import LinearSystem.Proofs.Exact
import LinearSystem.Proofs.Rank

namespace LinearSystem

variable {n m : ℕ}

/-- The rank comparison decides whether there is a solution. -/
theorem solvable_iff_ranksAt {A : DenseMatrix ℚ n m} {b : Vector ℚ n} :
    (∃ y, Solves A b y) ↔ ¬(ranksAt 0 A b).matrix < (ranksAt 0 A b).augmented := by
  rw [not_lt, solvable_iff_rank_augment_le]
  simp only [ranksAt, rank_zero_eq_rank_toMatrix]

/-- Every unknown beyond the rank is a dimension of the null space. -/
theorem ranksAt_matrix_add_finrank (A : DenseMatrix ℚ n m) (b : Vector ℚ n) :
    (ranksAt 0 A b).matrix + Module.finrank ℚ A.nullSpace = m := by
  simp only [ranksAt, rank_zero_eq_rank_toMatrix, A.finrank_nullSpace]

theorem solvability_of_not_solvable {A : DenseMatrix ℚ n m} {b : Vector ℚ n}
    (h : ¬∃ y, Solves A b y) : (ranksAt 0 A b).solvability = .inconsistent :=
  if_pos (not_not.mp fun hlt => h (solvable_iff_ranksAt.mpr hlt))

theorem solvability_of_solvable {A : DenseMatrix ℚ n m} {b : Vector ℚ n}
    (h : ∃ y, Solves A b y) :
    (ranksAt 0 A b).solvability =
      if Module.finrank ℚ A.nullSpace = 0 then .unique
      else .underdetermined (Module.finrank ℚ A.nullSpace) := by
  have hdim := ranksAt_matrix_add_finrank A b
  have hunknowns : (ranksAt 0 A b).unknowns = m := rfl
  rw [Ranks.solvability, if_neg (solvable_iff_ranksAt.mp h)]
  split_ifs with hlt hz hz
  · omega
  · congr 1
    omega
  · rfl
  · omega

/-- A classification says whether a system has no solution, exactly one, or a family of them of
a stated dimension. -/
theorem classify_decides_solvability (hn : 0 < n) (hm : 0 < m) (A : DenseMatrix ℚ n m)
    (b : Vector ℚ n) (pivoting : PivotRule) (zeroRows : ZeroRowRule) :
    ∃ r, classify (Settings.exact pivoting zeroRows) A b.toList = .ok r ∧
      (r.solvability = .inconsistent ↔ ¬∃ y, Solves A b y) ∧
      (r.solvability = .unique ↔ ∃! y, Solves A b y) ∧
      ∀ k, r.solvability = .underdetermined k ↔
        (∃ y, Solves A b y) ∧ Module.finrank ℚ A.nullSpace = k ∧ 0 < k := by
  refine ⟨ranksAt 0 A b, classify_exact hn hm A b pivoting zeroRows, ?_⟩
  rw [existsUnique_solves_iff]
  by_cases h : ∃ y, Solves A b y
  · rw [solvability_of_solvable h]
    split_ifs with hz
    · refine ⟨by simp [h], by simp [h, hz], fun k => ?_⟩
      simp only [false_iff, hz]
      omega
    · refine ⟨by simp [h], by simp [h, hz], fun k => ?_⟩
      simp only [Solvability.underdetermined.injEq, h, true_and]
      omega
  · rw [solvability_of_not_solvable h]
    simp [h]

/-- Two equations for the same plane leave a family of dimension two. -/
theorem classify_decides_solvability_same_plane :
    let A : DenseMatrix ℚ 2 3 := ⟨#v[#v[0, 1, 2], #v[0, 2, 4]]⟩
    let b : Vector ℚ 2 := #v[1, 2]
    0 < 2 ∧ 0 < 3 ∧ classify (Settings.exact .firstNonZero .symmetric) A b.toList = .ok ⟨1, 1, 3⟩ ∧
      (∃ y, Solves A b y) ∧ Module.finrank ℚ A.nullSpace = 2 := by
  intro A b
  have hranks : ranksAt 0 A b = ⟨1, 1, 3⟩ := by decide +kernel
  have hclass := classify_exact (by decide) (by decide) A b .firstNonZero .symmetric
  rw [hranks] at hclass
  obtain ⟨r, hr, -, -, hfamily⟩ :=
    classify_decides_solvability (by decide) (by decide) A b .firstNonZero .symmetric
  obtain rfl : r = ⟨1, 1, 3⟩ := Except.ok.inj (hr.symm.trans hclass)
  obtain ⟨hsol, hdim, -⟩ := (hfamily 2).mp rfl
  exact ⟨by decide, by decide, hclass, hsol, hdim⟩

end LinearSystem
