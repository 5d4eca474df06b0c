import LinearSystem.Proofs.Independence
import LinearSystem.Proofs.Negligible
import LinearSystem.Proofs.Reduction.Bookkeeping

namespace LinearSystem

section Generic

variable {α : Type} [Scalar α] {n m : ℕ} {pivoting : PivotRule} {tol : α} {A : DenseMatrix α n m}
  {b : Vector α n}

theorem pivotColumns_solutionAt_eq_nil_iff :
    (solutionAt pivoting tol A b).pivotColumns = [] ↔ rank tol A = 0 := by
  have hnil : (solutionAt pivoting tol A b).pivotColumns = [] ↔
      (reduce pivoting tol (A.augment b)).pivots = [] := List.map_eq_nil_iff
  rw [hnil, pivots_reduce_eq_nil_iff, rank_eq_zero_iff]
  simp only [DenseMatrix.augment_castSucc]
  rfl

theorem length_pivotColumns_le_rows (pivoting : PivotRule) (tol : α) (A : DenseMatrix α n m)
    (b : Vector α n) :
    (solutionAt pivoting tol A b).pivotColumns.length ≤ n := by
  have hlen : (solutionAt pivoting tol A b).pivotColumns.length =
      (reduce pivoting tol (A.augment b)).pivots.length := List.length_map _
  rw [hlen]
  exact (reduce_ordered pivoting tol (A.augment b)).length_le

theorem length_pivotColumns_le_columns (pivoting : PivotRule) (tol : α) (A : DenseMatrix α n m)
    (b : Vector α n) :
    (solutionAt pivoting tol A b).pivotColumns.length ≤ m := by
  have hlen := Solution.length_pivotColumns_add_freeVariables
    (nodup_pivotColumns_solutionAt pivoting tol A b)
  omega

/-- Where there is room for one pivot only, elimination and reduction cannot count differently. -/
theorem rank_eq_length_of_thin (h : n = 1 ∨ m = 1) :
    rank tol A = (solutionAt pivoting tol A b).pivotColumns.length := by
  have hrows := rank_le_rows tol A
  have hcols := rank_le_columns tol A
  have hlenRows := length_pivotColumns_le_rows pivoting tol A b
  have hlenCols := length_pivotColumns_le_columns pivoting tol A b
  have hnone : (solutionAt pivoting tol A b).pivotColumns.length = 0 ↔ rank tol A = 0 := by
    rw [List.length_eq_zero_iff]
    exact pivotColumns_solutionAt_eq_nil_iff
  omega

theorem solvability_solutionAt_eq_iff (h : ¬rank tol A < rank tol (A.augment b)) :
    (solutionAt pivoting tol A b).solvability = (ranksAt tol A b).solvability ↔
      rank tol A = (solutionAt pivoting tol A b).pivotColumns.length := by
  have hrank := rank_le_columns tol A
  have hlen := length_pivotColumns_le_columns pivoting tol A b
  have hverdict : (ranksAt tol A b).solvability =
      if rank tol A < m then .underdetermined (m - rank tol A) else .unique := if_neg h
  rw [Solution.solvability_eq (nodup_pivotColumns_solutionAt pivoting tol A b), hverdict]
  split_ifs with hall hlt hlt
  · simp only [false_iff]
    omega
  · simp only [true_iff]
    omega
  · simp only [Solvability.underdetermined.injEq]
    omega
  · simp only [false_iff]
    omega

/-- Whatever counts as zero, a solved system is classified with the rank of its solution, and the
two verdicts differ only where that rank is not the number of pivots. The two numbers vanish
together, and with one equation or one unknown they are the same. -/
theorem solve_agrees_iff {settings : Settings} {l : List α} {s : Solution α n m}
    (h : solve settings A l = .ok s) :
    ∃ r, classify settings A l = .ok r ∧ r.matrix = s.rank ∧
      (s.solvability = r.solvability ↔ s.rank = s.pivotColumns.length) ∧
      (s.pivotColumns = [] ↔ s.rank = 0) ∧
      (n = 1 ∨ m = 1 → s.rank = s.pivotColumns.length) := by
  obtain ⟨tol, c, htol, hvalid, hsolve⟩ := solve_eq_ok_iff.mp h
  obtain ⟨-, hrank, rfl⟩ := solveAt_eq_ok_iff.mp hsolve
  exact ⟨ranksAt tol A c, classify_eq_ok_iff.mpr ⟨tol, c, htol, hvalid, rfl⟩, rfl,
    solvability_solutionAt_eq_iff hrank, pivotColumns_solutionAt_eq_nil_iff,
    rank_eq_length_of_thin⟩

end Generic

section Exact

variable {n m : ℕ}

theorem rank_toMatrix_le_length (pivoting : PivotRule) (A : DenseMatrix ℚ n m) (b : Vector ℚ n) :
    A.toMatrix.rank ≤ (solutionAt pivoting 0 A b).pivotColumns.length := by
  have hspan : A.columnSpan ≤ Submodule.span ℚ
      (Set.range fun k => A.column ((solutionAt pivoting 0 A b).pivotColumns.get k)) := by
    apply Submodule.span_le.mpr
    rintro v ⟨j, rfl⟩
    refine Submodule.span_mono ?_ (column_mem_span_pivots pivoting A b j)
    rintro w ⟨k, ⟨hk, -⟩, rfl⟩
    obtain ⟨p, hp, rfl⟩ := Reduction.not_free_iff.mp hk
    have hmem : p.col ∈ (solutionAt pivoting 0 A b).pivotColumns := List.mem_map_of_mem hp
    obtain ⟨place, hplace⟩ := List.get_of_mem hmem
    exact ⟨place, congrArg A.column hplace⟩
  have hcard := finrank_range_le_card (R := ℚ)
    fun k => A.column ((solutionAt pivoting 0 A b).pivotColumns.get k)
  rw [Fintype.card_fin] at hcard
  rw [DenseMatrix.rank_toMatrix]
  exact (Submodule.finrank_mono hspan).trans hcard

theorem rank_solutionAt_eq_length (pivoting : PivotRule) (A : DenseMatrix ℚ n m) (b : Vector ℚ n) :
    (solutionAt pivoting 0 A b).rank = (solutionAt pivoting 0 A b).pivotColumns.length :=
  calc (solutionAt pivoting 0 A b).rank = A.toMatrix.rank := rank_zero_eq_rank_toMatrix A
    _ = (solutionAt pivoting 0 A b).pivotColumns.length :=
      (rank_toMatrix_le_length pivoting A b).antisymm
        (independentColumns_solutionAt le_rfl A b).length_le_rank

end Exact

/-- How solving and classifying come to the same verdict: for every scalar exactly where the rank
is the number of pivots, and an exact run always finds as many pivots as the rank says. -/
theorem solve_rank_eq_pivot_count {n m : ℕ} :
    (∀ {α : Type} [Scalar α] {settings : Settings} {A : DenseMatrix α n m} {l : List α}
        {s : Solution α n m}, solve settings A l = .ok s →
        ∃ r, classify settings A l = .ok r ∧ r.matrix = s.rank ∧
          (s.solvability = r.solvability ↔ s.rank = s.pivotColumns.length) ∧
          (s.pivotColumns = [] ↔ s.rank = 0) ∧
          (n = 1 ∨ m = 1 → s.rank = s.pivotColumns.length)) ∧
      ∀ {pivoting : PivotRule} {zeroRows : ZeroRowRule} {A : DenseMatrix ℚ n m}
        {b : Vector ℚ n} {s : Solution ℚ n m},
        solve (Settings.exact pivoting zeroRows) A b.toList = .ok s →
        s.rank = s.pivotColumns.length ∧
          ∃ r, classify (Settings.exact pivoting zeroRows) A b.toList = .ok r ∧
            s.solvability = r.solvability := by
  refine ⟨solve_agrees_iff, ?_⟩
  intro pivoting zeroRows A b s h
  obtain ⟨r, hr, -, hverdict, -⟩ := solve_agrees_iff h
  have hrank : s.rank = s.pivotColumns.length := by
    obtain ⟨-, -, rfl⟩ := solveAt_eq_ok_iff.mp (solveAt_of_solve_exact h)
    exact rank_solutionAt_eq_length pivoting A b
  exact ⟨hrank, r, hr, hverdict.mpr hrank⟩

/-- Two nearly parallel equations: exact arithmetic keeps them apart, and with floats the verdicts
differ as the rank and the number of pivots do. -/
theorem solve_rank_eq_pivot_count_nearly_parallel :
    let A : DenseMatrix ℚ 2 3 := ⟨#v[#v[0, 1024, 1], #v[0, 1024 + 1 / 134217728, 1]]⟩
    let b : Vector ℚ 2 := #v[1, 0]
    let A' : DenseMatrix Float 2 3 := ⟨#v[#v[0, 1024, 1], #v[0, 1024 + 1 / 134217728, 1]]⟩
    let b' : Vector Float 2 := #v[1, 0]
    (∃ s, solve (Settings.exact .firstNonZero .symmetric) A b.toList = .ok s ∧
      s.pivotColumns = [1, 2] ∧ s.rank = s.pivotColumns.length ∧
      ∃ r, classify (Settings.exact .firstNonZero .symmetric) A b.toList = .ok r ∧
        s.solvability = r.solvability) ∧
      ∃ s r, solve .default A' b'.toList = .ok s ∧ classify .default A' b'.toList = .ok r ∧
        r.matrix = 2 ∧ s.pivotColumns = [1] ∧ ¬s.solvability = r.solvability := by
  intro A b A' b'
  have hrow : badZeroRow? .symmetric 0 A b = none := by decide +kernel
  have hrank : ¬rank 0 A < rank 0 (A.augment b) := by decide +kernel
  have hvalid : validate A b.toList = .ok b := validate_rational (by decide) (by decide) A b
  have hsolve :=
    solve_of_rank_not_lt (toleranceFor_exact .firstNonZero .symmetric) hvalid hrow hrank
  have hrow' : badZeroRow? .positiveRhs 1e-10 A' b' = none := by decide +kernel
  have hrank' : ¬rank 1e-10 A' < rank 1e-10 (A'.augment b') := by decide +kernel
  have hvalid' : validate A' b'.toList = .ok b' :=
    validate_of_finite (by decide) (by decide) (by decide +kernel) (by decide +kernel)
  have hsolve' : solve .default A' b'.toList = .ok (solutionAt .firstNonZero 1e-10 A' b') :=
    solve_of_rank_not_lt rfl hvalid' hrow' hrank'
  have htwo : (solutionAt .firstNonZero 1e-10 A' b').rank = 2 := by decide +kernel
  have hpivots : (solutionAt .firstNonZero 1e-10 A' b').pivotColumns = [1] := by decide +kernel
  obtain ⟨r, hr, hmatrix, hverdict, -⟩ := solve_rank_eq_pivot_count.1 hsolve'
  refine ⟨⟨_, hsolve, by decide +kernel, solve_rank_eq_pivot_count.2 hsolve⟩, _, r, hsolve', hr,
    hmatrix.trans htwo, hpivots, fun hsame => ?_⟩
  have hcount := hverdict.mp hsame
  rw [htwo, hpivots] at hcount
  cases hcount

/-- The same equations in floats, whose differences are exact here: elimination brings the last
column forward and sees a pivot of `2 ^ -27`, reduction divides by 1024 first and sees one of
`2 ^ -37`, which counts as zero. The answer has rank two, one pivot, and misses the second
equation by more than one. -/
theorem solve_rank_ne_pivot_count :
    let A : DenseMatrix Float 2 3 := ⟨#v[#v[0, 1024, 1], #v[0, 1024 + 1 / 134217728, 1]]⟩
    let b : Vector Float 2 := #v[1, 0]
    ∃ s r, solve .default A b.toList = .ok s ∧ classify .default A b.toList = .ok r ∧
      s.rank = 2 ∧ s.pivotColumns = [1] ∧ s.solvability = .underdetermined 2 ∧
      r.solvability = .underdetermined 1 ∧ 1 < s.residual := by
  intro A b
  have hvalid : validate A b.toList = .ok b :=
    validate_of_finite (by decide) (by decide) (by decide +kernel) (by decide +kernel)
  have hrow : badZeroRow? .positiveRhs 1e-10 A b = none := by decide +kernel
  have hrank : ¬rank 1e-10 A < rank 1e-10 (A.augment b) := by decide +kernel
  refine ⟨solutionAt .firstNonZero 1e-10 A b, ranksAt 1e-10 A b,
    solve_of_rank_not_lt rfl hvalid hrow hrank,
    classify_eq_ok_iff.mpr ⟨1e-10, b, rfl, hvalid, rfl⟩, ?_, ?_, ?_, ?_, ?_⟩
  all_goals decide +kernel

end LinearSystem
