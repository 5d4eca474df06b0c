import LinearSystem.Proofs.Exact
import LinearSystem.Proofs.Solvability
import LinearSystem.Proofs.Solver

namespace LinearSystem

open Scalar

variable {n m : ℕ}

def DenseMatrix.IsZeroRow (A : DenseMatrix ℚ n m) (i : Fin n) : Prop := ∀ j, A i j = 0

instance (A : DenseMatrix ℚ n m) : DecidablePred A.IsZeroRow :=
  fun i => inferInstanceAs (Decidable (∀ j, A i j = 0))

theorem Solves.eq_zero_of_isZeroRow {A : DenseMatrix ℚ n m} {b : Vector ℚ n} {y : Fin m → ℚ}
    (hy : Solves A b y) {i : Fin n} (hi : A.IsZeroRow i) : b.get i = 0 := by
  rw [← hy i]
  exact Finset.sum_eq_zero fun j _ => by rw [hi j, zero_mul]

/-- At tolerance zero a right-hand side of zero counts as large enough to be rejected. -/
theorem rejects_zero (rule : ZeroRowRule) : rule.rejects (0 : ℚ) 0 = true := by
  cases rule <;> decide

/-- In a solvable system the early check rejects the zero rows. -/
theorem badZeroRow_iff_isZeroRow {A : DenseMatrix ℚ n m} {b : Vector ℚ n}
    (hsol : ∃ y, Solves A b y) (zeroRows : ZeroRowRule) (i : Fin n) :
    BadZeroRow zeroRows 0 A b i ↔ A.IsZeroRow i := by
  have hzero : (∀ j, atMost (magnitude (A i j)) 0 = true) ↔ A.IsZeroRow i :=
    forall_congr' fun _ => Rational.negligible_zero_iff
  obtain ⟨y, hy⟩ := hsol
  rw [BadZeroRow, hzero]
  constructor
  · exact fun h => h.1
  · intro hi
    refine ⟨hi, ?_⟩
    rw [hy.eq_zero_of_isZeroRow hi]
    exact rejects_zero zeroRows

theorem badZeroRow?_eq_none_iff_of_solvable {A : DenseMatrix ℚ n m} {b : Vector ℚ n}
    (hsol : ∃ y, Solves A b y) {zeroRows : ZeroRowRule} :
    badZeroRow? zeroRows 0 A b = none ↔ ¬∃ i, A.IsZeroRow i := by
  simp only [badZeroRow?_eq_none_iff, badZeroRow_iff_isZeroRow hsol, not_exists]

theorem badZeroRow?_of_first_zeroRow {A : DenseMatrix ℚ n m} {b : Vector ℚ n}
    (hsol : ∃ y, Solves A b y) (zeroRows : ZeroRowRule) {i : Fin n} (hi : A.IsZeroRow i)
    (hfirst : ∀ k < i, ¬A.IsZeroRow k) : badZeroRow? zeroRows 0 A b = some i := by
  simp only [badZeroRow?_eq_some_iff, badZeroRow_iff_isZeroRow hsol]
  exact ⟨hi, hfirst⟩

variable {pivoting : PivotRule} {zeroRows : ZeroRowRule} {A : DenseMatrix ℚ n m} {b : Vector ℚ n}

theorem solveAt_ok_iff :
    (∃ s, solveAt pivoting zeroRows 0 A b = .ok s) ↔
      (∃ y, Solves A b y) ∧ ¬∃ i, A.IsZeroRow i := by
  constructor
  · intro h
    obtain ⟨s, hs⟩ := h
    obtain ⟨hrow, hrank, -⟩ := solveAt_eq_ok_iff.mp hs
    have hsol : ∃ y, Solves A b y := solvable_iff_ranksAt.mpr hrank
    exact ⟨hsol, (badZeroRow?_eq_none_iff_of_solvable hsol).mp hrow⟩
  · intro h
    obtain ⟨hsol, hrow⟩ := h
    exact ⟨_, solveAt_of_rank_not_lt ((badZeroRow?_eq_none_iff_of_solvable hsol).mpr hrow)
      (solvable_iff_ranksAt.mp hsol)⟩

/-- What is not solved is reported as having no solution. -/
theorem solveAt_error_iff :
    (∃ e, solveAt pivoting zeroRows 0 A b = .error e ∧ e.isNoSolution = true) ↔
      ¬∃ s, solveAt pivoting zeroRows 0 A b = .ok s := by
  cases h : solveAt pivoting zeroRows 0 A b with
  | ok s => simp
  | error e => simp [isNoSolution_of_solveAt_error h]

/-- A solvable system that has a zero row is turned away, with the first such row as reason. -/
theorem solve_of_first_zeroRow (hn : 0 < n) (hm : 0 < m) (hsol : ∃ y, Solves A b y) {i : Fin n}
    (hi : A.IsZeroRow i) (hfirst : ∀ k < i, ¬A.IsZeroRow k) :
    solve (Settings.exact pivoting zeroRows) A b.toList = .error (.zeroRow i 0) := by
  have hwiden : widen (0 : ℚ) = 0 := by decide
  have hbad := badZeroRow?_of_first_zeroRow hsol zeroRows hi hfirst
  obtain ⟨y, hy⟩ := hsol
  rw [solve_exact hn hm, solveAt_of_zeroRow hbad, hy.eq_zero_of_isZeroRow hi, hwiden]

/-- The zero row asks for nothing, and the system is still turned away. -/
theorem solve_refuses_redundant_zeroRow :
    let A : DenseMatrix ℚ 3 2 := ⟨#v[#v[1, 1], #v[0, 0], #v[1, -1]]⟩
    let b : Vector ℚ 3 := #v[3, 0, 1]
    Solves A b ![2, 1] ∧
      solve (Settings.exact .firstNonZero .positiveRhs) A b.toList = .error (.zeroRow 1 0) ∧
      (SolveError.zeroRow 1 0).isNoSolution = true := by
  intro A b
  have hsolves : Solves A b ![2, 1] := by decide +kernel
  have hrow : A.IsZeroRow 1 := by decide +kernel
  have hfirst : ∀ k < 1, ¬A.IsZeroRow k := by decide +kernel
  exact ⟨hsolves, solve_of_first_zeroRow (by decide) (by decide) ⟨_, hsolves⟩ hrow hfirst, rfl⟩

/-- An exact run solves the solvable systems without a zero row, and no others. -/
theorem solve_accepts_solvable_iff_no_zeroRow (hn : 0 < n) (hm : 0 < m) :
    ((∃ s, solve (Settings.exact pivoting zeroRows) A b.toList = .ok s) ↔
      (∃ y, Solves A b y) ∧ ¬∃ i, A.IsZeroRow i) ∧
    ((∃ e, solve (Settings.exact pivoting zeroRows) A b.toList = .error e ∧
        e.isNoSolution = true) ↔
      (¬∃ y, Solves A b y) ∨ ∃ i, A.IsZeroRow i) := by
  rw [solve_exact hn hm, solveAt_error_iff, solveAt_ok_iff, not_and_or, not_not]
  exact ⟨Iff.rfl, Iff.rfl⟩

/-- A redundant equation that is not all zero does no harm. -/
theorem solve_accepts_repeated_equation :
    let A : DenseMatrix ℚ 2 2 := ⟨#v[#v[1, 2], #v[2, 4]]⟩
    let b : Vector ℚ 2 := #v[3, 6]
    0 < 2 ∧ Solves A b ![3, 0] ∧ (¬∃ i, A.IsZeroRow i) ∧
      ∃ s, solve (Settings.exact .largestMagnitude .symmetric) A b.toList = .ok s := by
  intro A b
  have hsolves : Solves A b ![3, 0] := by decide +kernel
  have hrow : ¬∃ i, A.IsZeroRow i := by decide +kernel
  have haccepts : (∃ s, solve (Settings.exact .largestMagnitude .symmetric) A b.toList = .ok s) ↔
      (∃ y, Solves A b y) ∧ ¬∃ i, A.IsZeroRow i :=
    (solve_accepts_solvable_iff_no_zeroRow (by decide) (by decide)).1
  exact ⟨by decide, hsolves, hrow, haccepts.mpr ⟨⟨_, hsolves⟩, hrow⟩⟩

end LinearSystem
