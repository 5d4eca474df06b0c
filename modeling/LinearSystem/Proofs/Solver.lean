import LinearSystem.Solver

namespace LinearSystem

open Scalar

section Generic

variable {α : Type} [Scalar α] {n m : Nat}

/-- The answer to a system that passed both checks. -/
def solutionAt (pivoting : PivotRule) (tol : α) (A : DenseMatrix α n m) (b : Vector α n) :
    Solution α n m :=
  let r := reduce pivoting tol (A.augment b)
  let x := backSubstitute tol r.entries
  ⟨x, rank tol A, r.pivots, r.entries, residual A.toLists x.toList b.toList⟩

variable {pivoting : PivotRule} {zeroRows : ZeroRowRule} {tol : α} {A : DenseMatrix α n m}
  {b : Vector α n}

/-- A row of coefficients that count as zero, with a right-hand side that the rule rejects. -/
def BadZeroRow (rule : ZeroRowRule) (tol : α) (A : DenseMatrix α n m) (b : Vector α n)
    (i : Fin n) : Prop :=
  (∀ j, atMost (magnitude (A i j)) tol = true) ∧ rule.rejects tol (b.get i) = true

theorem badZeroRow?_eq_some_iff {i : Fin n} :
    badZeroRow? zeroRows tol A b = some i ↔
      BadZeroRow zeroRows tol A b i ∧ ∀ k < i, ¬BadZeroRow zeroRows tol A b k := by
  have htest : ∀ k, ((List.finRange m).all (fun j => negligible tol (A k j)) &&
      zeroRows.rejects tol (b.get k)) = true ↔ BadZeroRow zeroRows tol A b k := by
    intro k
    simp [BadZeroRow, negligible]
  rw [badZeroRow?, List.find?_eq_some_iff_getElem, htest]
  simp only [List.getElem_finRange, Bool.not_eq_true', ← Bool.not_eq_true, htest]
  refine and_congr_right fun _ => ⟨?_, fun hfirst => ⟨i, by simp, by simp, fun k hk => ?_⟩⟩
  · rintro ⟨p, hp, rfl, hfirst⟩ k hk
    exact hfirst k hk
  · exact hfirst ⟨k, by omega⟩ hk

theorem badZeroRow?_eq_none_iff :
    badZeroRow? zeroRows tol A b = none ↔ ∀ i, ¬BadZeroRow zeroRows tol A b i := by
  simp [badZeroRow?, List.find?_eq_none, BadZeroRow, negligible]

theorem solveAt_of_zeroRow {i : Fin n} (h : badZeroRow? zeroRows tol A b = some i) :
    solveAt pivoting zeroRows tol A b = .error (.zeroRow i (widen (b.get i))) := by
  simp only [solveAt, h]

theorem solveAt_of_rank_lt (h : badZeroRow? zeroRows tol A b = none)
    (hrank : rank tol A < rank tol (A.augment b)) :
    solveAt pivoting zeroRows tol A b =
      .error (.inconsistent (rank tol A) (rank tol (A.augment b)) (diagnose A b)) := by
  simp only [solveAt, h, ranksAt]
  exact if_pos hrank

theorem solveAt_of_rank_not_lt (h : badZeroRow? zeroRows tol A b = none)
    (hrank : ¬rank tol A < rank tol (A.augment b)) :
    solveAt pivoting zeroRows tol A b = .ok (solutionAt pivoting tol A b) := by
  simp only [solveAt, h, ranksAt]
  exact if_neg hrank

/-- A system is solved exactly when no zero row is rejected and the ranks agree. -/
theorem solveAt_eq_ok_iff {s : Solution α n m} :
    solveAt pivoting zeroRows tol A b = .ok s ↔
      badZeroRow? zeroRows tol A b = none ∧ ¬rank tol A < rank tol (A.augment b) ∧
        s = solutionAt pivoting tol A b := by
  cases h : badZeroRow? zeroRows tol A b with
  | some i => simp [solveAt_of_zeroRow h]
  | none =>
    by_cases hrank : rank tol A < rank tol (A.augment b)
    · simp [solveAt_of_rank_lt h hrank, hrank]
    · simp [solveAt_of_rank_not_lt h hrank, hrank, eq_comm]

/-- A well-formed system can only be refused for having no solution. -/
theorem isNoSolution_of_solveAt_error {e : SolveError}
    (he : solveAt pivoting zeroRows tol A b = .error e) : e.isNoSolution = true := by
  cases h : badZeroRow? zeroRows tol A b with
  | some i =>
    rw [solveAt_of_zeroRow h] at he
    cases he
    rfl
  | none =>
    by_cases hrank : rank tol A < rank tol (A.augment b)
    · rw [solveAt_of_rank_lt h hrank] at he
      cases he
      rfl
    · rw [solveAt_of_rank_not_lt h hrank] at he
      cases he

end Generic

section Accepted

variable {α : Type} [Scalar α] {n m : Nat} {settings : Settings} {A : DenseMatrix α n m}
  {l : List α}

/-- What was solved passed every check before. -/
theorem solve_eq_ok_iff {s : Solution α n m} :
    solve settings A l = .ok s ↔ ∃ tol b, settings.toleranceFor α = .ok tol ∧
      validate A l = .ok b ∧ solveAt settings.pivoting settings.zeroRows tol A b = .ok s := by
  unfold solve
  cases settings.toleranceFor α with
  | error e => simp [bind, Except.bind]
  | ok tol =>
    cases validate A l with
    | error e => simp [bind, Except.bind]
    | ok b => simp [bind, Except.bind]

theorem solve_of_rank_not_lt {tol : α} {b : Vector α n} (htol : settings.toleranceFor α = .ok tol)
    (hvalid : validate A l = .ok b) (hrow : badZeroRow? settings.zeroRows tol A b = none)
    (hrank : ¬rank tol A < rank tol (A.augment b)) :
    solve settings A l = .ok (solutionAt settings.pivoting tol A b) :=
  solve_eq_ok_iff.mpr ⟨tol, b, htol, hvalid, solveAt_of_rank_not_lt hrow hrank⟩

theorem classify_eq_ok_iff {r : Ranks} :
    classify settings A l = .ok r ↔ ∃ tol b, settings.toleranceFor α = .ok tol ∧
      validate A l = .ok b ∧ r = ranksAt tol A b := by
  unfold classify
  cases settings.toleranceFor α with
  | error e => simp [bind, Except.bind]
  | ok tol =>
    cases validate A l with
    | error e => simp [bind, Except.bind]
    | ok b => simp [bind, Except.bind, pure, Except.pure, eq_comm]

end Accepted

theorem Solution.mem_freeVariables {α : Type} {n m : Nat} {s : Solution α n m} {j : Fin m} :
    j ∈ s.freeVariables ↔ ∀ p ∈ s.pivots, p.col ≠ j := by
  simp [freeVariables, pivotColumns]

end LinearSystem
