import LinearSystem.Proofs.Completeness
import LinearSystem.Proofs.Floating.Format
import LinearSystem.Proofs.Tolerance

namespace LinearSystem

open Scalar

section Generic

variable {α : Type} [Scalar α] {n m : ℕ} {pivoting : PivotRule} {tol : α} {A : DenseMatrix α n m}
  {b : Vector α n}

/-- Where a value that reaches the tolerance also reaches it in magnitude, the early check of both
signs lets through what the other one does, rows apart that reach it in magnitude only. -/
theorem badZeroRow?_symmetric_iff
    (hmag : ∀ x : α, atMost tol x = true → atMost tol (magnitude x) = true) :
    badZeroRow? .symmetric tol A b = none ↔ badZeroRow? .positiveRhs tol A b = none ∧
      ∀ i, (∀ j, negligible tol (A i j) = true) → atMost tol (magnitude (b.get i)) = false := by
  simp only [badZeroRow?_eq_none_iff, BadZeroRow, not_and, Bool.not_eq_true]
  constructor
  · intro h
    refine ⟨fun i hi => ?_, h⟩
    have hsmall : ¬atMost tol (magnitude (b.get i)) = true := ne_true_of_eq_false (h i hi)
    exact eq_false_of_ne_true fun hreach => hsmall (hmag _ hreach)
  · exact fun h => h.2

/-- The policy decides which systems are refused, not what the others are answered. -/
theorem solveAt_symmetric_iff
    (hmag : ∀ x : α, atMost tol x = true → atMost tol (magnitude x) = true) {s : Solution α n m} :
    solveAt pivoting .symmetric tol A b = .ok s ↔ solveAt pivoting .positiveRhs tol A b = .ok s ∧
      ∀ i, (∀ j, negligible tol (A i j) = true) → atMost tol (magnitude (b.get i)) = false := by
  rw [solveAt_eq_ok_iff, solveAt_eq_ok_iff, badZeroRow?_symmetric_iff hmag]
  tauto

theorem solve_symmetric_iff {settings : Settings} {l : List α} {s : Solution α n m}
    (htol : settings.toleranceFor α = .ok tol)
    (hmag : ∀ x : α, atMost tol x = true → atMost tol (magnitude x) = true) :
    solve { settings with zeroRows := .symmetric } A l = .ok s ↔
      solve { settings with zeroRows := .positiveRhs } A l = .ok s ∧
        ∀ b, validate A l = .ok b → ∀ i, (∀ j, negligible tol (A i j) = true) →
          atMost tol (magnitude (b.get i)) = false := by
  have hsym : Settings.toleranceFor α { settings with zeroRows := .symmetric } = .ok tol := htol
  have hpos : Settings.toleranceFor α { settings with zeroRows := .positiveRhs } = .ok tol := htol
  rw [solve_eq_ok_iff, solve_eq_ok_iff, hsym, hpos]
  constructor
  · rintro ⟨tol', b, htol', hvalid, hsolve⟩
    obtain rfl := Except.ok.inj htol'
    obtain ⟨hsolve, hsmall⟩ := (solveAt_symmetric_iff hmag).mp hsolve
    refine ⟨⟨tol, b, rfl, hvalid, hsolve⟩, fun c hc => ?_⟩
    obtain rfl := Except.ok.inj (hvalid.symm.trans hc)
    exact hsmall
  · rintro ⟨⟨tol', b, htol', hvalid, hsolve⟩, hsmall⟩
    obtain rfl := Except.ok.inj htol'
    exact ⟨tol, b, rfl, hvalid, (solveAt_symmetric_iff hmag).mpr ⟨hsolve, hsmall b hvalid⟩⟩

end Generic

/-- In this arithmetic, what reaches a tolerance also reaches it in magnitude. -/
def ReachesInMagnitude (α : Type) [Scalar α] : Prop :=
  ∀ tol x : α, atMost tol x = true → atMost tol (magnitude x) = true

theorem Rational.reachesInMagnitude : ReachesInMagnitude ℚ := by
  intro tol x h
  rw [Rational.atMost_iff] at h ⊢
  rw [Rational.magnitude_eq]
  exact h.trans (le_abs_self x)

section Exact

variable {n m : ℕ} {settings : Settings} {tol : ℚ} {A : DenseMatrix ℚ n m} {b : Vector ℚ n}

theorem solve_symmetric_rational_iff (htol : settings.toleranceFor ℚ = .ok tol)
    {s : Solution ℚ n m} :
    solve { settings with zeroRows := .symmetric } A b.toList = .ok s ↔
      solve { settings with zeroRows := .positiveRhs } A b.toList = .ok s ∧
        ∀ i, (∀ j, |A i j| ≤ tol) → |b.get i| < tol := by
  have hsmall : ∀ i, atMost tol (magnitude (b.get i)) = false ↔ |b.get i| < tol := fun i => by
    rw [← Bool.not_eq_true, Rational.atMost_iff, Rational.magnitude_eq, not_le]
  rw [solve_symmetric_iff htol (Rational.reachesInMagnitude tol)]
  simp only [Rational.negligible_iff]
  refine and_congr_right fun hsolve => ?_
  obtain ⟨-, c, -, hvalid, -⟩ := solve_eq_ok_iff.mp hsolve
  constructor
  · intro h i hi
    rw [eq_of_validate_ok hvalid] at hvalid
    exact (hsmall i).mp (h b hvalid i hi)
  · intro h c hc i hi
    rw [eq_of_validate_ok hc]
    exact (hsmall i).mpr (h i hi)

theorem no_negligible_row_of_solve (htol : settings.toleranceFor ℚ = .ok 0) {s : Solution ℚ n m}
    (h : solve settings A b.toList = .ok s) (i : Fin n) : ¬∀ j, |A i j| ≤ 0 := by
  intro hrow
  have hsolve := ((solve_rational_eq_ok_iff htol).mp h).2
  have hnone : ¬∃ i, A.IsZeroRow i := (solveAt_ok_iff.mp ⟨s, hsolve⟩).2
  exact hnone ⟨i, fun j => abs_nonpos_iff.mp (hrow j)⟩

end Exact

/-- In every arithmetic in which what reaches a tolerance reaches it in magnitude, as in both float
formats, the check of both signs answers as the other one does wherever it answers, and refuses
beyond that the systems with a negligible row whose right-hand side reaches the tolerance in
magnitude. In exact arithmetic at tolerance zero there is nothing beyond. -/
theorem solve_zeroRow_policies {n m : ℕ} {settings : Settings} :
    (∀ {α : Type} [Scalar α] {tol : α} {A : DenseMatrix α n m} {l : List α} (s : Solution α n m),
        ReachesInMagnitude α → settings.toleranceFor α = .ok tol →
        (solve { settings with zeroRows := .symmetric } A l = .ok s ↔
          solve { settings with zeroRows := .positiveRhs } A l = .ok s ∧
            ∀ b, validate A l = .ok b → ∀ i, (∀ j, negligible tol (A i j) = true) →
              atMost tol (magnitude (b.get i)) = false)) ∧
      ReachesInMagnitude Float ∧ ReachesInMagnitude Float32 ∧
      ∀ {tol : ℚ} {A : DenseMatrix ℚ n m} {b : Vector ℚ n} (s : Solution ℚ n m),
        settings.toleranceFor ℚ = .ok tol →
        (solve { settings with zeroRows := .symmetric } A b.toList = .ok s ↔
          solve { settings with zeroRows := .positiveRhs } A b.toList = .ok s ∧
            ∀ i, (∀ j, |A i j| ≤ tol) → |b.get i| < tol) ∧
        (tol = 0 → (solve { settings with zeroRows := .symmetric } A b.toList = .ok s ↔
          solve { settings with zeroRows := .positiveRhs } A b.toList = .ok s)) := by
  refine ⟨fun s hmag htol => solve_symmetric_iff htol (hmag _),
    fun _ _ => Floating.double.atMost_magnitude, fun _ _ => Floating.single.atMost_magnitude, ?_⟩
  intro tol A b s htol
  refine ⟨solve_symmetric_rational_iff htol, fun hzero => ?_⟩
  subst hzero
  rw [solve_symmetric_rational_iff htol, and_iff_left_iff_imp]
  have hpos : Settings.toleranceFor ℚ { settings with zeroRows := .positiveRhs } = .ok 0 := htol
  exact fun h i hi => absurd hi (no_negligible_row_of_solve hpos h i)

/-- A second equation that repeats the first one on a smaller scale, exactly and in floats. -/
theorem solve_zeroRow_policies_scaled_row :
    let settings : Settings := ⟨some 0.5, .largestMagnitude, .positiveRhs⟩
    let A : DenseMatrix ℚ 2 1 := ⟨#v[#v[2], #v[1 / 4]]⟩
    let b : Vector ℚ 2 := #v[-8, -1]
    let A' : DenseMatrix Float 2 1 := ⟨#v[#v[2], #v[0.25]]⟩
    let b' : Vector Float 2 := #v[-8, -1]
    (settings.toleranceFor ℚ = .ok (1 / 2) ∧ ∃ s, solve settings A b.toList = .ok s ∧
      Solves A b s.x.get ∧
      ¬solve { settings with zeroRows := .symmetric } A b.toList = .ok s) ∧
      ReachesInMagnitude Float ∧ settings.toleranceFor Float = .ok 0.5 ∧
      ∃ s, solve settings A' b'.toList = .ok s ∧
        ¬solve { settings with zeroRows := .symmetric } A' b'.toList = .ok s := by
  intro settings A b A' b'
  have htol : settings.toleranceFor ℚ = .ok (1 / 2) :=
    toleranceFor_of_valid (by decide) (by decide +kernel)
  have hrow : badZeroRow? .positiveRhs (1 / 2) A b = none := by decide +kernel
  have hrank : ¬rank (1 / 2) A < rank (1 / 2) (A.augment b) := by decide +kernel
  have hsolve : solve settings A b.toList = .ok (solutionAt .largestMagnitude (1 / 2) A b) :=
    solve_of_rank_not_lt htol (validate_rational (by decide) (by decide) A b) hrow hrank
  have htol' : settings.toleranceFor Float = .ok 0.5 :=
    toleranceFor_of_valid (by decide) (by decide +kernel)
  have hrow' : badZeroRow? .positiveRhs 0.5 A' b' = none := by decide +kernel
  have hrank' : ¬rank 0.5 A' < rank 0.5 (A'.augment b') := by decide +kernel
  have hvalid' : validate A' b'.toList = .ok b' :=
    validate_of_finite (by decide) (by decide) (by decide +kernel) (by decide +kernel)
  have hsolve' : solve settings A' b'.toList = .ok (solutionAt .largestMagnitude 0.5 A' b') :=
    solve_of_rank_not_lt htol' hvalid' hrow' hrank'
  obtain ⟨hgeneral, hdouble, -, hexact⟩ := @solve_zeroRow_policies 2 1 settings
  refine ⟨⟨htol, _, hsolve, by decide +kernel, fun hsym => ?_⟩, hdouble, htol', _, hsolve',
    fun hsym => ?_⟩
  · have hsmall := ((hexact _ htol).1.mp hsym).2 1 (by decide +kernel)
    exact absurd hsmall (by decide +kernel)
  · have hsmall := ((hgeneral _ hdouble htol').mp hsym).2 b' hvalid' 1 (by decide +kernel)
    exact absurd hsmall (by decide +kernel)

/-- A row of zeros with right-hand side `-1`. The check of both signs refuses it. The other one
leaves it to the ranks, and there the right-hand side takes the place of the empty first column:
its large entry becomes the pivot, what it leaves in the row of zeros is negligible, and the ranks
agree. The answer misses the last equation by one. -/
theorem solve_accepts_bad_zeroRow :
    let A : DenseMatrix Float 3 3 := ⟨#v[#v[0, 1, 0], #v[0, 0, 1], #v[0, 0, 0]]⟩
    let b : Vector Float 3 := #v[1e12, 0, -1]
    (∃ s, solve .default A b.toList = .ok s ∧ s.residual = 1) ∧
      solve { Settings.default with zeroRows := .symmetric } A b.toList =
        .error (.zeroRow 2 (-1)) := by
  intro A b
  have hvalid : validate A b.toList = .ok b :=
    validate_of_finite (by decide) (by decide) (by decide +kernel) (by decide +kernel)
  have hrow : badZeroRow? .positiveRhs 1e-10 A b = none := by decide +kernel
  have hrank : ¬rank 1e-10 A < rank 1e-10 (A.augment b) := by decide +kernel
  have hbad : badZeroRow? .symmetric 1e-10 A b = some 2 := by decide +kernel
  refine ⟨⟨_, solve_of_rank_not_lt rfl hvalid hrow hrank, by decide +kernel⟩, ?_⟩
  rw [solve, hvalid]
  exact solveAt_of_zeroRow hbad

end LinearSystem
