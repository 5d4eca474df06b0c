import LinearSystem.Proofs.Rational
import LinearSystem.Proofs.Solver

namespace LinearSystem

open Scalar

variable {n m : ℕ}

/-- Settings under which nothing but zero counts as zero. -/
def Settings.exact (pivoting : PivotRule) (zeroRows : ZeroRowRule) : Settings :=
  ⟨some 0, pivoting, zeroRows⟩

theorem toleranceFor_of_valid {α : Type} [Scalar α] {t : Float} {tol : α} {pivoting : PivotRule}
    {zeroRows : ZeroRowRule} (hvalid : (!t.isFinite || decide (t < 0)) = false)
    (htol : ofFloat t = tol) :
    Settings.toleranceFor α ⟨some t, pivoting, zeroRows⟩ = .ok tol := by
  simp only [Settings.toleranceFor, hvalid, htol, Bool.false_eq_true, if_false]

theorem toleranceFor_exact (pivoting : PivotRule) (zeroRows : ZeroRowRule) :
    (Settings.exact pivoting zeroRows).toleranceFor ℚ = .ok 0 :=
  toleranceFor_of_valid (by decide) (by decide)

section Validate

variable {α : Type} [Scalar α]

theorem validate_of_finite (hn : 0 < n) (hm : 0 < m) {A : DenseMatrix α n m} {b : Vector α n}
    (hA : ∀ i j, finite (A i j) = true) (hb : ∀ x ∈ b.toList, finite x = true) :
    validate A b.toList = .ok b := by
  have hfirst : A.firstNonFinite? = none := by
    simp [DenseMatrix.firstNonFinite?, hA]
  have hfind : b.toList.findIdx? (!finite ·) = none := by
    simpa [List.findIdx?_eq_none_iff] using hb
  have hlen : b.toList.length = n := Vector.length_toList
  unfold validate
  rw [if_neg (by omega), dif_pos hlen]
  split
  next h => exact absurd (h.symm.trans hfirst) (by simp)
  next =>
    split
    next h => exact absurd (h.symm.trans hfind) (by simp)
    next => exact congrArg Except.ok (Vector.toArray_inj.mp b.toArray.toArray_toList)

/-- A system that passes has at least one equation and one unknown. -/
theorem pos_of_validate_ok {A : DenseMatrix α n m} {l : List α} {b : Vector α n}
    (h : validate A l = .ok b) : 0 < n ∧ 0 < m := by
  by_contra hc
  have hempty : n = 0 ∨ m = 0 := by omega
  rw [validate, if_pos hempty] at h
  simp at h

theorem eq_of_validate_ok {A : DenseMatrix α n m} {b c : Vector α n}
    (h : validate A b.toList = .ok c) : c = b := by
  unfold validate at h
  split at h
  next => simp at h
  next =>
    split at h
    next =>
      split at h
      next => simp at h
      next =>
        split at h
        next => simp at h
        next =>
          obtain rfl := Except.ok.inj h
          exact Vector.toArray_inj.mp b.toArray.toArray_toList
    next => simp at h

end Validate

theorem validate_rational (hn : 0 < n) (hm : 0 < m) (A : DenseMatrix ℚ n m) (b : Vector ℚ n) :
    validate A b.toList = .ok b :=
  validate_of_finite hn hm (fun _ _ => rfl) (fun _ _ => rfl)

theorem classify_exact (hn : 0 < n) (hm : 0 < m) (A : DenseMatrix ℚ n m) (b : Vector ℚ n)
    (pivoting : PivotRule) (zeroRows : ZeroRowRule) :
    classify (Settings.exact pivoting zeroRows) A b.toList = .ok (ranksAt 0 A b) := by
  rw [classify, toleranceFor_exact, validate_rational hn hm]
  rfl

theorem solve_exact (hn : 0 < n) (hm : 0 < m) (A : DenseMatrix ℚ n m) (b : Vector ℚ n)
    (pivoting : PivotRule) (zeroRows : ZeroRowRule) :
    solve (Settings.exact pivoting zeroRows) A b.toList = solveAt pivoting zeroRows 0 A b := by
  rw [solve, toleranceFor_exact, validate_rational hn hm]
  rfl

/-- Every value is finite, so the shape alone decides what is solved at all. -/
theorem solve_rational_eq_ok_iff {settings : Settings} {tol : ℚ}
    (htol : settings.toleranceFor ℚ = .ok tol) {A : DenseMatrix ℚ n m} {b : Vector ℚ n}
    {s : Solution ℚ n m} :
    solve settings A b.toList = .ok s ↔
      (0 < n ∧ 0 < m) ∧ solveAt settings.pivoting settings.zeroRows tol A b = .ok s := by
  rw [solve_eq_ok_iff]
  constructor
  · intro h
    obtain ⟨t, c, ht, hc, hs⟩ := h
    obtain rfl : t = tol := Except.ok.inj (ht.symm.trans htol)
    obtain rfl := eq_of_validate_ok hc
    exact ⟨pos_of_validate_ok hc, hs⟩
  · intro h
    obtain ⟨⟨hn, hm⟩, hs⟩ := h
    exact ⟨tol, b, htol, validate_rational hn hm A b, hs⟩

/-- Whatever was solved was well formed. -/
theorem solveAt_of_solve_exact {pivoting : PivotRule} {zeroRows : ZeroRowRule}
    {A : DenseMatrix ℚ n m} {b : Vector ℚ n} {s : Solution ℚ n m}
    (h : solve (Settings.exact pivoting zeroRows) A b.toList = .ok s) :
    solveAt pivoting zeroRows 0 A b = .ok s :=
  ((solve_rational_eq_ok_iff (toleranceFor_exact pivoting zeroRows)).mp h).2

end LinearSystem
