import LinearSystem.Scalar.Rational
import Mathlib.Algebra.Order.Ring.Rat

namespace LinearSystem

open Scalar

namespace Rational

theorem atMost_iff {x y : ℚ} : atMost x y = true ↔ x ≤ y := by
  change (!Rat.blt y x) = true ↔ Rat.blt y x = false
  rw [Bool.not_eq_true']

theorem magnitude_eq (x : ℚ) : magnitude x = |x| := by
  change Rat.abs x = |x|
  rcases le_total 0 x with h | h
  · rw [Rat.abs_of_nonneg h, abs_of_nonneg h]
  · rw [Rat.abs_of_nonpos h, abs_of_nonpos h]

theorem negligible_iff {tol x : ℚ} : negligible tol x = true ↔ |x| ≤ tol := by
  rw [negligible, atMost_iff, magnitude_eq]

theorem significant_iff {tol x : ℚ} : significant tol x = true ↔ tol < |x| := by
  rw [significant, Bool.not_eq_true', ← Bool.not_eq_true, negligible_iff, not_le]

theorem negligible_zero_iff {x : ℚ} : negligible 0 x = true ↔ x = 0 := by
  rw [negligible_iff, abs_nonpos_iff]

/-- A significant entry can be divided by, whatever the tolerance. -/
theorem ne_zero_of_significant {tol x : ℚ} (htol : 0 ≤ tol) (h : significant tol x = true) :
    x ≠ 0 :=
  abs_pos.mp (htol.trans_lt (significant_iff.mp h))

theorem isZero_iff {x : ℚ} : isZero x = true ↔ x = 0 := by
  rw [isZero, Bool.and_eq_true, atMost_iff, atMost_iff]
  exact le_antisymm_iff.symm

theorem larger_eq_max (x y : ℚ) : larger x y = max x y := by
  unfold larger
  split_ifs with h hx
  · exact (max_eq_right (atMost_iff.mp h)).symm
  · exact (max_eq_left (le_of_not_ge fun hle => h (atMost_iff.mpr hle))).symm
  · exact absurd (atMost_iff.mpr le_rfl) hx

end Rational

end LinearSystem
