import LinearSystem.Proofs.Floating.Format
import Mathlib.Data.Nat.Init

namespace LinearSystem

open Float.Model Float.Model.UnpackedFloat Scalar

namespace Floating

section Unpacked

variable (f : Format)

theorem sign_div_self (s : Sign) : s / s = .positive := by
  cases s <;> rfl

/-- A significand divided by itself gives a power of two, and nothing is left to round. -/
theorem divCore_self {m : ℕ} (hm : 0 < m) (e : ℤ) :
    divCore f m e m e =
      (1 <<< (-min 0 (f.targetExponent 0)).toNat, min 0 (f.targetExponent 0), .exact) := by
  have hexp : e - e = 0 := Int.sub_self e
  have htotal : totalExponent m e - totalExponent m e = 0 := Int.sub_self _
  simp only [divCore, hexp, htotal, Int.zero_sub, Nat.shiftLeft_eq, Nat.mul_div_cancel_left _ hm,
    Nat.mul_mod_right, Nat.one_mul]
  rfl

/-- What a number divided by itself is rounded from. -/
def selfQuotient : UnpackedFloat :=
  roundWithAccuracy f .positive (1 <<< (-min 0 (f.targetExponent 0)).toNat)
    (min 0 (f.targetExponent 0)) .exact

/-- A quotient of equal numbers depends on the format only, if it is a number at all. -/
theorem unpacked_div_self (u : UnpackedFloat) :
    UnpackedFloat.div f u u = .notANumber ∨ UnpackedFloat.div f u u = selfQuotient f := by
  cases u with
  | notANumber => exact .inl rfl
  | infinity s => exact .inl rfl
  | zero s => exact .inl rfl
  | finite s m e hm =>
    right
    change roundWithAccuracy f (s / s) (divCore f m e m e).1 (divCore f m e m e).2.1
      (divCore f m e m e).2.2 = _
    rw [divCore_self f hm, sign_div_self]
    rfl

end Unpacked

section Formats

variable {α : Type} [Scalar α] [LE α] [LT α] {f : Format} {unpack : α → UnpackedFloat}
  {pack : UnpackedFloat → α} {one tol : α}

/-- Below a tolerance of one, a row divided by its pivot never loses the pivot: what stands there is
one or a NaN. -/
theorem InFormat.significant_div_self (hα : InFormat α f unpack pack)
    (hone : pack (selfQuotient f) = one) (hmag : magnitude one = one) (htol : tol < one) (x : α) :
    significant tol (x / x) = true := by
  rw [significant, Bool.not_eq_true', ← Bool.not_eq_true, negligible, hα.atMost_iff]
  cases unpacked_div_self f (unpack x) with
  | inl hnan =>
    intro hle
    have hnumber := (hα.isNaN_eq_false_of_le hle).1
    rw [hα.unpack_magnitude, hα.div_eq, hnan, hα.unpack_pack .notANumber] at hnumber
    cases hnumber
  | inr hquot =>
    rw [hα.div_eq, hquot, hone, hmag]
    exact hα.not_le_of_lt htol

end Formats

end Floating

end LinearSystem
