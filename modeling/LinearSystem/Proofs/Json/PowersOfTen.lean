import LinearSystem.Json.Number
import LinearSystem.Proofs.Floating.Arithmetic

namespace LinearSystem.Json

open Floating

section Powers

/-- The bits of a power of ten. -/
def powerBits (k : ℕ) : ℕ := (powerOfTen k).toBits.toNat

/-- Is the float with these bits within `c` hundredths of `2 ^ -53` of `10 ^ k`? Both sides are
counted in units of the least exponent. -/
def closeToPower (c k n : ℕ) : Bool :=
  let float := significand n * 2 ^ (exponent n + 1074).toNat
  let exact := 10 ^ k * 2 ^ 1074
  decide (2 ^ 52 ≤ n ∧ n < infinityBits) &&
    decide (float * (100 * 2 ^ 53) ≤ exact * (100 * 2 ^ 53 + c)) &&
    decide (exact * (100 * 2 ^ 53) ≤ float * (100 * 2 ^ 53 + c))

theorem closeToPower_powerBits : ∀ k < 309, closeToPower 91 k (powerBits k) = true := by
  decide +kernel

theorem closeToPower_largest : closeToPower 10 308 (powerBits 308) = true := by
  decide +kernel

/-- Up to `10 ^ 22` powers of ten are floats. -/
theorem significand_powerBits : ∀ k < 23,
    significand (powerBits k) * 2 ^ (exponent (powerBits k) + 1074).toNat = 10 ^ k * 2 ^ 1074 := by
  decide +kernel

variable {c k n : ℕ}

theorem value_mul_two_pow (n : ℕ) :
    value n * 2 ^ 1074 = (significand n * 2 ^ (exponent n + 1074).toNat : ℕ) := by
  have hexp : exponent n + 1074 = ((exponent n + 1074).toNat : ℤ) := by
    have := le_exponent n
    omega
  have hpow : (2 : ℚ) ^ exponent n * 2 ^ 1074 = 2 ^ (exponent n + 1074).toNat := by
    rw [← zpow_natCast _ 1074, ← zpow_add₀ two_ne_zero, ← zpow_natCast _ (exponent n + 1074).toNat,
      ← hexp]
    rfl
  rw [value, mul_assoc, hpow]
  push_cast
  rfl

theorem powerBits_range (hk : k < 309) : 2 ^ 52 ≤ powerBits k ∧ powerBits k < infinityBits := by
  have h := closeToPower_powerBits k hk
  simp only [closeToPower, Bool.and_eq_true, decide_eq_true_eq] at h
  exact h.1.1

theorem powerBits_pos (hk : k < 309) : 0 < powerBits k :=
  Nat.lt_of_lt_of_le (by norm_num) (powerBits_range hk).1

theorem value_powerBits_pos (hk : k < 309) : 0 < value (powerBits k) := value_pos (powerBits_pos hk)

theorem within_of_closeToPower (h : closeToPower c k n = true) :
    Within (c / (100 * 2 ^ 53)) (value n) (10 ^ k) := by
  simp only [closeToPower, Bool.and_eq_true, decide_eq_true_eq] at h
  obtain ⟨⟨-, hle⟩, hge⟩ := h
  have hle' : value n * 2 ^ 1074 * (100 * 2 ^ 53) ≤ 10 ^ k * 2 ^ 1074 * (100 * 2 ^ 53 + c) := by
    rw [value_mul_two_pow]
    exact_mod_cast hle
  have hge' : (10 : ℚ) ^ k * 2 ^ 1074 * (100 * 2 ^ 53) ≤
      value n * 2 ^ 1074 * (100 * 2 ^ 53 + c) := by
    rw [value_mul_two_pow]
    exact_mod_cast hge
  have hscale : ∀ x y : ℚ, x * 2 ^ 1074 * (100 * 2 ^ 53) ≤ y * 2 ^ 1074 * (100 * 2 ^ 53 + c) →
      x ≤ y * (1 + c / (100 * 2 ^ 53)) := by
    intro x y hxy
    have hpos : (0 : ℚ) < 2 ^ 1074 := by positivity
    generalize (2 : ℚ) ^ 1074 = unit at hxy hpos
    refine le_of_mul_le_mul_right ?_ (mul_pos hpos (by norm_num : (0 : ℚ) < 100 * 2 ^ 53))
    linarith
  exact ⟨hscale _ _ hle', hscale _ _ hge'⟩

theorem within_powerBits (hk : k < 309) :
    Within (91 / (100 * 2 ^ 53)) (value (powerBits k)) (10 ^ k) :=
  within_of_closeToPower (closeToPower_powerBits k hk)

theorem within_largest : Within (10 / (100 * 2 ^ 53)) (value (powerBits 308)) (10 ^ 308) :=
  within_of_closeToPower closeToPower_largest

theorem value_largest : value (powerBits 308) = 5010420900022432 * 2 ^ (971 : ℤ) := by
  have hm : significand (powerBits 308) = 5010420900022432 := by decide +kernel
  have he : exponent (powerBits 308) = 971 := by decide +kernel
  rw [value, hm, he]
  rfl

theorem value_powerBits (hk : k < 23) : value (powerBits k) = 10 ^ k := by
  have hvalue := value_mul_two_pow (powerBits k)
  rw [significand_powerBits k hk, Nat.cast_mul, Nat.cast_pow, Nat.cast_pow, Nat.cast_ofNat,
    Nat.cast_ofNat] at hvalue
  exact mul_right_cancel₀ (by positivity) hvalue

end Powers

end LinearSystem.Json
