import LinearSystem.Decimal.Text
import Mathlib.Algebra.Order.Field.Power
import Mathlib.Algebra.Order.Ring.Rat
import Mathlib.Tactic.NormNum
import Mathlib.Tactic.Positivity
import Mathlib.Tactic.Ring

namespace LinearSystem.Decimal

variable {tie : Tie} {d m : ℕ} {g q : ℤ}

section Comparison

theorem mul_zpow_eq_div (d : ℕ) {a : ℚ} (ha : a ≠ 0) (g : ℤ) :
    (d : ℚ) * a ^ g = d * a ^ g.toNat / a ^ (-g).toNat := by
  rw [mul_div_assoc, ← zpow_natCast, ← zpow_natCast, ← zpow_sub₀ ha, Int.toNat_sub_toNat_neg]

theorem atMostBinary_iff :
    atMostBinary d g m q = true ↔ (d : ℚ) * 10 ^ g ≤ m * 2 ^ q := by
  rw [mul_zpow_eq_div d (by norm_num), mul_zpow_eq_div m (by norm_num),
    div_le_div_iff₀ (by positivity) (by positivity), atMostBinary, decide_eq_true_iff,
    Nat.one_shiftLeft, Nat.one_shiftLeft]
  norm_cast

theorem atLeastBinary_iff :
    atLeastBinary d g m q = true ↔ (m : ℚ) * 2 ^ q ≤ d * 10 ^ g := by
  rw [mul_zpow_eq_div d (by norm_num), mul_zpow_eq_div m (by norm_num),
    div_le_div_iff₀ (by positivity) (by positivity), atLeastBinary, decide_eq_true_iff,
    Nat.one_shiftLeft, Nat.one_shiftLeft]
  norm_cast

theorem atLeastBinary_zero (hm : 0 < m) : atLeastBinary 0 g m q = false := by
  have hm' : (0 : ℚ) < m := by exact_mod_cast hm
  rw [← Bool.not_eq_true, atLeastBinary_iff, Nat.cast_zero, zero_mul, not_le]
  positivity

end Comparison

section Grid

theorem readsBack_zero (hm : 0 < m) : readsBack m q 0 g = false := by
  unfold readsBack
  dsimp only
  split_ifs
  · rw [atLeastBinary_zero (by omega), Bool.false_and]
  · rw [atLeastBinary_zero (by omega), Bool.false_and]
  · simp [atMostBinary]
  · simp [atMostBinary]

theorem atMostBinary_floorOnGrid (m : ℕ) (q g : ℤ) :
    atMostBinary (floorOnGrid m q g) g m q = true := by
  rw [atMostBinary, decide_eq_true_iff, mul_assoc]
  exact Nat.div_mul_le_self _ _

theorem atMostBinary_floorOnGrid_succ (m : ℕ) (q g : ℤ) :
    atMostBinary (floorOnGrid m q g + 1) g m q = false := by
  have hgrid : 0 < Nat.pow 10 g.toNat * 1 <<< (-q).toNat := by
    rw [Nat.one_shiftLeft]
    exact Nat.mul_pos (Nat.pow_pos (by norm_num)) (by positivity)
  rw [atMostBinary, decide_eq_false_iff_not, not_le, mul_assoc _ (Nat.pow 10 g.toNat),
    mul_comm (floorOnGrid m q g + 1)]
  exact Nat.lt_mul_div_succ _ hgrid

theorem floorOnGrid_le (m : ℕ) (q g : ℤ) : (floorOnGrid m q g : ℚ) * 10 ^ g ≤ m * 2 ^ q :=
  atMostBinary_iff.mp (atMostBinary_floorOnGrid m q g)

theorem lt_floorOnGrid_succ (m : ℕ) (q g : ℤ) :
    (m : ℚ) * 2 ^ q < (floorOnGrid m q g + 1 : ℕ) * 10 ^ g := by
  rw [← not_le, ← atMostBinary_iff, atMostBinary_floorOnGrid_succ]
  exact Bool.false_ne_true

/-- What is found on a grid is one of two positive candidates that read back. -/
theorem onGrid?_spec (hm : 0 < m) (h : onGrid? tie m q g = some d) :
    0 < d ∧ readsBack m q d g = true ∧ d ≤ floorOnGrid m q g + 1 := by
  have hfound : readsBack m q d g = true ∧ d ≤ floorOnGrid m q g + 1 := by
    unfold onGrid? at h
    dsimp only at h
    cases hlow : readsBack m q (floorOnGrid m q g) g <;>
      cases hhigh : readsBack m q (floorOnGrid m q g + 1) g <;> rw [hlow, hhigh] at h
    case false.false => cases h
    case false.true =>
      obtain rfl := Option.some.inj h
      exact ⟨hhigh, le_rfl⟩
    case true.false =>
      obtain rfl := Option.some.inj h
      exact ⟨hlow, Nat.le_succ _⟩
    case true.true =>
      have hboth : ∀ k ≤ 1, some (floorOnGrid m q g + k) = some d →
          readsBack m q d g = true ∧ d ≤ floorOnGrid m q g + 1 := by
        intro k hk hd
        obtain rfl := Option.some.inj hd
        rcases Nat.le_one_iff_eq_zero_or_eq_one.mp hk with rfl | rfl
        · exact ⟨hlow, Nat.le_succ _⟩
        · exact ⟨hhigh, le_rfl⟩
      dsimp only at h
      split_ifs at h
      · exact hboth 0 (by omega) h
      · exact hboth 1 (by omega) h
      · cases tie with
        | up => exact hboth 1 (by omega) h
        | even => exact hboth _ (by omega) h
  refine ⟨?_, hfound⟩
  by_contra hzero
  obtain rfl : d = 0 := by omega
  exact absurd hfound.1 (by simp [readsBack_zero hm])

theorem onGrid?_isSome_of_readsBack
    (h : readsBack m q (floorOnGrid m q g) g = true ∨
      readsBack m q (floorOnGrid m q g + 1) g = true) : (onGrid? tie m q g).isSome = true := by
  unfold onGrid?
  dsimp only
  cases hlow : readsBack m q (floorOnGrid m q g) g <;>
    cases hhigh : readsBack m q (floorOnGrid m q g + 1) g
  case false.false => simp [hlow, hhigh] at h
  case false.true => exact Option.isSome_some
  case true.false => exact Option.isSome_some
  case true.true =>
    dsimp only
    split_ifs
    · exact Option.isSome_some
    · exact Option.isSome_some
    · cases tie <;> exact Option.isSome_some

end Grid

section Scale

/-- One comparison of powers gives all those with a smaller ratio of the exponents. -/
theorem zpow_le_zpow_of_pow_le {a b : ℚ} {k r : ℕ} (ha : 0 < a) (hb : 1 ≤ b) (hk : k ≠ 0)
    (h : a ^ k ≤ b ^ r) {i j : ℤ} (hi : 0 ≤ i) (hij : r * i ≤ k * j) : a ^ i ≤ b ^ j := by
  have hpow : (a ^ i) ^ k ≤ (b ^ j) ^ k :=
    calc (a ^ i) ^ k = (a ^ k) ^ i := by rw [← zpow_natCast, ← zpow_natCast, zpow_comm]
      _ ≤ (b ^ r) ^ i := zpow_le_zpow_left₀ hi (by positivity) h
      _ = b ^ (r * i : ℤ) := by rw [zpow_mul, zpow_natCast]
      _ ≤ b ^ (k * j : ℤ) := zpow_le_zpow_right₀ hb hij
      _ = (b ^ j) ^ k := by rw [mul_comm, zpow_mul, zpow_natCast]
  exact le_of_pow_le_pow_left₀ hk (by positivity) hpow

/-- The binary logarithm of ten lies between `196 / 59` and `93 / 28`. -/
theorem ten_zpow_le_two_zpow {i j : ℤ} (h : 196 * i ≤ 59 * j) (h' : 93 * i ≤ 28 * j) :
    (10 : ℚ) ^ i ≤ 2 ^ j := by
  rcases le_total 0 i with hi | hi
  · exact zpow_le_zpow_of_pow_le (by norm_num) (by norm_num) (by norm_num)
      (by norm_num : (10 : ℚ) ^ 59 ≤ 2 ^ 196) hi h
  rcases le_total 0 j with hj | hj
  · exact (zpow_le_one_of_nonpos₀ (by norm_num) hi).trans (one_le_zpow₀ (by norm_num) hj)
  · have hinv : (2 : ℚ) ^ (-j) ≤ 10 ^ (-i) :=
      zpow_le_zpow_of_pow_le (by norm_num) (by norm_num) (by norm_num)
        (by norm_num : (2 : ℚ) ^ 93 ≤ 10 ^ 28) (by omega) (by push_cast; omega)
    rwa [zpow_neg, zpow_neg, inv_le_inv₀ (by positivity) (by positivity)] at hinv

theorem two_zpow_le_ten_zpow {i j : ℤ} (h : 59 * j ≤ 196 * i) (h' : 28 * j ≤ 93 * i) :
    (2 : ℚ) ^ j ≤ 10 ^ i := by
  have hinv : (10 : ℚ) ^ (-i) ≤ 2 ^ (-j) := ten_zpow_le_two_zpow (by omega) (by omega)
  rwa [zpow_neg, zpow_neg, inv_le_inv₀ (by positivity) (by positivity)] at hinv

theorem two_zpow_log2_le (hm : 0 < m) : (2 : ℚ) ^ (q + m.log2) ≤ m * 2 ^ q := by
  have h : ((2 ^ m.log2 : ℕ) : ℚ) ≤ m := by exact_mod_cast Nat.log2_self_le hm.ne'
  rw [add_comm, zpow_add₀ two_ne_zero, zpow_natCast]
  push_cast at h
  gcongr

theorem lt_two_zpow_log2 (m : ℕ) (q : ℤ) : (m : ℚ) * 2 ^ q < 2 ^ (q + m.log2 + 1) := by
  have h : (m : ℚ) < ((2 ^ (m.log2 + 1) : ℕ) : ℚ) := by exact_mod_cast Nat.lt_log2_self
  have hexp : q + m.log2 + 1 = ((m.log2 + 1 : ℕ) : ℤ) + q := by
    push_cast
    ring
  rw [hexp, zpow_add₀ two_ne_zero, zpow_natCast]
  push_cast at h
  gcongr

/-- A number has `scale` digits before its point. -/
theorem scale_spec (hm : 0 < m) (hlow : -1100 ≤ q + m.log2) (hhigh : q + m.log2 < 1100) :
    (10 : ℚ) ^ (scale m q - 1) ≤ m * 2 ^ q ∧ (m : ℚ) * 2 ^ q < 10 ^ scale m q := by
  have hpower : ∀ j : ℤ, (!atMostBinary 1 j m q) = true ↔ (m : ℚ) * 2 ^ q < 10 ^ j := by
    intro j
    rw [Bool.not_eq_true', ← Bool.not_eq_true, atMostBinary_iff, not_le, Nat.cast_one, one_mul]
  have hfloor := Int.fdiv_eq_ediv_of_nonneg ((q + m.log2) * 30103) (by norm_num : 0 ≤ (100000 : ℤ))
  unfold scale
  generalize hk : ((q + m.log2) * 30103).fdiv 100000 = k at hfloor ⊢
  dsimp only
  split_ifs with hbelow hbelow'
  · refine ⟨le_trans ?_ (two_zpow_log2_le hm), (hpower k).mp hbelow⟩
    exact ten_zpow_le_two_zpow (by omega) (by omega)
  · rw [hpower] at hbelow hbelow'
    rw [add_sub_cancel_right]
    exact ⟨not_lt.mp hbelow, hbelow'⟩
  · have hpred : k + 2 - 1 = k + 1 := by ring
    rw [hpower] at hbelow'
    rw [hpred]
    refine ⟨not_lt.mp hbelow', (lt_two_zpow_log2 m q).trans_le ?_⟩
    exact two_zpow_le_ten_zpow (by omega) (by omega)

end Scale

end LinearSystem.Decimal
