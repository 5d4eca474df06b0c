import Mathlib.Algebra.Order.Field.Power
import Mathlib.Data.Int.Log
import Mathlib.Data.Rat.Floor
import Mathlib.Tactic.Linarith
import Mathlib.Tactic.Positivity
import Mathlib.Tactic.Ring

namespace LinearSystem

namespace Floating

variable {t t' : ℕ} {a b r : ℚ}

/-- A number in units of the spacing of the floats in binade `t`. Binade zero has the spacing of the
subnormal numbers. -/
def units (t : ℕ) (r : ℚ) : ℚ := r * 2 ^ (1074 - (t : ℤ))

theorem units_succ (t : ℕ) (r : ℚ) : units (t + 1) r = units t r / 2 := by
  have hexp : 1074 - ((t + 1 : ℕ) : ℤ) = 1074 - t - 1 := by push_cast; ring
  rw [units, units, hexp, zpow_sub_one₀ two_ne_zero]
  ring

theorem units_pos (hr : 0 < r) : 0 < units t r := by
  unfold units
  positivity

theorem units_lt_units (h : a < b) : units t a < units t b := by
  unfold units
  gcongr

theorem units_sub (t : ℕ) (a b : ℚ) : units t b - units t a = units t (b - a) := by
  unfold units
  ring

/-- The bits of a float in binade `t`, read off the line on which they lie. -/
def line (t : ℕ) (r : ℚ) : ℚ := t * 2 ^ 52 + units t r

theorem line_sub (t : ℕ) (a b : ℚ) : line t b - line t a = units t (b - a) := by
  rw [line, line, add_sub_add_left_eq_sub, units_sub]

theorem line_succ_sub (t : ℕ) (r : ℚ) : line (t + 1) r - line t r = 2 ^ 52 - units t r / 2 := by
  rw [line, line, units_succ]
  push_cast
  ring

/-- The numbers that are at least as large as the least float of a binade, and smaller than that of
the next one. -/
structure InBinade (t : ℕ) (r : ℚ) : Prop where
  lt : units t r < 2 ^ 53
  le : t = 0 ∨ 2 ^ 52 ≤ units t r

/-- No other line is lower at a number than the one of its binade. -/
theorem InBinade.line_le (h : InBinade t r) (hr : 0 < r) (t' : ℕ) : line t r ≤ line t' r := by
  rcases Nat.le_total t t' with hle | hle
  · have hbelow : units t' r < 2 ^ 53 ∧ line t r ≤ line t' r := by
      induction t', hle using Nat.le_induction with
      | base => exact ⟨h.lt, le_rfl⟩
      | succ k _ ih =>
        have hpos : 0 < units k r := units_pos hr
        have hstep := line_succ_sub k r
        rw [units_succ]
        constructor
        · linarith [ih.1]
        · linarith [ih.1, ih.2]
    exact hbelow.2
  · have habove : ∀ k ≤ t, (k = t ∨ 2 ^ 53 ≤ units k r) ∧ line t r ≤ line k r := by
      intro k hk
      induction hk using Nat.decreasingInduction with
      | self => exact ⟨.inl rfl, le_rfl⟩
      | of_succ k _ ih =>
        have hlarge : 2 ^ 52 ≤ units (k + 1) r := by
          rcases ih.1 with rfl | hunits
          · exact h.le.resolve_left (Nat.succ_ne_zero k)
          · linarith
        have hstep := line_succ_sub k r
        rw [units_succ] at hlarge
        constructor
        · right
          linarith
        · linarith [ih.2]
    exact (habove t' hle).2

/-- The binade of a positive number. -/
def binade (r : ℚ) : ℕ := (Int.log 2 r + 1022).toNat

theorem inBinade_binade (hr : 0 < r) : InBinade (binade r) r := by
  have hle : (2 : ℚ) ^ Int.log 2 r ≤ r := Int.zpow_log_le_self Nat.one_lt_two hr
  have hlt : r < (2 : ℚ) ^ (Int.log 2 r + 1) := Int.lt_zpow_succ_log_self Nat.one_lt_two r
  have hmul : ∀ e : ℤ, (2 : ℚ) ^ e * 2 ^ (1074 - (binade r : ℤ)) = 2 ^ (e + (1074 - binade r)) := by
    intro e
    rw [← zpow_add₀ two_ne_zero]
  constructor
  · calc units (binade r) r < 2 ^ (Int.log 2 r + 1) * 2 ^ (1074 - (binade r : ℤ)) := by
          unfold units
          gcongr
      _ = 2 ^ (Int.log 2 r + 1 + (1074 - binade r)) := hmul _
      _ ≤ 2 ^ (53 : ℤ) := by
          refine zpow_le_zpow_right₀ one_le_two ?_
          unfold binade
          omega
      _ = 2 ^ 53 := by norm_num
  · by_cases hzero : binade r = 0
    · exact .inl hzero
    · right
      calc (2 : ℚ) ^ 52 = 2 ^ (52 : ℤ) := by norm_num
        _ = 2 ^ (Int.log 2 r + (1074 - binade r)) := by
          congr 1
          unfold binade at hzero ⊢
          omega
        _ = 2 ^ Int.log 2 r * 2 ^ (1074 - (binade r : ℤ)) := (hmul _).symm
        _ ≤ units (binade r) r := by
          unfold units
          gcongr

/-- Where a positive number stands among the floats: at its bits if it is one, and between the bits
of its two neighbours otherwise. -/
def position (r : ℚ) : ℚ := line (binade r) r

theorem position_le_line (hr : 0 < r) (t : ℕ) : position r ≤ line t r :=
  (inBinade_binade hr).line_le hr t

theorem InBinade.position_eq (h : InBinade t r) (hr : 0 < r) : position r = line t r :=
  le_antisymm (position_le_line hr t) (h.line_le hr (binade r))

theorem position_lt_position (ha : 0 < a) (hab : a < b) : position a < position b :=
  calc position a ≤ line (binade b) a := position_le_line ha _
    _ < line (binade b) b := by
      rw [line, line]
      exact add_lt_add_right (units_lt_units hab) _

theorem position_le_position (ha : 0 < a) (hab : a ≤ b) : position a ≤ position b := by
  rcases hab.eq_or_lt with rfl | hlt
  · exact le_rfl
  · exact (position_lt_position ha hlt).le

theorem position_lt_position_iff (ha : 0 < a) (hb : 0 < b) : position a < position b ↔ a < b := by
  constructor
  · intro h
    by_contra hle
    exact absurd h (position_le_position hb (not_lt.mp hle)).not_gt
  · exact position_lt_position ha

theorem position_le_position_iff (ha : 0 < a) (hb : 0 < b) : position a ≤ position b ↔ a ≤ b := by
  rw [← not_lt, position_lt_position_iff hb ha, not_lt]

/-- Positions are no further apart than the spacing at the smaller number says. -/
theorem position_sub_le (ha : 0 < a) (hab : a ≤ b) :
    position b - position a ≤ units (binade a) (b - a) := by
  have hb : position b ≤ line (binade a) b := position_le_line (ha.trans_le hab) _
  rw [← line_sub]
  exact sub_le_sub_right hb _

/-- Nowhere are positions further apart than by the least spacing. -/
theorem abs_position_sub_le (ha : 0 < a) (hb : 0 < b) :
    |position a - position b| ≤ |units 0 a - units 0 b| := by
  have hordered : ∀ {x y : ℚ}, 0 < x → x ≤ y →
      position y - position x ≤ units 0 y - units 0 x := by
    intro x y hx hxy
    have hcoarse : (2 : ℚ) ^ (1074 - (binade x : ℤ)) ≤ 2 ^ (1074 - ((0 : ℕ) : ℤ)) :=
      zpow_le_zpow_right₀ one_le_two (by omega)
    calc position y - position x ≤ units (binade x) (y - x) := position_sub_le hx hxy
      _ ≤ units 0 (y - x) := mul_le_mul_of_nonneg_left hcoarse (sub_nonneg.mpr hxy)
      _ = units 0 y - units 0 x := (units_sub 0 x y).symm
  rcases le_total a b with hab | hba
  · rw [abs_sub_comm, abs_sub_comm (units 0 a),
      abs_of_nonneg (sub_nonneg.mpr (position_le_position ha hab))]
    exact (hordered ha hab).trans (le_abs_self _)
  · rw [abs_of_nonneg (sub_nonneg.mpr (position_le_position hb hba))]
    exact (hordered hb hba).trans (le_abs_self _)

/-- Two positive numbers, each of them at most `1 + d` times the other. -/
structure Within (d a b : ℚ) : Prop where
  le : a ≤ b * (1 + d)
  ge : b ≤ a * (1 + d)

namespace Within

variable {c c' d d' : ℚ}

theorem refl (a : ℚ) : Within 0 a a := by
  constructor <;> simp

theorem mono (h : Within d a b) (ha : 0 < a) (hb : 0 < b) (hd : d ≤ d') : Within d' a b := by
  constructor
  · exact h.le.trans (by gcongr)
  · exact h.ge.trans (by gcongr)

theorem nonneg (h : Within d a b) (ha : 0 < a) (hb : 0 < b) : 0 ≤ d := by
  by_contra hneg
  have hab : b * (1 + d) < b := by nlinarith
  have hba : a * (1 + d) < a := by nlinarith
  linarith [h.le, h.ge]

/-- Factors multiply. -/
theorem mul (h : Within d a b) (h' : Within d' c c') (ha : 0 < a) (hb : 0 < b) (hc : 0 < c)
    (hc' : 0 < c') : Within (d + d' + d * d') (a * c) (b * c') := by
  have hd := h.nonneg ha hb
  have hd' := h'.nonneg hc hc'
  constructor
  · calc a * c ≤ b * (1 + d) * (c' * (1 + d')) := mul_le_mul h.le h'.le hc.le (by positivity)
      _ = b * c' * (1 + (d + d' + d * d')) := by ring
  · calc b * c' ≤ a * (1 + d) * (c * (1 + d')) := mul_le_mul h.ge h'.ge hc'.le (by positivity)
      _ = a * c * (1 + (d + d' + d * d')) := by ring

theorem inv (h : Within d a b) (ha : 0 < a) (hb : 0 < b) : Within d a⁻¹ b⁻¹ := by
  have hd := h.nonneg ha hb
  constructor
  · rw [inv_mul_eq_div, inv_eq_one_div, div_le_div_iff₀ ha hb]
    linarith [h.ge]
  · rw [inv_mul_eq_div, inv_eq_one_div, div_le_div_iff₀ hb ha]
    linarith [h.le]

theorem div (h : Within d a b) (h' : Within d' c c') (ha : 0 < a) (hb : 0 < b) (hc : 0 < c)
    (hc' : 0 < c') : Within (d + d' + d * d') (a / c) (b / c') := by
  rw [div_eq_mul_inv, div_eq_mul_inv]
  exact h.mul (h'.inv hc hc') ha hb (inv_pos.mpr hc) (inv_pos.mpr hc')

theorem trans (h : Within d a b) (h' : Within d' b c) (ha : 0 < a) (hb : 0 < b) (hc : 0 < c) :
    Within (d + d' + d * d') a c := by
  have hmul := h.mul h' ha hb hb hc
  constructor
  · have hle := hmul.le
    rw [mul_comm a b, mul_assoc] at hle
    exact le_of_mul_le_mul_left hle hb
  · have hge := hmul.ge
    rw [mul_comm a b, mul_assoc] at hge
    exact le_of_mul_le_mul_left hge hb

/-- Numbers that differ by less than `e` and are at least `c`. -/
theorem of_abs_sub_le {e : ℚ} (hc : 0 < c) (hca : c ≤ a) (hcb : c ≤ b) (h : |a - b| ≤ e) :
    Within (e / c) a b := by
  obtain ⟨hlow, hhigh⟩ := abs_le.mp h
  have he : 0 ≤ e := (abs_nonneg _).trans h
  have hscaled : ∀ x, c ≤ x → e ≤ x * (e / c) := by
    intro x hx
    rw [mul_div_assoc', le_div_iff₀ hc]
    nlinarith
  constructor
  · linarith [hscaled b hcb]
  · linarith [hscaled a hca]

/-- Numbers that differ by a small factor have positions that differ by a small number. -/
theorem abs_position_sub_le (h : Within d a b) (ha : 0 < a) (hb : 0 < b) :
    |position a - position b| ≤ 2 ^ 53 * d := by
  have hd := h.nonneg ha hb
  have hordered : ∀ {x y : ℚ}, 0 < x → x ≤ y → y ≤ x * (1 + d) →
      position y - position x ≤ 2 ^ 53 * d := by
    intro x y hx hxy hyx
    calc position y - position x ≤ units (binade x) (y - x) := position_sub_le hx hxy
      _ ≤ units (binade x) (x * d) := by
        unfold units
        gcongr
        linarith
      _ = units (binade x) x * d := by
        unfold units
        ring
      _ ≤ 2 ^ 53 * d := by
        gcongr
        exact (inBinade_binade hx).lt.le
  rcases le_total a b with hab | hba
  · rw [abs_sub_comm, abs_of_nonneg (sub_nonneg.mpr (position_le_position ha hab))]
    exact hordered ha hab h.ge
  · rw [abs_of_nonneg (sub_nonneg.mpr (position_le_position hb hba))]
    exact hordered hb hba h.le

end Within

end Floating

end LinearSystem
