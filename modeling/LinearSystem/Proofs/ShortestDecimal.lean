import LinearSystem.Proofs.Decimal
import LinearSystem.Proofs.Floating.Arithmetic

namespace LinearSystem

namespace Floating

open Decimal

variable {tie : Tie} {d n m : ℕ} {g q : ℤ}

section Halfway

/-- Halfway from a float to the next one. -/
def above (n : ℕ) : ℚ := ((4 * significand n + 2 : ℕ) : ℚ) * 2 ^ (exponent n - 2)

/-- Four times the significand halfway to the float before, which is nearer below a power of two. -/
def lowSignificand (m : ℕ) (q : ℤ) : ℕ :=
  if m = 1 <<< 52 ∧ -1074 < q then 4 * m - 1 else 4 * m - 2

theorem lowSignificand_spec (hm : 0 < m) (q : ℤ) :
    lowSignificand m q + 2 = 4 * m ∨ m = 2 ^ 52 ∧ lowSignificand m q + 1 = 4 * m := by
  unfold lowSignificand
  split_ifs with hpower
  · exact .inr ⟨hpower.1, by omega⟩
  · exact .inl (by omega)

/-- Halfway from a float to the one before. -/
def below (n : ℕ) : ℚ := lowSignificand (significand n) (exponent n) * 2 ^ (exponent n - 2)

theorem zpow_quarter (q : ℤ) : (2 : ℚ) ^ q = 4 * 2 ^ (q - 2) := by
  rw [zpow_sub₀ two_ne_zero]
  norm_num
  ring

theorem value_quarters (n : ℕ) : value n = (4 * significand n : ℕ) * 2 ^ (exponent n - 2) := by
  rw [value, zpow_quarter]
  push_cast
  ring

theorem value_lt_above (n : ℕ) : value n < above n := by
  rw [value_quarters, above]
  gcongr
  omega

/-- A number that is a half away from the significand on the line of a binade. -/
theorem position_of_units {t : ℕ} {r c : ℚ} (hr : 0 < r) (hunits : units t r = c)
    (hlt : c < 2 ^ 53) (hle : t = 0 ∨ 2 ^ 52 ≤ c) : position r = t * 2 ^ 52 + c := by
  have hbinade : InBinade t r := ⟨hunits ▸ hlt, hunits ▸ hle⟩
  rw [hbinade.position_eq hr, line, hunits]

theorem units_quarters {c : ℚ} (t : ℕ) (q : ℤ) (hq : q = t - 1074) :
    units t (c * 2 ^ (q - 2)) = c / 4 := by
  have hexp : q - 2 + (1074 - t) = -2 := by omega
  rw [units, mul_assoc, ← zpow_add₀ two_ne_zero, hexp]
  norm_num
  ring

theorem line_significand (n : ℕ) :
    ((exponent n + 1074).toNat : ℚ) * 2 ^ 52 + significand n = n := by
  exact_mod_cast exponent_mul_add_significand n

variable (hn : 0 < n)

include hn

theorem below_pos : 0 < below n := by
  have hlow : 0 < lowSignificand (significand n) (exponent n) := by
    have hpos := significand_pos hn
    have := lowSignificand_spec hpos (exponent n)
    omega
  have hlow' : (0 : ℚ) < lowSignificand (significand n) (exponent n) := by exact_mod_cast hlow
  unfold below
  positivity

theorem below_lt_value : below n < value n := by
  have hlt : lowSignificand (significand n) (exponent n) < 4 * significand n := by
    have := lowSignificand_spec (significand_pos hn) (exponent n)
    omega
  rw [value_quarters, below]
  gcongr

theorem position_above : position (above n) = n + 1 / 2 := by
  have hq : exponent n = (exponent n + 1074).toNat - 1074 := by
    have := le_exponent n
    omega
  have hlt : ((4 * significand n + 2 : ℕ) : ℚ) < 4 * 2 ^ 53 := by
    have := significand_lt n
    exact_mod_cast (by omega : 4 * significand n + 2 < 4 * 2 ^ 53)
  rw [position_of_units (value_pos hn |>.trans (value_lt_above n)) (units_quarters _ _ hq)]
  · have hline := line_significand n
    push_cast
    linarith
  · linarith
  · refine (toNat_eq_zero_or_le_significand n).imp_right fun hm => ?_
    have hm' : (2 : ℚ) ^ 52 ≤ significand n := by exact_mod_cast hm
    push_cast
    linarith

theorem position_below : position (below n) = n - 1 / 2 := by
  have hle := le_exponent n
  have hpos := significand_pos hn
  have hlt : (significand n : ℚ) < 2 ^ 53 := by exact_mod_cast significand_lt n
  have hline := line_significand n
  by_cases hpower : significand n = 1 <<< 52 ∧ -1074 < exponent n
  · obtain ⟨t, ht⟩ : ∃ t : ℕ, exponent n = t + 1 - 1074 := ⟨(exponent n + 1073).toNat, by omega⟩
    have hbelow : below n = (2 * (4 * 2 ^ 52 - 1)) * 2 ^ ((t : ℤ) - 1074 - 2) := by
      have hexp : exponent n - 2 = (t : ℤ) - 1074 - 2 + 1 := by omega
      have hlow : ((4 * 1 <<< 52 - 1 : ℕ) : ℚ) = 4 * 2 ^ 52 - 1 := by
        rw [Nat.one_shiftLeft]
        norm_num
      rw [below, lowSignificand, if_pos hpower, hpower.1, hexp, zpow_add_one₀ two_ne_zero, hlow]
      ring
    have htoNat : (exponent n + 1074).toNat = t + 1 := by omega
    have hsignificand : (significand n : ℚ) = 2 ^ 52 := by
      rw [hpower.1, Nat.one_shiftLeft]
      norm_num
    rw [htoNat, hsignificand] at hline
    rw [hbelow, position_of_units (by positivity) (units_quarters t _ rfl)]
    · push_cast at hline
      linarith
    · norm_num
    · right
      norm_num
  · have hq : exponent n = (exponent n + 1074).toNat - 1074 := by omega
    have hlow : ((4 * significand n - 2 : ℕ) : ℚ) = 4 * significand n - 2 := by
      rw [Nat.cast_sub (by omega)]
      push_cast
      rfl
    have hbelow : below n = (4 * significand n - 2) * 2 ^ (exponent n - 2) := by
      rw [below, lowSignificand, if_neg hpower, hlow]
    have hbelow' := hbelow ▸ below_pos hn
    rw [hbelow, position_of_units hbelow' (units_quarters _ _ hq)]
    · linarith
    · linarith
    · rw [Nat.one_shiftLeft] at hpower
      have hfull : (exponent n + 1074).toNat = 0 ∨ 2 ^ 52 + 1 ≤ significand n := by
        have := toNat_eq_zero_or_le_significand n
        omega
      refine hfull.imp_right fun hm => ?_
      have hm' : (2 : ℚ) ^ 52 + 1 ≤ significand n := by exact_mod_cast hm
      linarith

/-- The reals that read back are at least three quarters of a unit apart. -/
theorem three_quarters_le_gap : 3 / 4 * 2 ^ exponent n ≤ above n - below n := by
  have hlow : lowSignificand (significand n) (exponent n) + 3 ≤ 4 * significand n + 2 := by
    have := lowSignificand_spec (significand_pos hn) (exponent n)
    omega
  have hlow' : (lowSignificand (significand n) (exponent n) : ℚ) + 3 ≤
      (4 * significand n + 2 : ℕ) := by
    exact_mod_cast hlow
  have hscale : (0 : ℚ) < 2 ^ (exponent n - 2) := by positivity
  rw [zpow_quarter, above, below, ← sub_mul]
  nlinarith

/-- Seventeen digits tell a float from its neighbours. -/
theorem value_lt_gap : value n < 10 ^ 16 * (above n - below n) := by
  have hspec := lowSignificand_spec (significand_pos hn) (exponent n)
  have hlt := significand_lt n
  have hcount : 4 * significand n < 10 ^ 16 * (4 * significand n + 2 -
      lowSignificand (significand n) (exponent n)) := by
    omega
  have hle : lowSignificand (significand n) (exponent n) ≤ 4 * significand n + 2 := by
    omega
  have hcount' : ((4 * significand n : ℕ) : ℚ) < 10 ^ 16 * ((4 * significand n + 2 : ℕ) -
      lowSignificand (significand n) (exponent n)) := by
    rw [← Nat.cast_sub hle]
    exact_mod_cast hcount
  rw [value_quarters, above, below, ← sub_mul, ← mul_assoc]
  gcongr

end Halfway

section Reading

theorem even_significand_iff (n : ℕ) : significand n % 2 = 0 ↔ Even n := by
  have hline := exponent_mul_add_significand n
  rw [Nat.even_iff]
  omega

/-- The test against the two halfway points, on the numbers themselves. -/
theorem readsBack_eq_true_iff (n d : ℕ) (g : ℤ) :
    readsBack (significand n) (exponent n) d g = true ↔
      if Even n then below n ≤ d * 10 ^ g ∧ (d : ℚ) * 10 ^ g ≤ above n
      else below n < d * 10 ^ g ∧ (d : ℚ) * 10 ^ g < above n := by
  have hlow := atLeastBinary_iff (d := d) (g := g) (q := exponent n - 2)
    (m := lowSignificand (significand n) (exponent n))
  have hlow' := atMostBinary_iff (d := d) (g := g) (q := exponent n - 2)
    (m := lowSignificand (significand n) (exponent n))
  have hhigh := atMostBinary_iff (d := d) (g := g) (q := exponent n - 2)
    (m := 4 * significand n + 2)
  have hhigh' := atLeastBinary_iff (d := d) (g := g) (q := exponent n - 2)
    (m := 4 * significand n + 2)
  unfold lowSignificand at hlow hlow'
  unfold readsBack
  dsimp only
  by_cases heven : Even n
  · rw [if_pos ((even_significand_iff n).mpr heven), if_pos heven, Bool.and_eq_true, hlow, hhigh]
    rfl
  · rw [if_neg (mt (even_significand_iff n).mp heven), if_neg heven, Bool.and_eq_true,
      Bool.not_eq_true', ← Bool.not_eq_true, hlow', Bool.not_eq_true', ← Bool.not_eq_true, hhigh',
      not_le, not_le]
    rfl

theorem nearestEven_iff {p : ℚ} : NearestEven n p ↔
    if Even n then n - 1 / 2 ≤ p ∧ p ≤ n + 1 / 2 else n - 1 / 2 < p ∧ p < n + 1 / 2 := by
  split_ifs with heven
  · constructor
    · intro h
      have hnear := abs_le.mp h.near
      constructor <;> linarith
    · rintro ⟨hlow, hhigh⟩
      exact ⟨abs_le.mpr ⟨by linarith, by linarith⟩, fun _ => heven⟩
  · constructor
    · intro h
      have hnear := abs_lt.mp (lt_of_le_of_ne h.near fun htie => heven (h.tie htie))
      constructor <;> linarith
    · rintro ⟨hlow, hhigh⟩
      have hnear : |(n : ℚ) - p| < 1 / 2 := abs_lt.mpr ⟨by linarith, by linarith⟩
      exact ⟨hnear.le, fun htie => absurd htie hnear.ne⟩

/-- The test says which float is nearest. -/
theorem readsBack_iff (hn : 0 < n) (hd : 0 < d) :
    readsBack (significand n) (exponent n) d g = true ↔ NearestEven n (position (d * 10 ^ g)) := by
  have hd' : (0 : ℚ) < d := by exact_mod_cast hd
  have hr : (0 : ℚ) < d * 10 ^ g := by positivity
  have habove := below_pos hn |>.trans (below_lt_value hn) |>.trans (value_lt_above n)
  rw [readsBack_eq_true_iff, nearestEven_iff, ← position_above hn, ← position_below hn,
    position_le_position_iff (below_pos hn) hr, position_le_position_iff hr habove,
    position_lt_position_iff (below_pos hn) hr, position_lt_position_iff hr habove]

theorem readsBack_of_between (hlow : below n < d * 10 ^ g) (hhigh : (d : ℚ) * 10 ^ g < above n) :
    readsBack (significand n) (exponent n) d g = true := by
  rw [readsBack_eq_true_iff]
  split_ifs
  · exact ⟨hlow.le, hhigh.le⟩
  · exact ⟨hlow, hhigh⟩

end Reading

section Grid

/-- On a grid finer than the reals that read back are wide, one of the two candidates does. -/
theorem onGrid?_isSome (hn : 0 < n) (hgap : 10 ^ g < above n - below n) :
    (onGrid? tie (significand n) (exponent n) g).isSome = true := by
  have hfloor := floorOnGrid_le (significand n) (exponent n) g
  have hceil := lt_floorOnGrid_succ (significand n) (exponent n) g
  rw [← value] at hfloor hceil
  apply onGrid?_isSome_of_readsBack
  rcases lt_or_ge (below n) (floorOnGrid (significand n) (exponent n) g * 10 ^ g) with hin | hout
  · exact .inl (readsBack_of_between hin (hfloor.trans_lt (value_lt_above n)))
  · refine .inr (readsBack_of_between ((below_lt_value hn).trans hceil) ?_)
    push_cast
    linarith

end Grid

section Scale

variable (hn : 0 < n) (hfinite : n < infinityBits)

include hn hfinite

theorem scale_value :
    (10 : ℚ) ^ (scale (significand n) (exponent n) - 1) ≤ value n ∧
      value n < 10 ^ scale (significand n) (exponent n) := by
  have hpos := significand_pos hn
  have hlog : (significand n).log2 < 53 := (Nat.log2_lt hpos.ne').mpr (significand_lt n)
  have hexponent : exponent n ≤ 971 := by
    unfold exponent infinityBits at *
    omega
  have := le_exponent n
  exact scale_spec hpos (by omega) (by omega)

/-- The least positive float is above `10 ^ -324`. -/
theorem le_scale : -323 ≤ scale (significand n) (exponent n) := by
  have hleast : (10 : ℚ) ^ (-324 : ℤ) < 2 ^ (-1074 : ℤ) := by
    have hcheck : atLeastBinary 1 (-324) 1 (-1074) = false := by decide +kernel
    rw [← Bool.not_eq_true, atLeastBinary_iff, not_le, Nat.cast_one, one_mul, one_mul] at hcheck
    exact hcheck
  have hvalue : (2 : ℚ) ^ (-1074 : ℤ) ≤ value n := by
    have hone : (1 : ℚ) ≤ significand n := by exact_mod_cast significand_pos hn
    calc (2 : ℚ) ^ (-1074 : ℤ) ≤ 2 ^ exponent n := zpow_le_zpow_right₀ one_le_two (le_exponent n)
      _ ≤ value n := le_mul_of_one_le_left (by positivity) hone
  have hlt := hleast.trans_le hvalue |>.trans (scale_value hn hfinite).2
  have := (zpow_lt_zpow_iff_right₀ (by norm_num : (1 : ℚ) < 10)).mp hlt
  omega

end Scale

end Floating

namespace Decimal

open Floating

variable {tie : Tie} {n : ℕ} {g : ℤ}

section Stands

/-- The number that a decimal stands for. -/
def toRat (d : Decimal) : ℚ := d.digits * 10 ^ d.exponent

/-- A decimal that a float may be written as: short, and nearest to this float. -/
structure Stands (d : Decimal) (n : ℕ) : Prop where
  digits_pos : 0 < d.digits
  digits_le : d.digits ≤ 10 ^ 17
  le_exponent : -324 ≤ d.exponent
  nearest : NearestEven n (position d.toRat)

variable {d : Decimal}

theorem Stands.toRat_pos (h : d.Stands n) : 0 < d.toRat := by
  have hdigits : (0 : ℚ) < d.digits := by exact_mod_cast h.digits_pos
  unfold toRat
  positivity

theorem toRat_strip_step {digits : ℕ} {e : ℤ} (h : digits % 10 = 0) :
    toRat ⟨digits / 10, e + 1⟩ = toRat ⟨digits, e⟩ := by
  have hdigits : (digits : ℚ) = (digits / 10 : ℕ) * 10 := by
    exact_mod_cast (Nat.div_mul_cancel (Nat.dvd_of_mod_eq_zero h)).symm
  rw [toRat, toRat, hdigits, zpow_add_one₀ (by norm_num)]
  ring

theorem Stands.strip (h : d.Stands n) (fuel : ℕ) : (strip fuel d).Stands n := by
  induction fuel generalizing d with
  | zero => exact h
  | succ fuel ih =>
    unfold Decimal.strip
    split
    next hten =>
      refine ih ⟨?_, ?_, ?_, ?_⟩
      · have := h.digits_pos
        dsimp only
        omega
      · have := h.digits_le
        dsimp only
        omega
      · have := h.le_exponent
        dsimp only
        omega
      · rw [toRat_strip_step hten]
        exact h.nearest
    next => exact h

/-- What is past `10 ^ 309` reads as infinity. -/
theorem Stands.exponent_le (h : d.Stands n) (hfinite : n < infinityBits) : d.exponent ≤ 308 := by
  have hinfinity : value infinityBits < 10 ^ (309 : ℤ) := by
    have hcheck : atMostBinary 1 309 (significand infinityBits)
        (Floating.exponent infinityBits) = false := by
      decide +kernel
    rw [← Bool.not_eq_true, atMostBinary_iff, not_le, Nat.cast_one, one_mul] at hcheck
    exact hcheck
  have hpos : 0 < infinityBits := by norm_num [infinityBits]
  have hone : (1 : ℚ) ≤ d.digits := by exact_mod_cast h.digits_pos
  have hpower : (10 : ℚ) ^ d.exponent ≤ d.toRat := le_mul_of_one_le_left (by positivity) hone
  have hlt : d.toRat < value infinityBits := by
    have hnear := (abs_le.mp h.nearest.near).1
    have hsucc : ((n + 1 : ℕ) : ℚ) ≤ infinityBits := by exact_mod_cast hfinite
    rw [← position_lt_position_iff h.toRat_pos (value_pos hpos), position_value hpos]
    push_cast at hsucc
    linarith
  have := (zpow_lt_zpow_iff_right₀ (by norm_num : (1 : ℚ) < 10)).mp
    (hpower.trans_lt (hlt.trans hinfinity))
  omega

variable (hn : 0 < n) (hfinite : n < infinityBits)

include hn

theorem onGrid?_isSome_least (tie : Tie) :
    (onGrid? tie (significand n) (Floating.exponent n) (-324)).isSome = true := by
  have hleast : (10 : ℚ) ^ (-324 : ℤ) < 3 / 4 * 2 ^ (-1074 : ℤ) := by
    have hcheck : atLeastBinary 4 (-324) 3 (-1074) = false := by decide +kernel
    rw [← Bool.not_eq_true, atLeastBinary_iff, not_le] at hcheck
    rw [div_mul_eq_mul_div, lt_div_iff₀ (by norm_num), mul_comm]
    exact hcheck
  have hspacing : (2 : ℚ) ^ (-1074 : ℤ) ≤ 2 ^ Floating.exponent n :=
    zpow_le_zpow_right₀ one_le_two (le_exponent n)
  refine onGrid?_isSome hn (hleast.trans_le (le_trans ?_ (three_quarters_le_gap hn)))
  gcongr

include hfinite

theorem onGrid?_isSome_seventeen (tie : Tie) :
    (onGrid? tie (significand n) (Floating.exponent n)
      (scale (significand n) (Floating.exponent n) - 17)).isSome = true := by
  obtain ⟨hlow, -⟩ := scale_value hn hfinite
  have hgap := value_lt_gap hn
  refine onGrid?_isSome hn ?_
  generalize scale (significand n) (Floating.exponent n) = k at hlow ⊢
  have hpower : (10 : ℚ) ^ (k - 1) = 10 ^ 16 * 10 ^ (k - 17) := by
    have hexp : k - 1 = 16 + (k - 17) := by ring
    rw [hexp, zpow_add₀ (by norm_num)]
    norm_cast
  rw [hpower] at hlow
  exact lt_of_mul_lt_mul_left (hlow.trans_lt hgap) (by norm_num)

/-- At most seventeen digits are found on a grid. -/
theorem digits_le_of_onGrid? {digits : ℕ}
    (hg : scale (significand n) (Floating.exponent n) - 17 ≤ g)
    (h : onGrid? tie (significand n) (Floating.exponent n) g = some digits) : digits ≤ 10 ^ 17 := by
  have hvalue := (scale_value hn hfinite).2
  have hfloor := floorOnGrid_le (significand n) (Floating.exponent n) g
  obtain ⟨-, -, hle⟩ := onGrid?_spec (significand_pos hn) h
  have hlt : (floorOnGrid (significand n) (Floating.exponent n) g : ℚ) < 10 ^ 17 := by
    refine lt_of_mul_lt_mul_right (a := (10 : ℚ) ^ g) ?_ (by positivity)
    calc (floorOnGrid (significand n) (Floating.exponent n) g : ℚ) * 10 ^ g ≤ value n := hfloor
      _ < 10 ^ scale (significand n) (Floating.exponent n) := hvalue
      _ ≤ 10 ^ (17 + g) := zpow_le_zpow_right₀ (by norm_num) (by omega)
      _ = 10 ^ 17 * 10 ^ g := by
        rw [zpow_add₀ (by norm_num)]
        norm_cast
  have : floorOnGrid (significand n) (Floating.exponent n) g < 10 ^ 17 := by exact_mod_cast hlt
  omega

omit hn hfinite in
/-- The first grid on which a decimal is found gives its digits. -/
theorem exists_shortest {m : ℕ} {q : ℤ} (h : (onGrid? tie m q (scale m q - 17)).isSome = true) :
    ∃ i < 17, ∃ digits, onGrid? tie m q (scale m q - (i + 1 : ℕ)) = some digits ∧
      (∀ j < i, onGrid? tie m q (scale m q - (j + 1 : ℕ)) = none) ∧
      shortest tie m q = strip 20 ⟨digits, scale m q - (i + 1 : ℕ)⟩ := by
  unfold shortest
  generalize scale m q = k at h ⊢
  dsimp only
  cases hfound : (List.range 17).findSome? fun i : ℕ =>
      (onGrid? tie m q (k - (i + 1 : ℕ))).map fun d => Decimal.mk d (k - (i + 1 : ℕ)) with
  | none =>
    have hnone := List.findSome?_eq_none_iff.mp hfound 16 (by simp)
    rw [Option.map_eq_none_iff, ← Option.not_isSome_iff_eq_none] at hnone
    exact absurd h hnone
  | some d =>
    obtain ⟨before, i, after, hrange, hi, hbefore⟩ := List.findSome?_eq_some_iff.mp hfound
    obtain ⟨digits, hgrid, rfl⟩ := Option.map_eq_some_iff.mp hi
    have hmem : i < 17 := List.mem_range.mp (by rw [hrange]; simp)
    refine ⟨i, hmem, digits, hgrid, ?_, rfl⟩
    intro j hj
    have hall : j ∈ before ++ i :: after := by
      rw [← hrange, List.mem_range]
      omega
    have hsorted : (before ++ i :: after).Pairwise (· < ·) := hrange ▸ List.pairwise_lt_range
    have hearlier : j ∈ before := by
      rcases List.mem_append.mp hall with hin | hin
      · exact hin
      · rcases List.mem_cons.mp hin with rfl | hafter
        · omega
        · have := List.rel_of_pairwise_cons (List.pairwise_append.mp hsorted).2.1 hafter
          omega
    exact Option.map_eq_none_iff.mp (hbefore j hearlier)

/-- The decimal that a positive float is written as has at most seventeen digits, and no other float
is as near to it. -/
theorem shortest_stands (tie : Tie) :
    (shortest tie (significand n) (Floating.exponent n)).Stands n := by
  have hscale := le_scale hn hfinite
  obtain ⟨i, hi, digits, hgrid, hbefore, hshortest⟩ :=
    exists_shortest (onGrid?_isSome_seventeen hn hfinite tie)
  obtain ⟨hpos, hreads, -⟩ := onGrid?_spec (significand_pos hn) hgrid
  have hdigits := digits_le_of_onGrid? hn hfinite (by omega) hgrid
  rw [hshortest]
  refine Stands.strip ⟨hpos, hdigits, ?_, ?_⟩ 20
  · by_contra hfine
    dsimp only at hfine
    have hleast := onGrid?_isSome_least hn tie
    have hnone := hbefore (scale (significand n) (Floating.exponent n) + 323).toNat (by omega)
    have hexp : scale (significand n) (Floating.exponent n) -
        ((scale (significand n) (Floating.exponent n) + 323).toNat + 1 : ℕ) = -324 := by
      omega
    rw [hexp] at hnone
    rw [hnone] at hleast
    cases hleast
  · exact (readsBack_iff hn hpos).mp hreads

omit hn hfinite in
theorem shortest_digits_pos_of_view {x : Float} {negative : Bool} {m : ℕ} {q : ℤ} (tie : Tie)
    (hview : Binary.view x = .finite negative m q) (hm : m ≠ 0) :
    0 < (shortest tie m q).digits := by
  obtain ⟨n, hfinite, rfl, rfl⟩ := exists_bits_of_view hview
  have hn : 0 < n := by
    rw [Nat.pos_iff_ne_zero]
    rintro rfl
    exact hm rfl
  exact (shortest_stands hn hfinite tie).digits_pos

end Stands

end Decimal

end LinearSystem
