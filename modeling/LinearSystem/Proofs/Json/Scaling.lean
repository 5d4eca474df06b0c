import LinearSystem.Proofs.Json.PowersOfTen

namespace LinearSystem.Json

open Floating

section Count

variable {n s : ℕ}

theorem binade_count (s : ℕ) : binade s = s.log2 + 1022 := by
  have hlog : Int.log 2 (s : ℚ) = s.log2 := by
    rw [Int.log_natCast, Nat.log2_eq_log_two]
  rw [binade, hlog]
  omega

theorem units_count (s : ℕ) : units (binade s) s = s * 2 ^ (52 - (s.log2 : ℤ)) := by
  have hexp : (1074 : ℤ) - (s.log2 + 1022 : ℕ) = 52 - s.log2 := by
    push_cast
    ring
  rw [units, binade_count, hexp]

theorem le_units_count (hpos : 0 < s) : 2 ^ 52 ≤ units (binade (s : ℚ)) s := by
  have hbinade := inBinade_binade (r := s) (by exact_mod_cast hpos)
  refine hbinade.le.resolve_left ?_
  rw [binade_count]
  omega

/-- Integers up to `2 ^ 53` are floats. -/
theorem value_of_count (hpos : 0 < s) (hle : s ≤ 2 ^ 53) (h : NearestEven n (position s)) :
    value n = s := by
  have hpos' : (0 : ℚ) < s := by exact_mod_cast hpos
  rcases hle.lt_or_eq with hlt | rfl
  · have hlog : s.log2 < 53 := (Nat.log2_lt hpos.ne').mpr hlt
    have hexp : (52 : ℤ) - s.log2 = (52 - s.log2 : ℕ) := by omega
    refine value_eq_of_units (M := s * 2 ^ (52 - s.log2)) hpos' ?_ h
    rw [units_count, hexp, zpow_natCast]
    push_cast
    rfl
  · have hlog : (2 ^ 53 : ℕ).log2 = 53 := by decide +kernel
    refine value_eq_of_units (M := 2 ^ 52) hpos' ?_ h
    rw [units_count, hlog]
    norm_num

/-- The bits of an integer that fits in sixty-four bits, as a float. -/
structure CountBits (s n : ℕ) : Prop where
  pos : 0 < s
  lt : s < 2 ^ 64
  nearest : NearestEven n (position s)

variable (h : CountBits s n)

include h

theorem CountBits.normal : 2 ^ 52 ≤ n ∧ n < infinityBits := by
  have hbounds := bits_of_count h.pos h.lt h.nearest
  unfold infinityBits
  omega

theorem CountBits.bits_pos : 0 < n := Nat.lt_of_lt_of_le (by norm_num) h.normal.1

theorem CountBits.value_pos : 0 < value n := Floating.value_pos h.bits_pos

theorem CountBits.within : Within (1 / 2 ^ 53) (value n) s := by
  have hwithin := within_of_nearestEven (c := 2 ^ 52) (by exact_mod_cast h.pos) h.nearest
    (by norm_num) (by exact_mod_cast le_units_count h.pos)
  norm_num at hwithin ⊢
  exact hwithin

end Count

section Once

variable {s n k : ℕ}

/-- One rounded multiplication by a power of ten. -/
theorem mul_power_close (h : CountBits s n) (hk : k < 309) :
    |position (value n * value (powerBits k)) - position (s * 10 ^ k)| < 2 := by
  have hs : (0 : ℚ) < s := by exact_mod_cast h.pos
  have hpower := value_powerBits_pos hk
  have hwithin := h.within.mul (within_powerBits hk) h.value_pos hs hpower (by positivity)
  refine (hwithin.abs_position_sub_le (mul_pos h.value_pos hpower) (by positivity)).trans_lt ?_
  norm_num

theorem div_power_close (h : CountBits s n) (hk : k < 309) :
    |position (value n / value (powerBits k)) - position (s / 10 ^ k)| < 2 := by
  have hs : (0 : ℚ) < s := by exact_mod_cast h.pos
  have hpower := value_powerBits_pos hk
  have hwithin := h.within.div (within_powerBits hk) h.value_pos hs hpower (by positivity)
  refine (hwithin.abs_position_sub_le (div_pos h.value_pos hpower) (by positivity)).trans_lt ?_
  norm_num

end Once

section Twice

variable {s n q j : ℕ}

theorem largest_pos : 0 < value (powerBits 308) := value_powerBits_pos (by norm_num)

/-- Where a float is smaller in its binade than the power of ten in its own, the quotient is large
in its binade, for it drops below the difference of the two. -/
theorem le_units_quotient {M t t' : ℕ} (hM : units t (value n) = M) (hle : 2 ^ 52 ≤ M)
    (hlt : M < 5010420900022432) (hnormal : 2 ^ 52 ≤ units t' (value n / value (powerBits 308))) :
    8096090132292424 ≤ units t' (value n / value (powerBits 308)) := by
  have hle' : (2 : ℚ) ^ 52 ≤ M := by exact_mod_cast hle
  have hlt' : (M : ℚ) < 5010420900022432 := by exact_mod_cast hlt
  have hunits : units t' (value n / value (powerBits 308)) =
      M / 5010420900022432 * 2 ^ ((t : ℤ) - 971 - t') := by
    have hvalue : value n = M * 2 ^ ((t : ℤ) - 1074) := by
      have hexp : 1074 - (t : ℤ) + ((t : ℤ) - 1074) = 0 := by ring
      rw [← hM, units, mul_assoc, ← zpow_add₀ two_ne_zero, hexp, zpow_zero, mul_one]
    have hpow : (2 : ℚ) ^ ((t : ℤ) - 971 - t') =
        2 ^ ((t : ℤ) - 1074) * 2 ^ (1074 - (t' : ℤ)) / 2 ^ (971 : ℤ) := by
      rw [← zpow_add₀ two_ne_zero, ← zpow_sub₀ two_ne_zero]
      congr 1
      ring
    rw [units, value_largest, hvalue, hpow, mul_div_mul_comm]
    ring
  rw [hunits] at hnormal ⊢
  have hfactor : (M : ℚ) / 5010420900022432 < 1 := by
    rw [div_lt_one (by norm_num)]
    exact hlt'
  have hexp : 53 ≤ (t : ℤ) - 971 - t' := by
    have hpow : (2 : ℚ) ^ (52 : ℤ) < 2 ^ ((t : ℤ) - 971 - t') :=
      calc (2 : ℚ) ^ (52 : ℤ) = 2 ^ 52 := by norm_num
        _ ≤ M / 5010420900022432 * 2 ^ ((t : ℤ) - 971 - t') := hnormal
        _ < 2 ^ ((t : ℤ) - 971 - t') := mul_lt_of_lt_one_left (by positivity) hfactor
    have := (zpow_lt_zpow_iff_right₀ one_lt_two).mp hpow
    omega
  calc (8096090132292424 : ℚ) ≤ 2 ^ 52 / 5010420900022432 * 2 ^ (53 : ℤ) := by norm_num
    _ ≤ M / 5010420900022432 * 2 ^ ((t : ℤ) - 971 - t') := by
      gcongr
      exact one_le_two

variable (h : CountBits s n) (hq : NearestEven q (position (value n / value (powerBits 308))))

include h

theorem quotient_bounds : value 1 ≤ value n / value (powerBits 308) ∧
    value n / value (powerBits 308) < 1 := by
  have hs : (1 : ℚ) ≤ s := by exact_mod_cast h.pos
  have hs' : (s : ℚ) < 2 ^ 64 := by exact_mod_cast h.lt
  have hlow : 1 / 2 ≤ value n := by
    have hge := h.within.ge
    norm_num at hge
    linarith
  have hhigh : value n < 2 ^ 66 := by
    have hle := h.within.le
    norm_num at hle ⊢
    linarith
  have hone : value 1 = 2 ^ (-1074 : ℤ) := one_mul _
  rw [value_largest]
  constructor
  · have hcombine : (2 : ℚ) ^ (-1074 : ℤ) * (5010420900022432 * 2 ^ (971 : ℤ)) =
        5010420900022432 * 2 ^ (-103 : ℤ) := by
      rw [mul_left_comm, ← zpow_add₀ two_ne_zero]
      rfl
    have hhalf : (5010420900022432 : ℚ) * 2 ^ (-103 : ℤ) ≤ 1 / 2 := by norm_num
    rw [hone, le_div_iff₀ (by positivity), hcombine]
    exact hhalf.trans hlow
  · have hpow : (2 : ℚ) ^ 66 ≤ 2 ^ (971 : ℤ) := by
      rw [← zpow_natCast]
      exact zpow_le_zpow_right₀ one_le_two (by norm_num)
    rw [div_lt_one (by positivity)]
    have hfactor : (2 : ℚ) ^ (971 : ℤ) ≤ 5010420900022432 * 2 ^ (971 : ℤ) :=
      le_mul_of_one_le_left (by positivity) (by norm_num)
    exact hhigh.trans_le (hpow.trans hfactor)

include hq

theorem quotient_bits : 0 < q ∧ q < infinityBits := by
  obtain ⟨hlow, hhigh⟩ := quotient_bounds h
  have hone : 0 < value 1 := value_pos one_pos
  constructor
  · refine hq.le_of_le (k := 1) ?_
    rw [← position_value one_pos]
    exact position_le_position hone hlow
  · have hle : q ≤ 1023 * 2 ^ 52 := by
      refine hq.le_of_lt ?_
      rw [← position_value (n := 1023 * 2 ^ 52) (by norm_num), value_one]
      exact position_lt_position (hone.trans_le hlow) hhigh
    unfold infinityBits
    omega

/-- The two roundings of a quotient are not both at their worst. -/
theorem within_quotient
    (hnormal : 2 ^ 52 ≤ units (binade (value n / value (powerBits 308)))
      (value n / value (powerBits 308))) :
    Within (19995 / (10000 * 2 ^ 53)) (value q) (s / 10 ^ 308) := by
  have hs : (0 : ℚ) < s := by exact_mod_cast h.pos
  have hq0 : 0 < value q := value_pos (quotient_bits h hq).1
  have hQ : 0 < value n / value (powerBits 308) := div_pos h.value_pos largest_pos
  have hsplit : ∀ a b : ℚ, Within a (value n) s →
      Within b (value q) (value n / value (powerBits 308)) →
      b + (a + 10 / (100 * 2 ^ 53) + a * (10 / (100 * 2 ^ 53))) +
        b * (a + 10 / (100 * 2 ^ 53) + a * (10 / (100 * 2 ^ 53))) ≤ 19995 / (10000 * 2 ^ 53) →
      Within (19995 / (10000 * 2 ^ 53)) (value q) (s / 10 ^ 308) := by
    intro a b ha hb hsum
    have hdiv := ha.div within_largest h.value_pos hs largest_pos (by positivity)
    exact (hb.trans hdiv hq0 hQ (by positivity)).mono hq0 (by positivity) hsum
  obtain ⟨M, hM, hunits⟩ := nearestEven_units hs h.nearest
  rcases Nat.lt_or_ge M 5010420900022432 with hlt | hge
  · have hfull : 2 ^ 52 ≤ M := hM.le_of_le (by exact_mod_cast le_units_count h.pos)
    have hlarge := le_units_quotient hunits hfull hlt hnormal
    have hb := within_of_nearestEven (c := 8096090132292424) hQ hq (by norm_num)
      (by exact_mod_cast hlarge)
    exact hsplit _ _ h.within hb (by norm_num)
  · have hlarge : 5010420900022431 ≤ units (binade (s : ℚ)) s := by
      have hnear := (abs_le.mp hM.near).2
      have hcast : (5010420900022432 : ℚ) ≤ M := by exact_mod_cast hge
      linarith
    have ha := within_of_nearestEven (c := 5010420900022431) hs h.nearest (by norm_num)
      (by exact_mod_cast hlarge)
    have hb := within_of_nearestEven (c := 2 ^ 52) hQ hq (by norm_num) (by exact_mod_cast hnormal)
    exact hsplit _ _ ha hb (by norm_num)

/-- A division by `10 ^ 308` and one by a small power of ten. -/
theorem div_twice_close (hj : 1 ≤ j) :
    |position (value q / 10 ^ j) - position (s / 10 ^ (308 + j))| < 2 := by
  have hs : (0 : ℚ) < s := by exact_mod_cast h.pos
  have hq0 : 0 < value q := value_pos (quotient_bits h hq).1
  have hQ : 0 < value n / value (powerBits 308) := div_pos h.value_pos largest_pos
  rw [pow_add, ← div_div]
  rcases (inBinade_binade hQ).le with hzero | hnormal
  · obtain ⟨M, hM, hunits⟩ := nearestEven_units hQ hq
    rw [hzero] at hM hunits
    have hsmall : |position (value q / 10 ^ j) -
        position (value n / value (powerBits 308) / 10 ^ j)| ≤ 1 / 20 := by
      have hdiff : units 0 (value q / 10 ^ j) -
          units 0 (value n / value (powerBits 308) / 10 ^ j) =
          (M - units 0 (value n / value (powerBits 308))) / 10 ^ j := by
        rw [← hunits, units, units, units, units]
        ring
      have hten : (10 : ℚ) ^ 1 ≤ 10 ^ j := pow_le_pow_right₀ (by norm_num) hj
      have hnear := hM.near
      refine (abs_position_sub_le (by positivity) (by positivity)).trans ?_
      rw [hdiff, abs_div, abs_of_pos (a := (10 : ℚ) ^ j) (by positivity),
        div_le_iff₀ (by positivity)]
      linarith
    have hrest : |position (value n / value (powerBits 308) / 10 ^ j) -
        position (s / 10 ^ 308 / 10 ^ j)| ≤ 3 / 2 := by
      have hdiv := h.within.div within_largest h.value_pos hs largest_pos (by positivity)
      have hwithin := hdiv.div (.refl (10 ^ j)) hQ (by positivity) (by positivity) (by positivity)
      refine (hwithin.abs_position_sub_le (by positivity) (by positivity)).trans ?_
      norm_num
    have htriangle := abs_sub_le (position (value q / 10 ^ j))
      (position (value n / value (powerBits 308) / 10 ^ j)) (position (s / 10 ^ 308 / 10 ^ j))
    linarith
  · have hwithin := (within_quotient h hq hnormal).div (.refl (10 ^ j)) hq0 (by positivity)
      (by positivity) (by positivity)
    refine (hwithin.abs_position_sub_le (by positivity) (by positivity)).trans_lt ?_
    norm_num

end Twice

section Reader

variable {s : ℕ} {e : ℤ}

/-- What scaling an integer by a power of ten comes to: the float nearest to a number whose position
is close to that of the decimal, and which is the decimal itself if both factors are floats. It is
read unless it is past the largest float. -/
structure Scaled (s : ℕ) (e : ℤ) (r : ℚ) (n : ℕ) : Prop where
  nearest : NearestEven n (position r)
  close : |position r - position (s * 10 ^ e)| < 2
  eq : s ≤ 2 ^ 53 → -22 ≤ e → e ≤ 22 → r = s * 10 ^ e
  read : n < infinityBits → ∃ y, scaleByTen? (Float.ofNat s) e = some y ∧ y.toBits.toNat = n

theorem countBits (hpos : 0 < s) (hlt : s < 2 ^ 64) :
    CountBits s (Float.ofNat s).toBits.toNat :=
  ⟨hpos, hlt, toBits_ofNat hpos hlt⟩

section Ranges

variable {x : Float} {a k j : ℕ}

/-- One multiplication, unless it goes past the largest float. -/
theorem scaleByTen?_of_nonneg (hk : k ≤ 308) (hinf : (x * powerOfTen k).isInf = false) :
    scaleByTen? x k = some (x * powerOfTen k) := by
  have hk' : (k : ℤ) ≤ 308 := by omega
  rw [scaleByTen?, if_pos (Int.natCast_nonneg k), if_pos hk']
  dsimp only
  rw [Int.toNat_natCast, hinf]
  rfl

/-- One division. -/
theorem scaleByTen?_of_neg (hk : 1 ≤ k) (hk' : k ≤ 308) :
    scaleByTen? x (-k) = some (x / powerOfTen k) := by
  have hneg : ¬(0 : ℤ) ≤ -(k : ℤ) := by omega
  have hexp : (- -(k : ℤ)).toNat = k := by omega
  have hzero : (k - 1) / 308 = 0 := by omega
  rw [scaleByTen?, if_neg hneg]
  dsimp only
  rw [hexp, hzero, Nat.mul_zero, Nat.sub_zero]
  rfl

/-- A division by the largest power of ten, and one by what is left. -/
theorem scaleByTen?_of_small (hj : 1 ≤ j) (hj' : j ≤ 308) (hx : (x == 0) = false) :
    scaleByTen? x (-(308 + j : ℕ)) = some (x / powerOfTen 308 / powerOfTen j) := by
  have hneg : ¬(0 : ℤ) ≤ -((308 + j : ℕ) : ℤ) := by omega
  have hexp : (- -((308 + j : ℕ) : ℤ)).toNat = 308 + j := by omega
  have hone : (308 + j - 1) / 308 = 1 := by omega
  have hrest : 308 + j - 308 * 1 = j := by omega
  have hdown : divideDown 1 x = x / powerOfTen 308 := by
    rw [divideDown, hx]
    rfl
  rw [scaleByTen?, if_neg hneg]
  dsimp only
  rw [hexp, hone, hrest, hdown]

theorem toBits_div_power (hx : x.toBits.toNat = a) (ha : 0 < a) (ha' : a < infinityBits)
    (hk : k < 309) : ∃ n, NearestEven n (position (value a / value (powerBits k))) ∧
      (x / powerOfTen k).toBits.toNat = min n infinityBits :=
  toBits_div hx rfl ha ha' (powerBits_pos hk) (powerBits_range hk).2

end Ranges

theorem exists_scaled_mul {k : ℕ} (hpos : 0 < s) (hlt : s < 2 ^ 64) (hk : k ≤ 308) :
    ∃ r n, Scaled s k r n := by
  have h := countBits hpos hlt
  have hk' : k < 309 := by omega
  obtain ⟨n, hn, hbits⟩ := toBits_mul (y := powerOfTen k) (b := powerBits k) rfl rfl
    h.normal.1 h.normal.2 (powerBits_pos hk') (powerBits_range hk').2
  have hclose : |position (value (Float.ofNat s).toBits.toNat * value (powerBits k)) -
      position (s * 10 ^ (k : ℤ))| < 2 := by
    rw [zpow_natCast]
    exact mul_power_close h hk'
  refine ⟨_, n, hn, hclose, ?_, ?_⟩
  · intro hs _ hsmall
    rw [value_of_count hpos hs h.nearest, zpow_natCast]
    exact congrArg (_ * ·) (value_powerBits (by omega))
  · intro hfinite
    have hn0 : 0 < n := by
      have hone : position 1 ≤ position (s * 10 ^ (k : ℤ)) := by
        refine position_le_position one_pos (one_le_mul_of_one_le_of_one_le ?_ ?_)
        · exact_mod_cast hpos
        · exact one_le_zpow₀ (by norm_num) (Int.natCast_nonneg k)
      rw [← value_one, position_value (by norm_num)] at hone
      refine hn.le_of_le (k := 1) ?_
      have hlow := (abs_lt.mp hclose).1
      norm_num at hone hlow ⊢
      linarith
    rw [min_eq_left hfinite.le] at hbits
    exact ⟨_, scaleByTen?_of_nonneg hk (isInf_of_bits hbits hn0 hfinite), hbits⟩

theorem exists_scaled_div {k : ℕ} (hpos : 0 < s) (hlt : s < 2 ^ 64) (hk : 1 ≤ k) (hk' : k ≤ 308) :
    ∃ r n, Scaled s (-k) r n := by
  have h := countBits hpos hlt
  obtain ⟨n, hn, hbits⟩ := toBits_div_power rfl h.bits_pos h.normal.2 (by omega : k < 309)
  refine ⟨_, n, hn, ?_, ?_, ?_⟩
  · rw [zpow_neg, zpow_natCast, ← div_eq_mul_inv]
    exact div_power_close h (by omega)
  · intro hs hsmall _
    rw [value_of_count hpos hs h.nearest, zpow_neg, zpow_natCast, ← div_eq_mul_inv]
    exact congrArg (_ / ·) (value_powerBits (by omega))
  · intro hfinite
    rw [min_eq_left hfinite.le] at hbits
    exact ⟨_, scaleByTen?_of_neg hk hk', hbits⟩

/-- Below `10 ^ -308` the power is split: one division by the largest power of ten and one by what
is left of it. -/
theorem exists_scaled_div_twice {j : ℕ} (hpos : 0 < s) (hlt : s < 2 ^ 64) (hj : 1 ≤ j)
    (hj' : j ≤ 22) : ∃ r n, Scaled s (-(308 + j : ℕ)) r n := by
  have h := countBits hpos hlt
  obtain ⟨q, hq, hfirst⟩ := toBits_div_power rfl h.bits_pos h.normal.2 (by omega : 308 < 309)
  have hqbits := quotient_bits h hq
  rw [min_eq_left hqbits.2.le] at hfirst
  obtain ⟨n, hn, hbits⟩ := toBits_div_power hfirst hqbits.1 hqbits.2 (by omega : j < 309)
  rw [value_powerBits (by omega)] at hn
  refine ⟨_, n, hn, ?_, ?_, ?_⟩
  · rw [zpow_neg, zpow_natCast, ← div_eq_mul_inv]
    exact div_twice_close h hq hj
  · intro _ hsmall _
    omega
  · intro hfinite
    rw [min_eq_left hfinite.le] at hbits
    have hnonzero := beq_zero_of_bits rfl h.bits_pos h.normal.2
    exact ⟨_, scaleByTen?_of_small hj (by omega) hnonzero, hbits⟩

/-- Every exponent from the least to the largest that a float is written with. -/
theorem exists_scaled (hpos : 0 < s) (hlt : s < 2 ^ 64) (he : -324 ≤ e) (he' : e ≤ 308) :
    ∃ r n, Scaled s e r n := by
  by_cases hsign : 0 ≤ e
  · obtain ⟨k, rfl⟩ := Int.eq_ofNat_of_zero_le hsign
    exact exists_scaled_mul hpos hlt (by omega)
  by_cases hlarge : -308 ≤ e
  · obtain ⟨k, rfl⟩ : ∃ k : ℕ, e = -k := ⟨(-e).toNat, by omega⟩
    exact exists_scaled_div hpos hlt (by omega) (by omega)
  · obtain ⟨j, rfl⟩ : ∃ j : ℕ, e = -(308 + j : ℕ) := ⟨(-e).toNat - 308, by omega⟩
    exact exists_scaled_div_twice hpos hlt (by omega) (by omega)

end Reader

end LinearSystem.Json
