import LinearSystem.Proofs.Floating.Rounding
import LinearSystem.Proofs.Tolerance

namespace LinearSystem

open Float.Model Float.Model.UnpackedFloat

namespace Floating

section Value

variable {n t M : ℕ}

/-- The significand of the positive float with these bits. -/
def significand (n : ℕ) : ℕ := n - (n / 2 ^ 52 - 1) * 2 ^ 52

def exponent (n : ℕ) : ℤ := (n / 2 ^ 52 - 1 : ℕ) - 1074

/-- The number that the positive float with these bits stands for. -/
def value (n : ℕ) : ℚ := significand n * 2 ^ exponent n

theorem significand_lt (n : ℕ) : significand n < 2 ^ 53 := by
  unfold significand
  omega

theorem le_exponent (n : ℕ) : -1074 ≤ exponent n := by
  unfold exponent
  omega

theorem significand_pos (hn : 0 < n) : 0 < significand n := by
  unfold significand
  omega

theorem exponent_eq_or_le_significand (n : ℕ) : exponent n = -1074 ∨ 2 ^ 52 ≤ significand n := by
  unfold exponent significand
  omega

theorem toNat_eq_zero_or_le_significand (n : ℕ) :
    (exponent n + 1074).toNat = 0 ∨ 2 ^ 52 ≤ significand n := by
  unfold exponent significand
  omega

theorem le_significand (hn : 2 ^ 52 ≤ n) : 2 ^ 52 ≤ significand n := by
  unfold significand
  omega

theorem exponent_mul_add_significand (n : ℕ) :
    (exponent n + 1074).toNat * 2 ^ 52 + significand n = n := by
  unfold exponent significand
  omega

theorem value_pos (hn : 0 < n) : 0 < value n := by
  have hpos : (0 : ℚ) < significand n := by exact_mod_cast significand_pos hn
  unfold value
  positivity

theorem units_value (n : ℕ) : units (exponent n + 1074).toNat (value n) = significand n := by
  have hexp : exponent n + (1074 - ((exponent n + 1074).toNat : ℤ)) = 0 := by
    have := le_exponent n
    omega
  rw [units, value, mul_assoc, ← zpow_add₀ two_ne_zero, hexp, zpow_zero, mul_one]

theorem inBinade_value (n : ℕ) : InBinade (exponent n + 1074).toNat (value n) := by
  constructor
  · rw [units_value]
    exact_mod_cast significand_lt n
  · rw [units_value]
    exact (toNat_eq_zero_or_le_significand n).imp_right fun hm => by exact_mod_cast hm

theorem position_value (hn : 0 < n) : position (value n) = n := by
  have hn' : (n : ℚ) = ((exponent n + 1074).toNat * 2 ^ 52 + significand n : ℕ) := by
    rw [exponent_mul_add_significand]
  rw [(inBinade_value n).position_eq (value_pos hn), line, units_value, hn']
  push_cast
  rfl

/-- The value of bits on the line of binade `t`; those at its upper end belong to the next one. -/
theorem value_line (hM : M ≤ 2 ^ 53) (hfull : t = 0 ∨ 2 ^ 52 ≤ M) :
    value (t * 2 ^ 52 + M) = M * 2 ^ ((t : ℤ) - 1074) := by
  rcases hM.lt_or_eq with hlt | rfl
  · have hm : significand (t * 2 ^ 52 + M) = M := by
      unfold significand
      omega
    have he : exponent (t * 2 ^ 52 + M) = t - 1074 := by
      unfold exponent
      omega
    rw [value, hm, he]
  · have hm : significand (t * 2 ^ 52 + 2 ^ 53) = 2 ^ 52 := by
      unfold significand
      omega
    have he : exponent (t * 2 ^ 52 + 2 ^ 53) = (t - 1074) + 1 := by
      unfold exponent
      omega
    rw [value, hm, he, zpow_add_one₀ two_ne_zero]
    push_cast
    ring

/-- The float nearest to a number has the nearest significand in the number's binade. -/
theorem nearestEven_units {r : ℚ} (hr : 0 < r) (h : NearestEven n (position r)) :
    ∃ M : ℕ, NearestEven M (units (binade r) r) ∧ units (binade r) (value n) = M := by
  have hbinade := inBinade_binade hr
  have hunits : 0 < units (binade r) r := units_pos hr
  have hposition : position r = ((binade r * 2 ^ 52 : ℕ) : ℚ) + units (binade r) r := by
    rw [position, line]
    push_cast
    rfl
  obtain ⟨M, rfl⟩ : ∃ M, n = binade r * 2 ^ 52 + M := by
    refine Nat.exists_eq_add_of_le (h.le_of_le ?_)
    linarith
  have hM : NearestEven M (units (binade r) r) := by
    rw [hposition] at h
    exact (nearestEven_add_iff ⟨binade r * 2 ^ 51, by ring⟩).mp h
  have hle : M ≤ 2 ^ 53 := hM.le_of_lt (by exact_mod_cast hbinade.lt)
  have hfull : binade r = 0 ∨ 2 ^ 52 ≤ M :=
    hbinade.le.imp_right fun hlarge => hM.le_of_le (by exact_mod_cast hlarge)
  refine ⟨M, hM, ?_⟩
  have hexp : ((binade r : ℤ) - 1074) + (1074 - (binade r : ℤ)) = 0 := by ring
  rw [value_line hle hfull, units, mul_assoc, ← zpow_add₀ two_ne_zero, hexp, zpow_zero, mul_one]

/-- An integer number of units is rounded to itself. -/
theorem value_eq_of_units {r : ℚ} {M : ℕ} (hr : 0 < r) (hM : units (binade r) r = M)
    (h : NearestEven n (position r)) : value n = r := by
  obtain ⟨M', hM', hvalue⟩ := nearestEven_units hr h
  rw [hM] at hM'
  obtain rfl := hM'.unique (nearestEven_self M)
  have hscale : (2 : ℚ) ^ (1074 - (binade r : ℤ)) ≠ 0 := by positivity
  exact mul_right_cancel₀ hscale (hvalue.trans hM.symm)

/-- The relative error of rounding a number of at least `c` units. -/
theorem within_of_nearestEven {r : ℚ} {c : ℕ} (hr : 0 < r) (h : NearestEven n (position r))
    (hc : 0 < c) (hle : c ≤ units (binade r) r) : Within (1 / (2 * c)) (value n) r := by
  obtain ⟨M, hM, hvalue⟩ := nearestEven_units hr h
  have hc' : (0 : ℚ) < c := by exact_mod_cast hc
  have hcM : (c : ℚ) ≤ M := by exact_mod_cast hM.le_of_le hle
  have hunits : Within (1 / 2 / c) (units (binade r) (value n)) (units (binade r) r) := by
    rw [hvalue]
    exact .of_abs_sub_le hc' hcM hle hM.near
  have hscale : (0 : ℚ) < 2 ^ (1074 - (binade r : ℤ)) := by positivity
  rw [← div_div]
  constructor
  · refine le_of_mul_le_mul_right ?_ hscale
    rw [mul_right_comm]
    exact hunits.le
  · refine le_of_mul_le_mul_right ?_ hscale
    rw [mul_right_comm]
    exact hunits.ge

end Value

section Unpack

variable {x y : Float} {n : ℕ}

/-- A positive finite float by its bits. -/
theorem unpack_of_bits (h : x.toBits.toNat = n) (hpos : 0 < n) (hlt : n < infinityBits) :
    x.toModel.unpack = .finite .positive (significand n) (exponent n) (significand_pos hpos) := by
  unfold infinityBits at hlt
  have hsign : n.testBit 63 = false := Nat.testBit_lt_two_pow (by omega)
  have hoffset : offset Format.binary64 = 1075 := rfl
  have hshift : n >>> 52 = n / 2 ^ 52 := Nat.shiftRight_eq_div_pow n 52
  have hexp := Binary.toNat_unpackExponent x
  have hman := Binary.toNat_unpackMantissa x
  have hones := Binary.unpackExponent_eq_iff x (-1#11)
  have hsub := Binary.unpackExponent_eq_iff x 0#11
  have hzero := Binary.unpackMantissa_eq_iff x 0#52
  rw [h, hshift] at hexp hones hsub
  rw [h] at hman hzero
  have hfinite : ¬@unpackExponent .binary64 x.toModel.toBits.toBitVec = -1#_ := by
    rw [hones, toNat_neg_one]
    omega
  rw [Binary.unpack_eq, h, hsign, if_neg Bool.false_ne_true]
  by_cases he : @unpackExponent .binary64 x.toModel.toBits.toBitVec = 0#_
  · have hfield : n / 2 ^ 52 % 2 ^ 11 = 0 := hsub.mp he
    have hrest : ¬n % 2 ^ 52 = 0 := by omega
    rw [ofFields_of_subnormal hfinite he (hzero.not.mpr hrest)]
    unfold significand exponent
    congr 1 <;> omega
  · have hfield : ¬n / 2 ^ 52 % 2 ^ 11 = 0 := hsub.not.mp he
    rw [ofFields_of_normal hfinite he]
    unfold significand exponent
    congr 1
    · refine (toNat_implicit_append _).trans ?_
      change 2 ^ 52 + _ = _
      omega
    · omega

theorem unpack_of_bits_eq_zero (h : x.toBits.toNat = 0) : x.toModel.unpack = .zero .positive := by
  have hones := Binary.unpackExponent_eq_iff x (-1#11)
  have hsub := Binary.unpackExponent_eq_iff x 0#11
  have hzero := Binary.unpackMantissa_eq_iff x 0#52
  rw [h] at hones hsub hzero
  rw [Binary.unpack_eq, h, Nat.zero_testBit, if_neg Bool.false_ne_true,
    ofFields_of_zero (hones.not.mpr (by decide)) (hsub.mpr rfl) (hzero.mpr rfl)]

/-- A minus sign is the highest bit, also before a zero. -/
theorem toBits_neg (h : x.toBits.toNat = n) (hlt : n < infinityBits) :
    (-x).toBits.toNat = 2 ^ 63 + n := by
  have hneg : (-x).toBits.toNat =
      (UnpackedFloat.pack .binary64 x.toModel.unpack.neg).toNat := rfl
  rcases Nat.eq_zero_or_pos n with rfl | hpos
  · rw [hneg, unpack_of_bits_eq_zero h]
    rfl
  · have hpack := toNat_pack_finite (s := .negative) (significand_pos hpos) (significand_lt n)
      (le_exponent n) (exponent_eq_or_le_significand n)
    rw [exponent_mul_add_significand, min_eq_left hlt.le] at hpack
    rw [hneg, unpack_of_bits h hpos hlt]
    exact hpack

theorem exponentField_eq (x : Float) :
    x.toBits.toNat >>> 52 % 2 ^ 11 = x.toBits.toNat % 2 ^ 63 / 2 ^ 52 := by
  rw [Nat.shiftRight_eq_div_pow]
  omega

theorem isFinite_iff_exponentField (x : Float) :
    x.isFinite = true ↔ x.toBits.toNat >>> 52 % 2 ^ 11 ≠ 2047 := by
  have hfinite : x.isFinite = x.toModel.unpack.isFinite := rfl
  rw [hfinite, Binary.unpack_eq, isFinite_ofFields]
  exact (Binary.unpackExponent_eq_iff x (-1#11)).not

/-- The bits of a finite float, without its sign, are below those of infinity. -/
theorem isFinite_iff (x : Float) : x.isFinite = true ↔ x.toBits.toNat % 2 ^ 63 < infinityBits := by
  have hbits : x.toBits.toNat < 2 ^ 64 := x.toBits.toBitVec.isLt
  rw [isFinite_iff_exponentField, exponentField_eq, infinityBits]
  omega

/-- What a finite float is written from: its sign and the bits without it. -/
theorem view_of_isFinite (h : x.isFinite = true) :
    Binary.view x = .finite (x.toBits.toNat.testBit 63) (significand (x.toBits.toNat % 2 ^ 63))
      (exponent (x.toBits.toNat % 2 ^ 63)) := by
  rw [isFinite_iff, infinityBits] at h
  have hlow : x.toBits.toNat % 2 ^ 52 = x.toBits.toNat % 2 ^ 63 % 2 ^ 52 := by omega
  rw [Binary.view_eq, exponentField_eq, hlow]
  generalize x.toBits.toNat % 2 ^ 63 = n at h ⊢
  unfold significand exponent
  rw [if_neg (by omega)]
  split_ifs with hzero
  · congr 1 <;> omega
  · congr 1 <;> omega

/-- The significand and the exponent of a float are those of the bits of a finite one. -/
theorem exists_bits_of_view {negative : Bool} {m : ℕ} {q : ℤ}
    (h : Binary.view x = .finite negative m q) :
    ∃ n < infinityBits, m = significand n ∧ q = exponent n := by
  have hx : x.isFinite = true := by
    rw [isFinite_iff_exponentField]
    intro hones
    rw [Binary.view_eq, if_pos hones] at h
    split_ifs at h
  rw [view_of_isFinite hx] at h
  obtain ⟨-, rfl, rfl⟩ := Binary.View.finite.inj h
  exact ⟨_, (isFinite_iff x).mp hx, rfl, rfl⟩

theorem isInf_of_bits (h : x.toBits.toNat = n) (hpos : 0 < n) (hlt : n < infinityBits) :
    x.isInf = false := by
  change x.toModel.unpack.isInf = false
  rw [unpack_of_bits h hpos hlt]
  rfl

theorem beq_zero_of_bits (h : x.toBits.toNat = n) (hpos : 0 < n) (hlt : n < infinityBits) :
    (x == 0) = false := by
  have hbeq : (x == 0) = x.toModel.unpack.beq (0 : Float).toModel.unpack := rfl
  rw [hbeq, unpack_of_bits h hpos hlt, Binary.unpack_zero]
  rfl

end Unpack

section Operations

theorem toNat_pack_mul {m m' : ℕ} {e e' : ℤ} (hm : 2 ^ 52 ≤ m) (hm' : 0 < m') :
    ∃ n, NearestEven n (position (m * 2 ^ e * (m' * 2 ^ e'))) ∧
      (UnpackedFloat.pack .binary64 (UnpackedFloat.mul .binary64
        (.finite .positive m e (by omega)) (.finite .positive m' e' hm'))).toNat =
        min n infinityBits := by
  have hpos : 0 < m * m' := Nat.mul_pos (by omega) hm'
  have hlarge : 2 ^ 52 ≤ m * m' := hm.trans (Nat.le_mul_of_pos_right m hm')
  have hlog : 52 ≤ (m * m').log2 := (Nat.le_log2 hpos.ne').mpr hlarge
  have htarget : e + e' ≤ Format.binary64.targetExponent (totalExponent (m * m') (e + e')) := by
    rw [targetExponent_eq]
    omega
  have hvalue : ((m * m' : ℕ) : ℚ) * 2 ^ (e + e') = m * 2 ^ e * (m' * 2 ^ e') := by
    rw [zpow_add₀ two_ne_zero]
    push_cast
    ring
  rw [← hvalue]
  exact toNat_pack_roundWithAccuracy (.exact _) (by exact_mod_cast hpos) htarget

/-- The whole part of a quotient and what is known of the rest. -/
theorem describes_quotient (m : ℕ) {d : ℕ} (hd : 0 < d) :
    Describes (.ofMantissaAndAccuracy (m / d) (accuracyOfFraction (m % d) d)) (m / d) := by
  have hd' : (0 : ℚ) < d := by exact_mod_cast hd
  have hparts : (m : ℚ) / d = (m / d : ℕ) + (m % d : ℕ) / d := by
    have hdivision : (m : ℚ) = d * (m / d : ℕ) + (m % d : ℕ) := by
      exact_mod_cast (Nat.div_add_mod m d).symm
    rw [div_eq_iff hd'.ne', add_mul, div_mul_cancel₀ _ hd'.ne', mul_comm _ (d : ℚ)]
    exact hdivision
  have hlt : ((m % d : ℕ) : ℚ) / d < 1 := by
    rw [div_lt_one hd']
    exact_mod_cast Nat.mod_lt m hd
  rw [hparts]
  generalize m % d = r at hlt ⊢
  generalize m / d = q
  unfold accuracyOfFraction
  split_ifs with hr
  · rw [hr, Nat.cast_zero, zero_div, add_zero]
    exact .exact q
  · have hpos : (0 : ℚ) < r / d := div_pos (by exact_mod_cast Nat.pos_of_ne_zero hr) hd'
    cases hcompare : compare (2 * r) d with
    | lt =>
      rw [Nat.compare_eq_lt] at hcompare
      have hbelow : (r : ℚ) / d < 1 / 2 := by
        rw [div_lt_div_iff₀ hd' two_pos]
        exact_mod_cast (by omega : r * 2 < 1 * d)
      have hne : (r : ℚ) / d ≠ 0 := hpos.ne'
      constructor
      · simpa [ExtendedMantissa.ofMantissaAndAccuracy, half] using hpos.le
      · simpa [ExtendedMantissa.ofMantissaAndAccuracy, half] using hbelow
      · simpa [ExtendedMantissa.ofMantissaAndAccuracy, half, -div_eq_zero_iff] using hne
    | eq =>
      rw [Nat.compare_eq_eq] at hcompare
      have hmiddle : (r : ℚ) / d = 1 / 2 := by
        rw [div_eq_div_iff hd'.ne' two_ne_zero]
        exact_mod_cast (by omega : r * 2 = 1 * d)
      rw [hmiddle]
      constructor <;> simp [ExtendedMantissa.ofMantissaAndAccuracy, half]
    | gt =>
      rw [Nat.compare_eq_gt] at hcompare
      have habove : 1 / 2 < (r : ℚ) / d := by
        rw [div_lt_div_iff₀ two_pos hd']
        exact_mod_cast (by omega : 1 * d < r * 2)
      have hne : (r : ℚ) / d ≠ 2⁻¹ := by
        rw [← one_div]
        exact habove.ne'
      constructor
      · simpa [ExtendedMantissa.ofMantissaAndAccuracy, half] using habove.le
      · have hsum : (r : ℚ) / d < 1 / 2 + 1 / 2 := by linarith
        simpa [ExtendedMantissa.ofMantissaAndAccuracy, half, add_assoc] using hsum
      · simpa [ExtendedMantissa.ofMantissaAndAccuracy, half] using hne

/-- The quotient is taken with enough digits to be rounded. -/
theorem le_targetExponent_quotient {m m' k : ℕ} {e e' t : ℤ} (hm : 0 < m) (hm' : 0 < m')
    (hk : e - e' - k = t)
    (ht : t ≤ Format.binary64.targetExponent (totalExponent m e - totalExponent m' e')) :
    t ≤ Format.binary64.targetExponent (totalExponent (m <<< k / m') t) := by
  have htarget : Format.binary64.targetExponent (totalExponent m e - totalExponent m' e') =
      max ((m.log2 + 1 + e) - (m'.log2 + 1 + e') - 53) (-1074) := rfl
  rw [targetExponent_eq]
  rw [htarget] at ht
  by_cases hsmall : t ≤ -1074
  · exact hsmall.trans (le_max_right _ _)
  · obtain ⟨j, hj⟩ : ∃ j : ℕ, (m.log2 + k : ℤ) = m'.log2 + 1 + j ∧ 52 ≤ j :=
      ⟨m.log2 + k - (m'.log2 + 1), by omega⟩
    have hlow : 2 ^ (m'.log2 + 1 + j) ≤ m <<< k := by
      have hsum : m'.log2 + 1 + j = m.log2 + k := by omega
      rw [hsum, Nat.shiftLeft_eq, pow_add]
      exact Nat.mul_le_mul_right _ (Nat.log2_self_le hm.ne')
    have hquotient : 2 ^ j ≤ m <<< k / m' := by
      rw [Nat.le_div_iff_mul_le hm']
      calc 2 ^ j * m' ≤ 2 ^ j * 2 ^ (m'.log2 + 1) := by
            gcongr
            exact Nat.lt_log2_self.le
        _ = 2 ^ (m'.log2 + 1 + j) := by ring
        _ ≤ m <<< k := hlow
    have hne : m <<< k / m' ≠ 0 := by
      have : 0 < 2 ^ j := by positivity
      omega
    have hlog : j ≤ (m <<< k / m').log2 := (Nat.le_log2 hne).mpr hquotient
    omega

theorem toNat_pack_div {m m' : ℕ} {e e' : ℤ} (hm : 0 < m) (hm' : 0 < m') :
    ∃ n, NearestEven n (position (m * 2 ^ e / (m' * 2 ^ e'))) ∧
      (UnpackedFloat.pack .binary64 (UnpackedFloat.div .binary64
        (.finite .positive m e hm) (.finite .positive m' e' hm'))).toNat =
        min n infinityBits := by
  obtain ⟨t, ht⟩ : ∃ t, min (e - e')
      (Format.binary64.targetExponent (totalExponent m e - totalExponent m' e')) = t := ⟨_, rfl⟩
  obtain ⟨k, hk⟩ : ∃ k, (e - e' - t).toNat = k := ⟨_, rfl⟩
  have hshift : e - e' - k = t := by omega
  have hdiv : UnpackedFloat.div .binary64 (.finite .positive m e hm) (.finite .positive m' e' hm') =
      roundWithAccuracy .binary64 .positive (m <<< k / m') t
        (accuracyOfFraction (m <<< k % m') m') := by
    have hcore : divCore .binary64 m e m' e' =
        (m <<< k / m', t, accuracyOfFraction (m <<< k % m') m') := by
      unfold divCore
      dsimp only
      rw [ht, hk]
    change roundWithAccuracy .binary64 (.positive / .positive) (divCore .binary64 m e m' e').1
      (divCore .binary64 m e m' e').2.1 (divCore .binary64 m e m' e').2.2 = _
    rw [hcore]
    rfl
  have hpos : (0 : ℚ) < m := by exact_mod_cast hm
  have hpos' : (0 : ℚ) < m' := by exact_mod_cast hm'
  have hvalue : ((m <<< k : ℕ) : ℚ) / m' * 2 ^ t = m * 2 ^ e / (m' * 2 ^ e') := by
    have hexp : (2 : ℚ) ^ e = 2 ^ (k : ℤ) * 2 ^ t * 2 ^ e' := by
      rw [← zpow_add₀ two_ne_zero, ← zpow_add₀ two_ne_zero]
      congr 1
      omega
    rw [hexp, Nat.shiftLeft_eq, zpow_natCast]
    push_cast
    field_simp
  rw [hdiv, ← hvalue]
  refine toNat_pack_roundWithAccuracy (describes_quotient _ hm') ?_
    (le_targetExponent_quotient hm hm' hshift (ht ▸ min_le_right _ _))
  rw [Nat.shiftLeft_eq]
  push_cast
  positivity

end Operations

section Floats

variable {x y : Float} {a b : ℕ}

/-- The product of two positive floats, the first of which is normal, is the nearest float or
infinity. -/
theorem toBits_mul (hx : x.toBits.toNat = a) (hy : y.toBits.toNat = b) (ha : 2 ^ 52 ≤ a)
    (ha' : a < infinityBits) (hb : 0 < b) (hb' : b < infinityBits) :
    ∃ n, NearestEven n (position (value a * value b)) ∧
      (x * y).toBits.toNat = min n infinityBits := by
  have hmul : (x * y).toBits.toNat = (UnpackedFloat.pack .binary64
      (UnpackedFloat.mul .binary64 x.toModel.unpack y.toModel.unpack)).toNat := rfl
  rw [hmul, unpack_of_bits hx (by omega) ha', unpack_of_bits hy hb hb']
  exact toNat_pack_mul (le_significand ha) (significand_pos hb)

/-- The quotient of two positive floats is the nearest float or infinity. -/
theorem toBits_div (hx : x.toBits.toNat = a) (hy : y.toBits.toNat = b) (ha : 0 < a)
    (ha' : a < infinityBits) (hb : 0 < b) (hb' : b < infinityBits) :
    ∃ n, NearestEven n (position (value a / value b)) ∧
      (x / y).toBits.toNat = min n infinityBits := by
  have hdiv : (x / y).toBits.toNat = (UnpackedFloat.pack .binary64
      (UnpackedFloat.div .binary64 x.toModel.unpack y.toModel.unpack)).toNat := rfl
  rw [hdiv, unpack_of_bits hx ha ha', unpack_of_bits hy hb hb']
  exact toNat_pack_div (significand_pos ha) (significand_pos hb)

theorem toBits_toFloat {s : ℕ} (hpos : 0 < s) (hlt : s < 2 ^ 64) :
    ∃ n, NearestEven n (position s) ∧ s.toUInt64.toFloat.toBits.toNat = min n infinityBits := by
  have hs : s.toUInt64.toNat = s := UInt64.toNat_ofNat_of_lt' hlt
  have hround : UnpackedFloat.ofUInt64 .binary64 s.toUInt64 =
      UnpackedFloat.round .binary64 .positive s 0 := by
    have hcompare : compare (s : ℤ) 0 = .gt := by
      rw [compare_gt_iff_gt]
      exact_mod_cast hpos
    rw [UnpackedFloat.ofUInt64, UnpackedFloat.ofNat, UnpackedFloat.ofInt, UnpackedFloat.normalize,
      hs, hcompare]
    rfl
  have hbits : s.toUInt64.toFloat.toBits.toNat =
      (UnpackedFloat.pack .binary64 (UnpackedFloat.ofUInt64 .binary64 s.toUInt64)).toNat := rfl
  obtain ⟨n, hn, hpack⟩ := toNat_pack_round hpos 0
  rw [zpow_zero, mul_one] at hn
  exact ⟨n, hn, hbits.trans (hround ▸ hpack)⟩

theorem value_one : value (1023 * 2 ^ 52) = 1 := by
  norm_num [value, significand, exponent]

theorem value_two_pow : value (1087 * 2 ^ 52) = 2 ^ 64 := by
  norm_num [value, significand, exponent]

/-- An integer that fits in sixty-four bits is nearest to a normal number. -/
theorem bits_of_count {n s : ℕ} (hpos : 0 < s) (hlt : s < 2 ^ 64)
    (h : NearestEven n (position s)) : 1023 * 2 ^ 52 ≤ n ∧ n ≤ 1087 * 2 ^ 52 := by
  constructor
  · refine h.le_of_le ?_
    rw [← position_value (n := 1023 * 2 ^ 52) (by norm_num), value_one]
    exact position_le_position one_pos (by exact_mod_cast hpos)
  · refine h.le_of_lt ?_
    rw [← position_value (n := 1087 * 2 ^ 52) (by norm_num), value_two_pow]
    exact position_lt_position (by exact_mod_cast hpos) (by exact_mod_cast hlt)

/-- An integer that fits in sixty-four bits becomes the nearest float. -/
theorem toBits_ofNat {s : ℕ} (hpos : 0 < s) (hlt : s < 2 ^ 64) :
    NearestEven (Float.ofNat s).toBits.toNat (position s) := by
  have hcap : ∀ n, NearestEven n (position s) → min n infinityBits = n := by
    intro n hn
    have hbounds := bits_of_count hpos hlt hn
    unfold infinityBits
    omega
  by_cases hsmall : s < 2 ^ 53
  · have hof : Float.ofNat s = s.toUInt64.toFloat * Float.ofBits 0x3FF0000000000000 := by
      have hfast : s < 2 ^ 53 ∧ 0 ≤ 22 := ⟨hsmall, by norm_num⟩
      exact dif_pos hfast
    obtain ⟨n, hn, hbits⟩ := toBits_toFloat hpos hlt
    rw [hcap n hn] at hbits
    have hbounds := bits_of_count hpos hlt hn
    have hone : (Float.ofBits 0x3FF0000000000000).toBits.toNat = 1023 * 2 ^ 52 := by decide +kernel
    obtain ⟨n', hn', hproduct⟩ := toBits_mul hbits hone (by omega)
      (by unfold infinityBits; omega) (by norm_num) (by norm_num [infinityBits])
    rw [value_one, mul_one, position_value (by omega)] at hn'
    obtain rfl := hn'.unique (nearestEven_self n)
    rw [hof, hproduct, hcap n' hn]
    exact hn
  · have hof : (Float.ofNat s).toBits.toNat = (UnpackedFloat.pack .binary64
        (UnpackedFloat.ofScientific .binary64 s 0)).toNat := by
      have hslow : ¬(s < 2 ^ 53 ∧ 0 ≤ 22) := fun h => hsmall h.1
      have hmodel : Float.ofNat s = .ofModel (Float.Model.ofScientific s 0) := dif_neg hslow
      rw [hmodel]
      rfl
    have hscientific : UnpackedFloat.ofScientific .binary64 s 0 = UnpackedFloat.mul .binary64
        (.finite .positive (s <<< 53) (-53) (by rw [Nat.shiftLeft_eq]; positivity))
        (.finite .positive 1 0 one_pos) := by
      have hlog : ¬(0 : ℤ) < -((2 : ℤ) ^ 11 + (s.log2 : ℤ)) := by
        norm_num
      rw [UnpackedFloat.ofScientific, dif_neg hpos.ne', if_neg (by norm_num), if_neg hlog,
        if_pos le_rfl]
      rfl
    have hlarge : 2 ^ 52 ≤ s <<< 53 := by
      rw [Nat.shiftLeft_eq]
      omega
    have hvalue : ((s <<< 53 : ℕ) : ℚ) * 2 ^ (-53 : ℤ) * ((1 : ℕ) * 2 ^ (0 : ℤ)) = s := by
      have hcancel : (2 : ℚ) ^ 53 * 2 ^ (-53 : ℤ) = 1 := by norm_num
      rw [Nat.shiftLeft_eq, zpow_zero, Nat.cast_one, mul_one, mul_one, Nat.cast_mul, Nat.cast_pow,
        Nat.cast_ofNat, mul_assoc, hcancel, mul_one]
    obtain ⟨n, hn, hproduct⟩ : ∃ n, NearestEven n (position
        (((s <<< 53 : ℕ) : ℚ) * 2 ^ (-53 : ℤ) * ((1 : ℕ) * 2 ^ (0 : ℤ)))) ∧
          _ = min n infinityBits :=
      toNat_pack_mul hlarge one_pos
    rw [hvalue] at hn
    rw [hof, hscientific, hproduct, hcap n hn]
    exact hn

end Floats

end Floating

end LinearSystem
