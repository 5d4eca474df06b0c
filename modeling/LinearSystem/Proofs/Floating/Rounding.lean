import LinearSystem.Proofs.Floating.Packing
import LinearSystem.Proofs.Floating.Position

namespace LinearSystem

open Float.Model Float.Model.UnpackedFloat

namespace Floating

/-- The integer nearest to a number, the even one of two. -/
structure NearestEven (n : ℕ) (u : ℚ) : Prop where
  near : |n - u| ≤ 1 / 2
  tie : |n - u| = 1 / 2 → Even n

theorem nearestEven_self (n : ℕ) : NearestEven n n := by
  constructor <;> norm_num

theorem nearestEven_add_iff {n k : ℕ} {u : ℚ} (hk : Even k) :
    NearestEven (k + n) (k + u) ↔ NearestEven n u := by
  have hdiff : ((k + n : ℕ) : ℚ) - (k + u) = n - u := by push_cast; ring
  have heven : Even (k + n) ↔ Even n := by simp [Nat.even_add, hk]
  constructor
  · intro h
    exact ⟨hdiff ▸ h.near, fun htie => heven.mp (h.tie (hdiff ▸ htie))⟩
  · intro h
    exact ⟨hdiff ▸ h.near, fun htie => heven.mpr (h.tie (hdiff ▸ htie))⟩

theorem NearestEven.le_of_lt {n k : ℕ} {u : ℚ} (h : NearestEven n u) (hu : u < k) : n ≤ k := by
  have hnear := (abs_le.mp h.near).2
  have hlt : (n : ℚ) < (k + 1 : ℕ) := by
    push_cast
    linarith
  have : n < k + 1 := by exact_mod_cast hlt
  omega

theorem NearestEven.le_of_le {n k : ℕ} {u : ℚ} (h : NearestEven n u) (hu : k ≤ u) : k ≤ n := by
  have hnear := (abs_le.mp h.near).1
  have hlt : (k : ℚ) < (n + 1 : ℕ) := by
    push_cast
    linarith
  have : k < n + 1 := by exact_mod_cast hlt
  omega

/-- No other integer is nearest, nor as near and even. -/
theorem NearestEven.unique {n k : ℕ} {u : ℚ} (hn : NearestEven n u) (hk : NearestEven k u) :
    n = k := by
  have hordered : ∀ {i j : ℕ}, NearestEven i u → NearestEven j u → ¬i < j := by
    intro i j hi hj hlt
    have hi' := abs_le.mp hi.near
    have hj' := abs_le.mp hj.near
    have hsucc : ((i + 1 : ℕ) : ℚ) ≤ j := by exact_mod_cast hlt
    push_cast at hsucc
    have hji : (j : ℚ) = (i + 1 : ℕ) := by
      push_cast
      linarith
    have hj_eq : j = i + 1 := by exact_mod_cast hji
    have hieven : Even i := hi.tie (by rw [abs_of_nonpos (by linarith)]; linarith)
    have hjeven : Even j := hj.tie (by rw [abs_of_nonneg (by linarith)]; linarith)
    rw [hj_eq, Nat.even_add_one] at hjeven
    exact hjeven hieven
  exact le_antisymm (not_lt.mp (hordered hk hn)) (not_lt.mp (hordered hn hk))

section Extended

variable {em : ExtendedMantissa} {u : ℚ}

def half (b : Bool) : ℚ := if b then 1 / 2 else 0

/-- What a mantissa and its two residual bits say about a number: its integer part, whether it
reaches the next half, and whether it is above what these two say. -/
structure Describes (em : ExtendedMantissa) (u : ℚ) : Prop where
  le : em.mantissa + half em.roundBit ≤ u
  lt : u < em.mantissa + half em.roundBit + 1 / 2
  exact_iff : em.stickyBit = false ↔ u = em.mantissa + half em.roundBit

theorem Describes.exact (m : ℕ) : Describes (.ofMantissaAndAccuracy m .exact) m := by
  constructor <;> simp [ExtendedMantissa.ofMantissaAndAccuracy, half]

theorem Describes.shiftRightOne (h : Describes em u) : Describes em.shiftRightOne (u / 2) := by
  obtain ⟨m, r, s⟩ := em
  obtain ⟨hle, hlt, hexact⟩ := h
  have hparts : (m : ℚ) = 2 * (m / 2 : ℕ) + (m % 2 : ℕ) := by
    exact_mod_cast (Nat.div_add_mod m 2).symm
  have hhalf : half r = 0 ∨ half r = 1 / 2 := by cases r <;> simp [half]
  have hbit : half (m % 2 != 0) = (m % 2 : ℕ) / 2 := by
    rcases Nat.mod_two_eq_zero_or_one m with hm | hm <;> simp [half, hm]
  dsimp only at hle hlt hexact
  refine ⟨?_, ?_, ?_⟩
  · change ((m / 2 : ℕ) : ℚ) + half (m % 2 != 0) ≤ u / 2
    rw [hbit]
    rcases hhalf with h0 | h0 <;> linarith
  · change u / 2 < ((m / 2 : ℕ) : ℚ) + half (m % 2 != 0) + 1 / 2
    rw [hbit]
    rcases hhalf with h0 | h0 <;> linarith
  · change (r || s) = false ↔ u / 2 = ((m / 2 : ℕ) : ℚ) + half (m % 2 != 0)
    rw [hbit, Bool.or_eq_false_iff, hexact]
    constructor
    · rintro ⟨rfl, hu⟩
      rw [half, if_neg Bool.false_ne_true] at hu
      linarith
    · intro hu
      have hmu : u = m := by linarith
      cases r with
      | false => exact ⟨rfl, by rw [hmu, half, if_neg Bool.false_ne_true, add_zero]⟩
      | true =>
        rw [half, if_pos rfl] at hle
        linarith

theorem Describes.shiftRight (h : Describes em u) (k : ℕ) : Describes (em >>> k) (u / 2 ^ k) := by
  induction k with
  | zero =>
    rw [pow_zero, div_one]
    exact h
  | succ k ih =>
    have hstep : em >>> (k + 1) = (em >>> k).shiftRightOne := rfl
    rw [hstep, pow_succ, ← div_div]
    exact ih.shiftRightOne

theorem Describes.nearestEven (h : Describes em u) : NearestEven em.roundedMantissa u := by
  obtain ⟨m, r, s⟩ := em
  obtain ⟨hle, hlt, hexact⟩ := h
  dsimp only at hle hlt hexact
  cases r with
  | false =>
    have hround : (ExtendedMantissa.mk m false s).roundedMantissa = m := by cases s <;> rfl
    rw [half, if_neg Bool.false_ne_true] at hle hlt
    have hnear : |(m : ℚ) - u| < 1 / 2 := by
      rw [abs_lt]
      constructor <;> linarith
    rw [hround]
    exact ⟨hnear.le, fun htie => absurd htie hnear.ne⟩
  | true =>
    rw [half, if_pos rfl] at hle hlt hexact
    cases s with
    | false =>
      have hu : u = m + 1 / 2 := hexact.mp rfl
      have hround : (ExtendedMantissa.mk m true false).roundedMantissa = m + m % 2 := rfl
      rw [hround]
      refine ⟨?_, fun _ => ?_⟩
      · rcases Nat.mod_two_eq_zero_or_one m with hm | hm <;>
          rw [hm, hu, abs_le] <;> push_cast <;> constructor <;> linarith
      · rw [Nat.even_add, Nat.even_iff, Nat.even_iff]
        omega
    | true =>
      have hne : ¬u = m + 1 / 2 := fun hu => by simpa using hexact.mpr hu
      have hlt' : m + 1 / 2 < u := lt_of_le_of_ne hle (Ne.symm hne)
      have hround : (ExtendedMantissa.mk m true true).roundedMantissa = m + 1 := rfl
      have hnear : |((m + 1 : ℕ) : ℚ) - u| < 1 / 2 := by
        push_cast
        rw [abs_lt]
        constructor <;> linarith
      rw [hround]
      exact ⟨hnear.le, fun htie => absurd htie hnear.ne⟩

end Extended

section Pack

/-- The bits of infinity, just above those of the largest float. -/
def infinityBits : ℕ := 2047 * 2 ^ 52

theorem toNat_packComponents (s : Sign) (e : BitVec 11) (m : BitVec 52) :
    (packComponents Format.binary64 s e m).toNat =
      s.toBitVec.toNat * 2 ^ 63 + e.toNat * 2 ^ 52 + m.toNat := by
  change (s.toBitVec ++ e ++ m).toNat = _
  rw [BitVec.toNat_append, BitVec.toNat_append, ← Nat.shiftLeft_add_eq_or_of_lt m.isLt,
    ← Nat.shiftLeft_add_eq_or_of_lt e.isLt, Nat.shiftLeft_eq, Nat.shiftLeft_eq]
  ring

/-- The bits of a float whose significand has full width or whose exponent is the least one. -/
theorem toNat_pack_finite {s : Sign} {m : ℕ} {e : ℤ} (hm : 0 < m) (hlt : m < 2 ^ 53)
    (he : -1074 ≤ e) (hfull : e = -1074 ∨ 2 ^ 52 ≤ m) :
    (UnpackedFloat.pack .binary64 (.finite s m e hm)).toNat =
      s.toBitVec.toNat * 2 ^ 63 + min ((e + 1074).toNat * 2 ^ 52 + m) infinityBits := by
  have hbias : (e + (Format.binary64.exponentBias : ℤ) +
      (Format.binary64.mantissaBitsWithoutImplicit : ℤ)).toNat = (e + 1074).toNat + 1 := by
    have h1 : (Format.binary64.exponentBias : ℤ) = 1023 := rfl
    have h2 : (Format.binary64.mantissaBitsWithoutImplicit : ℤ) = 52 := rfl
    omega
  have hlog : m.log2 + 1 = Format.binary64.mantissaBits ↔ 2 ^ 52 ≤ m := by
    have h53 : Format.binary64.mantissaBits = 53 := rfl
    rw [h53, Nat.add_right_cancel_iff (n := 1) (k := 52), Nat.log2_eq_iff hm.ne']
    omega
  rw [pack_finite, hbias]
  dsimp only
  split_ifs with hlarge hnormal
  · have hones : (-1#11).toNat = 2047 := rfl
    have hzero : (0#52).toNat = 0 := rfl
    have hm52 : 2 ^ 52 ≤ m := hfull.resolve_left (by rintro rfl; simp at hlarge)
    rw [toNat_packComponents, hones, hzero, infinityBits]
    omega
  · rw [toNat_packComponents, BitVec.toNat_ofNat, BitVec.toNat_ofNat, infinityBits]
    have hm52 := hlog.mp hnormal
    omega
  · have hzero : (0#11).toNat = 0 := rfl
    have hm52 : ¬2 ^ 52 ≤ m := fun h => hnormal (hlog.mpr h)
    rw [toNat_packComponents, hzero, BitVec.toNat_ofNat, infinityBits]
    obtain rfl := hfull.resolve_right hm52
    omega

end Pack

section Round

theorem targetExponent_eq (m : ℕ) (e : ℤ) :
    Format.binary64.targetExponent (totalExponent m e) = max (m.log2 + 1 + e - 53) (-1074) := rfl

theorem shiftToTargetExponent_of_lt {m : ℕ} {e : ℤ} (hm : m < 2 ^ 53) (he : -1074 ≤ e) :
    shiftToTargetExponent .binary64 m e .exact = (⟨m, false, false⟩, e) := by
  have hlog : m.log2 < 53 := by
    rcases Nat.eq_zero_or_pos m with rfl | hpos
    · decide
    · exact (Nat.log2_lt hpos.ne').mpr hm
  have hshift : (Format.binary64.targetExponent (totalExponent m e) - e).toNat = 0 := by
    rw [targetExponent_eq]
    omega
  unfold shiftToTargetExponent shiftToExponent
  dsimp only
  rw [hshift, Int.natCast_zero, add_zero]
  rfl

/-- A significand that was rounded up to a power of two moves to the next exponent. -/
theorem shiftToTargetExponent_carry {e : ℤ} (he : -1074 ≤ e) :
    shiftToTargetExponent .binary64 (2 ^ 53) e .exact = (⟨2 ^ 52, false, false⟩, e + 1) := by
  have hlog : (2 ^ 53 : ℕ).log2 = 53 := by decide +kernel
  have hshift : (Format.binary64.targetExponent (totalExponent (2 ^ 53) e) - e).toNat = 1 := by
    rw [targetExponent_eq, hlog]
    omega
  unfold shiftToTargetExponent shiftToExponent
  dsimp only
  rw [hshift]
  rfl

theorem units_targetExponent {m : ℕ} {e : ℤ} {u : ℚ} {k : ℕ}
    (hk : e + k = Format.binary64.targetExponent (totalExponent m e)) :
    units (e + k + 1074).toNat (u * 2 ^ e) = u / 2 ^ k := by
  rw [targetExponent_eq] at hk
  have hexp : e + (1074 - ((e + k + 1074).toNat : ℤ)) = -(k : ℤ) := by omega
  rw [units, mul_assoc, ← zpow_add₀ two_ne_zero, hexp, zpow_neg, zpow_natCast, div_eq_mul_inv]

/-- The exponent to which a number is rounded is that of the spacing in its binade. -/
theorem inBinade_targetExponent {m : ℕ} {e : ℤ} {u : ℚ} (hle : m ≤ u) (hlt : u < m + 1) {k : ℕ}
    (hk : e + k = Format.binary64.targetExponent (totalExponent m e)) :
    InBinade (e + k + 1074).toNat (u * 2 ^ e) := by
  have hunits : units (e + k + 1074).toNat (u * 2 ^ e) = u / 2 ^ k := units_targetExponent hk
  rw [targetExponent_eq] at hk
  constructor
  · have hm : ((m + 1 : ℕ) : ℚ) ≤ (2 ^ (m.log2 + 1) : ℕ) := by exact_mod_cast Nat.lt_log2_self
    have hpow : (2 : ℚ) ^ (m.log2 + 1) ≤ 2 ^ (53 + k) :=
      pow_le_pow_right₀ one_le_two (by omega)
    push_cast at hm
    rw [hunits, div_lt_iff₀ (by positivity), ← pow_add]
    linarith
  · by_cases hzero : (e + k + 1074).toNat = 0
    · exact .inl hzero
    · right
      have hlog : m.log2 = 52 + k := by omega
      have hne : m ≠ 0 := by
        rintro rfl
        rw [Nat.log2_zero] at hlog
        omega
      have hm : ((2 ^ m.log2 : ℕ) : ℚ) ≤ m := by exact_mod_cast Nat.log2_self_le hne
      push_cast at hm
      rw [hunits, le_div_iff₀ (by positivity), ← pow_add, ← hlog]
      exact hm.trans hle

theorem Describes.floor {m : ℕ} {acc : Accuracy} {u : ℚ}
    (h : Describes (.ofMantissaAndAccuracy m acc) u) : m ≤ u ∧ u < m + 1 := by
  have hmantissa : (ExtendedMantissa.ofMantissaAndAccuracy m acc).mantissa = m := by
    cases acc with
    | exact => rfl
    | inexact o => cases o <;> rfl
  have hhalf : ∀ b, 0 ≤ half b ∧ half b ≤ 1 / 2 := by
    intro b
    cases b <;> norm_num [half]
  have hle := h.le
  have hlt := h.lt
  rw [hmantissa] at hle hlt
  constructor
  · linarith [(hhalf (ExtendedMantissa.ofMantissaAndAccuracy m acc).roundBit).1]
  · linarith [(hhalf (ExtendedMantissa.ofMantissaAndAccuracy m acc).roundBit).2]

theorem roundWithAccuracy_eq {m k : ℕ} {e : ℤ} (acc : Accuracy)
    (hk : e + k = Format.binary64.targetExponent (totalExponent m e)) :
    roundWithAccuracy .binary64 .positive m e acc =
      let r := shiftToTargetExponent .binary64
        (ExtendedMantissa.ofMantissaAndAccuracy m acc >>> k).roundedMantissa (e + k) .exact
      if h : r.1.mantissa = 0 then .zero .positive
      else .finite .positive r.1.mantissa r.2 (Nat.pos_of_ne_zero h) := by
  have hshift : (Format.binary64.targetExponent (totalExponent m e) - e).toNat = k := by omega
  have hfirst : shiftToTargetExponent .binary64 m e acc =
      (ExtendedMantissa.ofMantissaAndAccuracy m acc >>> k, e + k) := by
    unfold shiftToTargetExponent shiftToExponent
    dsimp only
    rw [hshift]
  unfold roundWithAccuracy
  rw [hfirst]

/-- Rounding gives the nearest float, or infinity from the bits of infinity on. -/
theorem toNat_pack_roundWithAccuracy {m : ℕ} {e : ℤ} {acc : Accuracy} {u : ℚ}
    (hu : Describes (.ofMantissaAndAccuracy m acc) u) (hpos : 0 < u)
    (he : e ≤ Format.binary64.targetExponent (totalExponent m e)) :
    ∃ n, NearestEven n (position (u * 2 ^ e)) ∧
      (UnpackedFloat.pack .binary64 (roundWithAccuracy .binary64 .positive m e acc)).toNat =
        min n infinityBits := by
  obtain ⟨k, hk⟩ : ∃ k : ℕ, e + k = Format.binary64.targetExponent (totalExponent m e) :=
    ⟨(Format.binary64.targetExponent (totalExponent m e) - e).toNat, by omega⟩
  have hbinade := inBinade_targetExponent hu.floor.1 hu.floor.2 hk
  have hunits := units_targetExponent (u := u) hk
  have hleast : -1074 ≤ e + k := by
    rw [hk, targetExponent_eq]
    exact le_max_right _ _
  have hM : NearestEven (ExtendedMantissa.ofMantissaAndAccuracy m acc >>> k).roundedMantissa
      (u / 2 ^ k) := (hu.shiftRight k).nearestEven
  rw [roundWithAccuracy_eq acc hk]
  generalize (ExtendedMantissa.ofMantissaAndAccuracy m acc >>> k).roundedMantissa = M at hM ⊢
  have hposition : position (u * 2 ^ e) = ((e + k + 1074).toNat * 2 ^ 52 : ℕ) + u / 2 ^ k := by
    rw [hbinade.position_eq (by positivity), line, hunits]
    push_cast
    rfl
  have hle : M ≤ 2 ^ 53 := by
    refine hM.le_of_lt ?_
    rw [← hunits]
    exact_mod_cast hbinade.lt
  have hfull : e + k = -1074 ∨ 2 ^ 52 ≤ M := by
    rcases hbinade.le with hzero | hlarge
    · exact .inl (by omega)
    · refine .inr (hM.le_of_le ?_)
      rw [← hunits]
      exact_mod_cast hlarge
  refine ⟨(e + k + 1074).toNat * 2 ^ 52 + M, ?_, ?_⟩
  · rw [hposition]
    exact (nearestEven_add_iff ⟨(e + k + 1074).toNat * 2 ^ 51, by ring⟩).mpr hM
  rcases hle.lt_or_eq with hlt | rfl
  · rw [shiftToTargetExponent_of_lt hlt hleast]
    dsimp only
    by_cases hzero : M = 0
    · obtain hmin : e + k = -1074 := hfull.resolve_right (by omega)
      rw [dif_pos hzero, hmin, hzero]
      rfl
    · rw [dif_neg hzero, toNat_pack_finite _ hlt hleast hfull]
      exact Nat.zero_add _
  · rw [shiftToTargetExponent_carry hleast]
    dsimp only
    have hcarry : (e + k + 1 + 1074).toNat * 2 ^ 52 + 2 ^ 52 =
        (e + k + 1074).toNat * 2 ^ 52 + 2 ^ 53 := by omega
    rw [dif_neg (by norm_num), toNat_pack_finite _ (by norm_num) (by omega) (.inr le_rfl), hcarry]
    exact Nat.zero_add _

theorem totalExponent_shiftLeft {m : ℕ} (hm : 0 < m) (e : ℤ) (k : ℕ) :
    totalExponent (m <<< k) (e - k) = totalExponent m e := by
  have hlog : (m <<< k).log2 = m.log2 + k := by
    rw [Nat.shiftLeft_eq, Nat.log2_eq_iff (by positivity)]
    have hlow := Nat.log2_self_le hm.ne'
    have hhigh := Nat.lt_log2_self (n := m)
    constructor
    · rw [pow_add]
      gcongr
    · rw [add_right_comm, pow_add]
      gcongr
  unfold totalExponent
  rw [hlog]
  push_cast
  ring

theorem toNat_pack_round {m : ℕ} (hm : 0 < m) (e : ℤ) :
    ∃ n, NearestEven n (position (m * 2 ^ e)) ∧
      (UnpackedFloat.pack .binary64 (UnpackedFloat.round .binary64 .positive m e)).toNat =
        min n infinityBits := by
  generalize hk : (e - Format.binary64.targetExponent (totalExponent m e)).toNat = k
  have hround : UnpackedFloat.round .binary64 .positive m e =
      roundWithAccuracy .binary64 .positive (m <<< k) (e - k) .exact := by
    unfold UnpackedFloat.round decreaseExponent
    dsimp only
    rw [hk]
  have hvalue : ((m <<< k : ℕ) : ℚ) * 2 ^ (e - k) = m * 2 ^ e := by
    rw [Nat.shiftLeft_eq, Nat.cast_mul, Nat.cast_pow, Nat.cast_ofNat, mul_assoc, ← zpow_natCast,
      ← zpow_add₀ two_ne_zero, add_sub_cancel]
  have hpos : 0 < m <<< k := by
    rw [Nat.shiftLeft_eq]
    positivity
  have htarget : e - k ≤ Format.binary64.targetExponent (totalExponent (m <<< k) (e - k)) := by
    rw [totalExponent_shiftLeft hm]
    omega
  rw [hround, ← hvalue]
  exact toNat_pack_roundWithAccuracy (.exact _) (by exact_mod_cast hpos) htarget

end Round

end Floating

end LinearSystem
