import Mathlib.Tactic.NormNum
import Mathlib.Tactic.SplitIfs

namespace LinearSystem

open Float.Model Float.Model.UnpackedFloat

namespace Floating

variable {f : Format} {u : UnpackedFloat}

section Fields

variable {w : ℕ}

theorem toNat_neg_one (w : ℕ) : (-1#w).toNat = 2 ^ w - 1 := by
  rw [BitVec.neg_one_eq_allOnes, BitVec.toNat_allOnes]

theorem zero_ne_neg_one (hw : 0 < w) : ¬0#w = -1#w := by
  intro h
  have hval := congrArg BitVec.toNat h
  have hwide := Nat.pow_le_pow_right Nat.two_pos hw
  rw [toNat_neg_one, BitVec.toNat_ofNat, Nat.zero_mod] at hval
  omega

theorem ofNat_ne_zero {n : ℕ} (hn : 0 < n) (hlt : n < 2 ^ w) : ¬BitVec.ofNat w n = 0#w := by
  intro h
  have hval := congrArg BitVec.toNat h
  rw [BitVec.toNat_ofNat, BitVec.toNat_ofNat, Nat.zero_mod, Nat.mod_eq_of_lt hlt] at hval
  omega

theorem ofNat_ne_neg_one {n : ℕ} (hlt : n + 1 < 2 ^ w) : ¬BitVec.ofNat w n = -1#w := by
  intro h
  have hval := congrArg BitVec.toNat h
  rw [toNat_neg_one, BitVec.toNat_ofNat, Nat.mod_eq_of_lt (by omega)] at hval
  omega

theorem toNat_implicit_append (v : BitVec w) : (1#1 ++ v).toNat = 2 ^ w + v.toNat := by
  rw [BitVec.toNat_append, ← Nat.shiftLeft_add_eq_or_of_lt v.isLt, Nat.shiftLeft_eq]
  simp

theorem toNat_implicit_append_pos (v : BitVec w) : 0 < (1#1 ++ v).toNat := by
  rw [toNat_implicit_append]
  exact Nat.add_pos_left (Nat.two_pow_pos w) _

/-- The highest bit of a full significand is left out and put back. -/
theorem toNat_implicit_append_ofNat {m : ℕ} (hle : 2 ^ w ≤ m) (hlt : m < 2 ^ (w + 1)) :
    (1#1 ++ BitVec.ofNat w m).toNat = m := by
  rw [Nat.pow_succ] at hlt
  have hdiv : m / 2 ^ w = 1 := Nat.div_eq_of_lt_le (by omega) (by omega)
  have hsplit := Nat.div_add_mod m (2 ^ w)
  rw [hdiv] at hsplit
  rw [toNat_implicit_append, BitVec.toNat_ofNat]
  omega

end Fields

section Components

/-- What is taken off an exponent field to get the exponent of a number with a full significand. -/
def offset (f : Format) : ℤ := f.exponentBias + f.mantissaBitsWithoutImplicit

/-- The number with this sign, this exponent field and these mantissa bits. -/
def ofFields (f : Format) (s : Sign) (e : BitVec f.exponentBits)
    (v : BitVec f.mantissaBitsWithoutImplicit) : UnpackedFloat :=
  if e = -1#_ then
    if v = 0#_ then .infinity s else .notANumber
  else if e = 0#_ then
    if h : v = 0#_ then .zero s
    else .finite s v.toNat (e.toNat - offset f + 1) (v.toNat_pos.mpr (v.pos_iff_ne_zero.mpr h))
  else .finite s (1#1 ++ v).toNat (e.toNat - offset f) (toNat_implicit_append_pos v)

theorem unpack_eq (b : BitVec f.numBits) : UnpackedFloat.unpack f b =
    ofFields f (.ofBitVec (unpackSign b)) (unpackExponent b) (unpackMantissa b) := rfl

section Kinds

variable {s : Sign} {e : BitVec f.exponentBits} {v : BitVec f.mantissaBitsWithoutImplicit}

theorem ofFields_of_ones (hones : e = -1#_) :
    ofFields f s e v = if v = 0#_ then .infinity s else .notANumber := by
  rw [ofFields, if_pos hones]

theorem ofFields_of_zero (hones : ¬e = -1#_) (he : e = 0#_) (hv : v = 0#_) :
    ofFields f s e v = .zero s := by
  rw [ofFields, if_neg hones, if_pos he, dif_pos hv]

theorem ofFields_of_subnormal (hones : ¬e = -1#_) (he : e = 0#_) (hv : ¬v = 0#_) :
    ofFields f s e v = .finite s v.toNat (e.toNat - offset f + 1)
      (v.toNat_pos.mpr (v.pos_iff_ne_zero.mpr hv)) := by
  rw [ofFields, if_neg hones, if_pos he, dif_neg hv]

theorem ofFields_of_normal (hones : ¬e = -1#_) (he : ¬e = 0#_) :
    ofFields f s e v = .finite s (1#1 ++ v).toNat (e.toNat - offset f)
      (toNat_implicit_append_pos v) := by
  rw [ofFields, if_neg hones, if_neg he]

theorem isFinite_ofFields : (ofFields f s e v).isFinite = true ↔ ¬e = -1#_ := by
  by_cases hones : e = -1#_
  · rw [ofFields_of_ones hones]
    split_ifs <;> exact iff_of_false Bool.false_ne_true fun h => h hones
  by_cases he : e = 0#_
  · by_cases hv : v = 0#_
    · rw [ofFields_of_zero hones he hv]
      exact iff_of_true rfl hones
    · rw [ofFields_of_subnormal hones he hv]
      exact iff_of_true rfl hones
  · rw [ofFields_of_normal hones he]
    exact iff_of_true rfl hones

end Kinds

theorem toNat_unpackExponent (b : BitVec f.numBits) : (unpackExponent b).toNat =
    b.toNat >>> f.mantissaBitsWithoutImplicit % 2 ^ f.exponentBits := by
  have hwidth : f.mantissaBitsWithoutImplicit + f.exponentBits - 1 -
      f.mantissaBitsWithoutImplicit + 1 = f.exponentBits := by
    have := f.he
    omega
  change (BitVec.cast _ (BitVec.extractLsb _ _ b)).toNat = _
  rw [BitVec.toNat_cast, BitVec.extractLsb_toNat, hwidth]

theorem toNat_unpackMantissa (b : BitVec f.numBits) :
    (unpackMantissa b).toNat = b.toNat % 2 ^ f.mantissaBitsWithoutImplicit := by
  have hwidth : f.mantissaBitsWithoutImplicit - 1 - 0 + 1 = f.mantissaBitsWithoutImplicit := by
    have := f.hm
    omega
  change (BitVec.cast _ (BitVec.extractLsb _ _ b)).toNat = _
  rw [BitVec.toNat_cast, BitVec.extractLsb_toNat, hwidth, Nat.shiftRight_zero]

theorem ofBitVec_unpackSign (b : BitVec f.numBits) : Sign.ofBitVec (unpackSign b) =
    if b.toNat.testBit (f.mantissaBitsWithoutImplicit + f.exponentBits) then .negative
    else .positive := by
  have hbit : unpackSign b = .ofBool
      (b.toNat.testBit (f.mantissaBitsWithoutImplicit + f.exponentBits)) := by
    apply BitVec.eq_of_getElem_eq
    intro i hi
    obtain rfl : i = 0 := by omega
    change (BitVec.cast _ (BitVec.extractLsb _ _ b))[0] = _
    rw [← BitVec.getLsbD_eq_getElem, BitVec.getLsbD_cast, BitVec.getLsbD_extractLsb]
    simp [BitVec.testBit_toNat]
  rw [hbit]
  cases b.toNat.testBit _ <;> rfl

theorem pack_finite {s : Sign} {m : ℕ} {e : ℤ} (hm : 0 < m) :
    UnpackedFloat.pack f (.finite s m e hm) =
      if 2 ^ f.exponentBits ≤ (e + f.exponentBias + f.mantissaBitsWithoutImplicit).toNat + 1 then
        packComponents f s (-1#_) 0#_
      else if m.log2 + 1 = f.mantissaBits then
        packComponents f s (.ofNat _ (e + f.exponentBias + f.mantissaBitsWithoutImplicit).toNat)
          (.ofNat _ m)
      else packComponents f s 0#_ (.ofNat _ m) := rfl

theorem ofBitVec_unpackSign_packComponents (s : Sign) (e : BitVec f.exponentBits)
    (v : BitVec f.mantissaBitsWithoutImplicit) :
    Sign.ofBitVec (unpackSign (packComponents f s e v)) = s := by
  have hsign : unpackSign (packComponents f s e v) = s.toBitVec := by
    apply BitVec.eq_of_getElem_eq
    intro i hi
    obtain rfl : i = 0 := by omega
    change (BitVec.cast _ (BitVec.extractLsb _ _ (s.toBitVec ++ e ++ v)))[0] = _
    rw [← BitVec.getLsbD_eq_getElem, BitVec.getLsbD_cast, BitVec.getLsbD_extractLsb,
      BitVec.getLsbD_append, BitVec.getLsbD_append, if_neg (by omega), if_neg (by omega)]
    simp
  rw [hsign]
  cases s <;> rfl

theorem unpack_packComponents (s : Sign) (e : BitVec f.exponentBits)
    (v : BitVec f.mantissaBitsWithoutImplicit) :
    UnpackedFloat.unpack f (packComponents f s e v) = ofFields f s e v := by
  rw [unpack_eq, unpackExponent_packComponents, unpackMantissa_packComponents,
    ofBitVec_unpackSign_packComponents]

end Components

/-- Numbers as they come out of their packed form. -/
inductive Canonical (f : Format) : UnpackedFloat → Prop
  | notANumber : Canonical f .notANumber
  | infinity (s : Sign) : Canonical f (.infinity s)
  | zero (s : Sign) : Canonical f (.zero s)
  | subnormal (s : Sign) {m : ℕ} {e : ℤ} (hm : 0 < m) (hlt : m < 2 ^ f.mantissaBitsWithoutImplicit)
      (he : e = 1 - offset f) : Canonical f (.finite s m e hm)
  | normal (s : Sign) {m k : ℕ} {e : ℤ} (hm : 0 < m) (hle : 2 ^ f.mantissaBitsWithoutImplicit ≤ m)
      (hlt : m < 2 ^ (f.mantissaBitsWithoutImplicit + 1)) (hk : 0 < k)
      (hk' : k + 1 < 2 ^ f.exponentBits) (he : e = k - offset f) : Canonical f (.finite s m e hm)

theorem Canonical.abs (h : Canonical f u) : Canonical f u.abs := by
  cases h with
  | notANumber => exact .notANumber
  | infinity => exact .infinity _
  | zero => exact .zero _
  | subnormal s hm hlt he => exact .subnormal _ hm hlt he
  | normal s hm hle hlt hk hk' he => exact .normal _ hm hle hlt hk hk' he

theorem canonical_unpack (b : BitVec f.numBits) : Canonical f (UnpackedFloat.unpack f b) := by
  rw [unpack_eq]
  by_cases hones : unpackExponent b = -1#_
  · rw [ofFields_of_ones hones]
    split_ifs
    · exact .infinity _
    · exact .notANumber
  by_cases he : unpackExponent b = 0#_
  · by_cases hv : unpackMantissa b = 0#_
    · rw [ofFields_of_zero hones he hv]
      exact .zero _
    · rw [ofFields_of_subnormal hones he hv]
      refine .subnormal _ _ (unpackMantissa b).isLt ?_
      rw [he, BitVec.toNat_ofNat, Nat.zero_mod]
      omega
  · have hlt := (unpackMantissa b).isLt
    have hfield := (unpackExponent b).isLt
    have hpos : 0 < (unpackExponent b).toNat := by
      rw [BitVec.toNat_pos, BitVec.pos_iff_ne_zero]
      exact he
    have hlast : (unpackExponent b).toNat + 1 ≠ 2 ^ f.exponentBits := by
      intro h
      apply hones
      apply BitVec.eq_of_toNat_eq
      rw [toNat_neg_one]
      omega
    rw [ofFields_of_normal hones he]
    refine .normal _ _ ?_ ?_ hpos (by omega) rfl
    · rw [toNat_implicit_append]
      omega
    · rw [toNat_implicit_append, Nat.pow_succ]
      omega

/-- Packing loses nothing of such a number. -/
theorem Canonical.unpack_pack (hf : 2 ≤ f.exponentBits) (h : Canonical f u) :
    UnpackedFloat.unpack f (UnpackedFloat.pack f u) = u := by
  have hoffset : offset f = f.exponentBias + f.mantissaBitsWithoutImplicit := rfl
  have hbits : f.mantissaBits = 1 + f.mantissaBitsWithoutImplicit := rfl
  cases h with
  | notANumber =>
    have hquiet : ¬1#f.mantissaBitsWithoutImplicit <<< (f.mantissaBitsWithoutImplicit - 1) =
        0#_ := by
      intro h
      have hbit := congrArg (fun v => v.getLsbD (f.mantissaBitsWithoutImplicit - 1)) h
      have hm := f.hm
      simp at hbit
      omega
    change UnpackedFloat.unpack f (packComponents f .positive (-1#_) (1#_ <<< _)) = _
    rw [unpack_packComponents, ofFields_of_ones rfl, if_neg hquiet]
  | infinity s =>
    change UnpackedFloat.unpack f (packComponents f s (-1#_) 0#_) = _
    rw [unpack_packComponents, ofFields_of_ones rfl, if_pos rfl]
  | zero s =>
    change UnpackedFloat.unpack f (packComponents f s 0#_ 0#_) = _
    rw [unpack_packComponents, ofFields_of_zero (zero_ne_neg_one f.he) rfl rfl]
  | @subnormal s m e hm hlt he =>
    have hfield : (e + f.exponentBias + f.mantissaBitsWithoutImplicit).toNat = 1 := by omega
    have hwide : 2 ^ 2 ≤ 2 ^ f.exponentBits := Nat.pow_le_pow_right Nat.two_pos hf
    have hlog : m.log2 < f.mantissaBitsWithoutImplicit := (Nat.log2_lt hm.ne').mpr hlt
    rw [pack_finite, hfield, if_neg (by omega), if_neg (by omega), unpack_packComponents,
      ofFields_of_subnormal (zero_ne_neg_one f.he) rfl (ofNat_ne_zero hm hlt)]
    congr 1
    · rw [BitVec.toNat_ofNat, Nat.mod_eq_of_lt hlt]
    · rw [BitVec.toNat_ofNat, Nat.zero_mod]
      omega
  | @normal s m k e hm hle hlt hk hk' he =>
    have hfield : (e + f.exponentBias + f.mantissaBitsWithoutImplicit).toNat = k := by omega
    have hlog : m.log2 = f.mantissaBitsWithoutImplicit :=
      (Nat.log2_eq_iff hm.ne').mpr ⟨hle, hlt⟩
    rw [pack_finite, hfield, if_neg (by omega), if_pos (by omega), unpack_packComponents,
      ofFields_of_normal (ofNat_ne_neg_one hk') (ofNat_ne_zero hk (by omega))]
    congr 1
    · exact toNat_implicit_append_ofNat hle hlt
    · rw [BitVec.toNat_ofNat, Nat.mod_eq_of_lt (by omega), he]

end Floating

end LinearSystem
