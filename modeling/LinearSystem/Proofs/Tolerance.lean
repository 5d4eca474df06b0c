import LinearSystem.Proofs.Floating.Packing
import LinearSystem.Proofs.Rational
import LinearSystem.Solver

namespace LinearSystem

open Scalar

namespace Binary

open Float.Model

theorem toNat_unpackExponent (x : Float) :
    (@UnpackedFloat.unpackExponent .binary64 x.toModel.toBits.toBitVec).toNat =
      (x.toBits.toNat >>> 52) % 2 ^ 11 :=
  Floating.toNat_unpackExponent _

theorem toNat_unpackMantissa (x : Float) :
    (@UnpackedFloat.unpackMantissa .binary64 x.toModel.toBits.toBitVec).toNat =
      x.toBits.toNat % 2 ^ 52 :=
  Floating.toNat_unpackMantissa _

theorem ofBitVec_unpackSign (x : Float) :
    UnpackedFloat.Sign.ofBitVec
        (@UnpackedFloat.unpackSign .binary64 x.toModel.toBits.toBitVec) =
      if x.toBits.toNat.testBit 63 then .negative else .positive :=
  Floating.ofBitVec_unpackSign _

theorem unpack_eq (x : Float) : x.toModel.unpack =
    Floating.ofFields .binary64 (if x.toBits.toNat.testBit 63 then .negative else .positive)
      (@UnpackedFloat.unpackExponent .binary64 x.toModel.toBits.toBitVec)
      (@UnpackedFloat.unpackMantissa .binary64 x.toModel.toBits.toBitVec) := by
  rw [← ofBitVec_unpackSign]
  rfl

theorem unpackExponent_eq_iff (x : Float) (e : BitVec 11) :
    @UnpackedFloat.unpackExponent .binary64 x.toModel.toBits.toBitVec = e ↔
      x.toBits.toNat >>> 52 % 2 ^ 11 = e.toNat := by
  rw [← toNat_unpackExponent]
  exact BitVec.toNat_inj.symm

theorem unpackMantissa_eq_iff (x : Float) (v : BitVec 52) :
    @UnpackedFloat.unpackMantissa .binary64 x.toModel.toBits.toBitVec = v ↔
      x.toBits.toNat % 2 ^ 52 = v.toNat := by
  rw [← toNat_unpackMantissa]
  exact BitVec.toNat_inj.symm

theorem unpack_zero : (0 : Float).toModel.unpack = .zero .positive := rfl

theorem lt_zero_of_unpack {x : Float} {m : Nat} {e : Int} {hm : 0 < m}
    (h : x.toModel.unpack = .finite .negative m e hm) : x < 0 := by
  have hlt : (x.toModel.unpack.compare (0 : Float).toModel.unpack == some Ordering.lt) = true := by
    rw [h, unpack_zero]
    rfl
  exact decide_eq_true hlt

/-- A float with the sign bit set and neither all of its other bits zero nor an exponent field of
ones is negative. -/
theorem lt_zero_of_bits {x : Float} (hsign : x.toBits.toNat.testBit 63 = true)
    (hfinite : x.toBits.toNat >>> 52 % 2 ^ 11 ≠ 2047)
    (hzero : x.toBits.toNat >>> 52 % 2 ^ 11 = 0 → x.toBits.toNat % 2 ^ 52 ≠ 0) : x < 0 := by
  have hones : ¬@UnpackedFloat.unpackExponent .binary64 x.toModel.toBits.toBitVec = -1#_ :=
    fun h => hfinite ((unpackExponent_eq_iff x (-1#11)).mp h)
  have hunpack := unpack_eq x
  rw [if_pos hsign] at hunpack
  by_cases he : @UnpackedFloat.unpackExponent .binary64 x.toModel.toBits.toBitVec = 0#_
  · have hv : ¬@UnpackedFloat.unpackMantissa .binary64 x.toModel.toBits.toBitVec = 0#_ :=
      fun h => hzero ((unpackExponent_eq_iff x 0#11).mp he) ((unpackMantissa_eq_iff x 0#52).mp h)
    exact lt_zero_of_unpack (hunpack.trans (Floating.ofFields_of_subnormal hones he hv))
  · exact lt_zero_of_unpack (hunpack.trans (Floating.ofFields_of_normal hones he))

theorem view_eq (x : Float) : view x =
    if x.toBits.toNat >>> 52 % 2 ^ 11 = 2047 then
      if x.toBits.toNat % 2 ^ 52 = 0 then .infinite (x.toBits.toNat.testBit 63) else .nan
    else if x.toBits.toNat >>> 52 % 2 ^ 11 = 0 then
      .finite (x.toBits.toNat.testBit 63) (x.toBits.toNat % 2 ^ 52) (-1074)
    else
      .finite (x.toBits.toNat.testBit 63) (2 ^ 52 + x.toBits.toNat % 2 ^ 52)
        (-1074 + ((x.toBits.toNat >>> 52 % 2 ^ 11 : Nat) - 1)) := rfl

/-- Only a zero can have a minus sign without being negative. -/
theorem significand_eq_zero {x : Float} (hx : ¬x < 0) {m : Nat} {q : Int}
    (hview : view x = .finite true m q) : m = 0 := by
  by_contra hm
  apply hx
  rw [view_eq] at hview
  split_ifs at hview with hones hf hzero
  · obtain ⟨hsign, rfl, -⟩ := View.finite.inj hview
    exact lt_zero_of_bits hsign hones fun _ => hm
  · obtain ⟨hsign, -, -⟩ := View.finite.inj hview
    exact lt_zero_of_bits hsign hones fun he => absurd he hzero

theorem toRat_nonneg {x : Float} (hx : ¬x < 0) : 0 ≤ toRat x := by
  unfold toRat
  split
  next negative m q hview =>
    apply Rat.mkRat_nonneg
    apply Int.mul_nonneg _ (Int.natCast_nonneg _)
    cases negative with
    | false => exact Int.natCast_nonneg m
    | true =>
      rw [significand_eq_zero hx hview]
      simp
  next => rfl

end Binary

theorem toleranceFor_nonneg {settings : Settings} {tol : ℚ}
    (h : settings.toleranceFor ℚ = .ok tol) : 0 ≤ tol := by
  unfold Settings.toleranceFor at h
  split at h
  next =>
    obtain rfl := Except.ok.inj h
    exact Rat.mkRat_nonneg (by decide) _
  next t =>
    split_ifs at h with hvalid
    obtain rfl := Except.ok.inj h
    rw [Bool.or_eq_true, not_or] at hvalid
    exact Binary.toRat_nonneg fun hlt => hvalid.2 (decide_eq_true hlt)

end LinearSystem
