import LinearSystem.Proofs.Floating.Format

namespace LinearSystem

open Float.Model Float.Model.UnpackedFloat

namespace Floating

section Unpacked

variable {f : Format} {u v : UnpackedFloat}

theorem eq_notANumber_or_infinity (h : u.isFinite = false) :
    u = .notANumber ∨ ∃ s, u = .infinity s := by
  cases u with
  | notANumber => exact .inl rfl
  | infinity s => exact .inr ⟨s, rfl⟩
  | zero s => exact absurd h.symm Bool.false_ne_true
  | finite s m e hm => exact absurd h.symm Bool.false_ne_true

theorem unpacked_mul_isFinite_right (h : v.isFinite = false) :
    (UnpackedFloat.mul f u v).isFinite = false := by
  obtain rfl | ⟨s, rfl⟩ := eq_notANumber_or_infinity h
  · cases u <;> rfl
  · cases u <;> rfl

theorem unpacked_add_isFinite_left (h : u.isFinite = false) :
    (UnpackedFloat.add f u v).isFinite = false := by
  obtain rfl | ⟨s, rfl⟩ := eq_notANumber_or_infinity h
  · cases v <;> rfl
  · cases v with
    | infinity t => cases s <;> cases t <;> rfl
    | _ => rfl

theorem unpacked_add_isFinite_right (h : v.isFinite = false) :
    (UnpackedFloat.add f u v).isFinite = false := by
  obtain rfl | ⟨s, rfl⟩ := eq_notANumber_or_infinity h
  · cases u <;> rfl
  · cases u with
    | infinity t => cases s <;> cases t <;> rfl
    | _ => rfl

theorem unpacked_sub_isFinite_left (h : u.isFinite = false) :
    (UnpackedFloat.sub f u v).isFinite = false := by
  obtain rfl | ⟨s, rfl⟩ := eq_notANumber_or_infinity h
  · cases v <;> rfl
  · cases v with
    | infinity t => cases s <;> cases t <;> rfl
    | _ => rfl

theorem pack_isFinite (h : u.isFinite = false) : (Float.Model.pack u).isFinite = false := by
  obtain rfl | ⟨s, rfl⟩ := eq_notANumber_or_infinity h
  · decide
  · cases s <;> decide

end Unpacked

variable {x y : Float}

/-- An infinity or a NaN spoils every product, sum and difference it enters. -/
theorem mul_isFinite_right (h : y.isFinite = false) : (x * y).isFinite = false :=
  pack_isFinite (unpacked_mul_isFinite_right h)

theorem add_isFinite_left (h : x.isFinite = false) : (x + y).isFinite = false :=
  pack_isFinite (unpacked_add_isFinite_left h)

theorem add_isFinite_right (h : y.isFinite = false) : (x + y).isFinite = false :=
  pack_isFinite (unpacked_add_isFinite_right h)

theorem sub_isFinite_left (h : x.isFinite = false) : (x - y).isFinite = false :=
  pack_isFinite (unpacked_sub_isFinite_left h)

/-- The magnitude of what is not finite is infinite, if it is a number at all. -/
theorem abs_of_isFinite_eq_false (h : x.isFinite = false) :
    x.abs.isNaN = true ∨ x.abs.toModel.unpack = .infinity .positive := by
  have habs : x.abs.toModel = .pack x.toModel.unpack.abs := rfl
  cases eq_notANumber_or_infinity (u := x.toModel.unpack) h with
  | inl hnan =>
    left
    rw [Float.isNaN, habs, hnan]
    decide
  | inr hinf =>
    obtain ⟨s, hs⟩ := hinf
    right
    rw [habs, hs]
    cases s <;> rfl

/-- Only positive infinity is as large as itself. -/
theorem isFinite_eq_false_of_infinity_le (hx : x.toModel.unpack = .infinity .positive)
    (h : x ≤ y) : y.isFinite = false := by
  obtain ⟨k, hk, l, hl, hle⟩ := unpacked_le_iff.mp (double.le_iff.mp h)
  rw [hx] at hk
  obtain rfl := Option.some.inj hk
  change y.toModel.unpack.isFinite = false
  cases hy : y.toModel.unpack with
  | notANumber => rfl
  | infinity s => rfl
  | zero s =>
    rw [hy] at hl
    obtain rfl := Option.some.inj hl
    simp [Sign.apply, Prod.Lex.toLex_le_toLex] at hle
  | finite s m e hm =>
    rw [hy] at hl
    obtain rfl := Option.some.inj hl
    cases s <;> simp [Sign.apply, Prod.Lex.toLex_le_toLex] at hle

end Floating

end LinearSystem
