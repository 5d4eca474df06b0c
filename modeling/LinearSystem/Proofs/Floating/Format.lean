import LinearSystem.Proofs.Floating.Order
import LinearSystem.Proofs.Floating.Packing
import LinearSystem.Scalar.Floating

namespace LinearSystem

open Float.Model Scalar

namespace Floating

/-- A scalar type whose members are the numbers of a format: they are compared unpacked, and a
result is packed again. -/
structure InFormat (α : Type) [Scalar α] [LE α] [LT α] (f : Format) (unpack : α → UnpackedFloat)
    (pack : UnpackedFloat → α) : Prop where
  le_iff : ∀ {x y : α}, x ≤ y ↔ (unpack x).le (unpack y) = true
  lt_iff : ∀ {x y : α}, x < y ↔ (unpack x).lt (unpack y) = true
  atMost_iff : ∀ {x y : α}, atMost x y = true ↔ x ≤ y
  canonical : ∀ x : α, Canonical f (unpack x)
  unpack_pack : ∀ {u : UnpackedFloat}, Canonical f u → unpack (pack u) = u
  magnitude_eq : ∀ x : α, magnitude x = pack (unpack x).abs
  div_eq : ∀ x y : α, x / y = pack (UnpackedFloat.div f (unpack x) (unpack y))

theorem double :
    InFormat Float .binary64 (fun x => x.toModel.unpack) fun u => .ofModel (.pack u) where
  le_iff := decide_eq_true_iff
  lt_iff := decide_eq_true_iff
  atMost_iff := decide_eq_true_iff
  canonical _ := canonical_unpack _
  unpack_pack h := h.unpack_pack (by decide)
  magnitude_eq _ := rfl
  div_eq _ _ := rfl

theorem single :
    InFormat Float32 .binary32 (fun x => x.toModel.unpack) fun u => .ofModel (.pack u) where
  le_iff := decide_eq_true_iff
  lt_iff := decide_eq_true_iff
  atMost_iff := decide_eq_true_iff
  canonical _ := canonical_unpack _
  unpack_pack h := h.unpack_pack (by decide)
  magnitude_eq _ := rfl
  div_eq _ _ := rfl

namespace InFormat

variable {α : Type} [Scalar α] [LE α] [LT α] {f : Format} {unpack : α → UnpackedFloat}
  {pack : UnpackedFloat → α} (hα : InFormat α f unpack pack) {x y z : α}

include hα

theorem le_trans (h : x ≤ y) (h' : y ≤ z) : x ≤ z :=
  hα.le_iff.mpr (unpacked_le_trans (hα.le_iff.mp h) (hα.le_iff.mp h'))

theorem le_of_lt (h : x < y) : x ≤ y :=
  hα.le_iff.mpr (unpacked_le_of_lt (hα.lt_iff.mp h))

theorem isNaN_eq_false_of_le (h : x ≤ y) :
    (unpack x).isNaN = false ∧ (unpack y).isNaN = false :=
  isNaN_eq_false_of_unpacked_le (hα.le_iff.mp h)

theorem not_le_iff (hx : (unpack x).isNaN = false) (hy : (unpack y).isNaN = false) :
    ¬x ≤ y ↔ y < x := by
  rw [hα.le_iff, hα.lt_iff]
  exact unpacked_not_le_iff hx hy

theorem not_le_of_lt (h : x < y) : ¬y ≤ x := by
  obtain ⟨hx, hy⟩ := hα.isNaN_eq_false_of_le (hα.le_of_lt h)
  exact (hα.not_le_iff hy hx).mpr h

/-- Of two numbers one is at most the other. -/
theorem le_or_le (hx : (unpack x).isNaN = false) (hy : (unpack y).isNaN = false) :
    x ≤ y ∨ y ≤ x := by
  by_cases h : x ≤ y
  · exact .inl h
  · exact .inr (hα.le_of_lt ((hα.not_le_iff hx hy).mp h))

theorem unpack_magnitude (x : α) : unpack (magnitude x) = (unpack x).abs := by
  rw [hα.magnitude_eq, hα.unpack_pack (hα.canonical x).abs]

/-- What reaches a tolerance reaches it in magnitude. -/
theorem atMost_magnitude (h : atMost x y = true) : atMost x (magnitude y) = true := by
  rw [hα.atMost_iff] at h ⊢
  refine hα.le_trans h (hα.le_iff.mpr ?_)
  rw [hα.unpack_magnitude]
  exact unpacked_le_abs (hα.isNaN_eq_false_of_le h).2

end InFormat

end Floating

end LinearSystem
