import Mathlib.Data.Prod.Lex
import Mathlib.Order.Compare
import Mathlib.Algebra.Order.Ring.Int
import Mathlib.Data.Nat.Cast.Order.Ring

namespace LinearSystem

open Float.Model Float.Model.UnpackedFloat

namespace Floating

section Compare

theorem compare_toLex {α β : Type} [LinearOrder α] [LinearOrder β] (p q : α × β) :
    compare (toLex p) (toLex q) = (compare p.1 q.1).then (compare p.2 q.2) := by
  rw [Prod.Lex.compare_def]
  rfl

theorem compare_natCast (m n : ℕ) : compare (m : ℤ) n = compare m n := by
  rw [← cmp_eq_compare, ← cmp_eq_compare]
  exact Nat.strictMono_cast.cmp_map_eq m n

theorem compare_neg (e f : ℤ) : compare (-e) (-f) = (compare e f).swap := by
  rw [Int.compare_swap, ← cmp_eq_compare, ← cmp_eq_compare]
  exact StrictAnti.cmp_map_eq (fun _ _ => neg_lt_neg) e f

end Compare

/-- Where a number stands among all numbers of its format: by its kind, then by its exponent, then
by its significand, each counted downwards below zero. A NaN has no place. -/
def place? : UnpackedFloat → Option (ℤ ×ₗ ℤ ×ₗ ℤ)
  | .notANumber => none
  | .zero _ => some (toLex (0, toLex (0, 0)))
  | .infinity s => some (toLex (s.apply 2, toLex (0, 0)))
  | .finite s m e _ => some (toLex (s.apply 1, toLex (s.apply e, s.apply m)))

theorem place?_eq_none_iff {u : UnpackedFloat} : place? u = none ↔ u.isNaN = true := by
  cases u with
  | notANumber => exact iff_of_true rfl rfl
  | _ => exact iff_of_false (Option.some_ne_none _) Bool.false_ne_true

private theorem compare_finite (s : Sign) (m m' : ℕ) (e e' : ℤ) (hm : 0 < m) (hm' : 0 < m') :
    (UnpackedFloat.finite s m e hm).compare (.finite s m' e' hm') =
      some (compare (toLex (s.apply 1, toLex (s.apply e, s.apply m)))
        (toLex (s.apply 1, toLex (s.apply e', s.apply m')))) := by
  rw [compare_toLex, compare_toLex]
  cases s with
  | positive =>
    change some ((compare e e').then (compare m m')) = _
    simp only [Sign.apply, compare_natCast]
    rfl
  | negative =>
    change some ((compare e e').then (compare m m')).swap = _
    simp only [Sign.apply, compare_neg, compare_natCast, ← Ordering.swap_then]
    rfl

/-- Numbers are compared by their places. -/
theorem compare_eq (u v : UnpackedFloat) :
    u.compare v = (place? u).bind fun k => (place? v).map fun l => compare k l := by
  cases u with
  | notANumber => rfl
  | infinity s =>
    cases v with
    | notANumber => cases s <;> rfl
    | infinity t => cases s <;> cases t <;> rfl
    | zero t => cases s <;> rfl
    | finite t m e hm => cases s <;> cases t <;> rfl
  | zero s =>
    cases v with
    | notANumber => rfl
    | infinity t => cases t <;> rfl
    | zero t => rfl
    | finite t m e hm => cases t <;> rfl
  | finite s m e hm =>
    cases v with
    | notANumber => cases s <;> rfl
    | infinity t => cases s <;> cases t <;> rfl
    | zero t => cases s <;> rfl
    | finite t m' e' hm' =>
      cases s <;> cases t
      · exact compare_finite .negative m m' e e' hm hm'
      · rfl
      · rfl
      · exact compare_finite .positive m m' e e' hm hm'

theorem unpacked_le_iff {u v : UnpackedFloat} :
    u.le v = true ↔ ∃ k ∈ place? u, ∃ l ∈ place? v, k ≤ l := by
  rw [UnpackedFloat.le, compare_eq]
  cases place? u with
  | none => simp
  | some k =>
    cases place? v with
    | none => simp
    | some l => simp [Ordering.isLE_iff_ne_gt, compare_le_iff_le]

theorem unpacked_lt_iff {u v : UnpackedFloat} :
    u.lt v = true ↔ ∃ k ∈ place? u, ∃ l ∈ place? v, k < l := by
  rw [UnpackedFloat.lt, compare_eq]
  cases place? u with
  | none => simp
  | some k =>
    cases place? v with
    | none => simp
    | some l => simp [compare_lt_iff_lt]

section Places

variable {u v w : UnpackedFloat}

theorem unpacked_le_trans (h : u.le v = true) (h' : v.le w = true) : u.le w = true := by
  obtain ⟨k, hk, l, hl, hkl⟩ := unpacked_le_iff.mp h
  obtain ⟨l', hl', m, hm, hlm⟩ := unpacked_le_iff.mp h'
  obtain rfl := Option.mem_unique hl hl'
  exact unpacked_le_iff.mpr ⟨k, hk, m, hm, hkl.trans hlm⟩

theorem unpacked_le_of_lt (h : u.lt v = true) : u.le v = true := by
  obtain ⟨k, hk, l, hl, hkl⟩ := unpacked_lt_iff.mp h
  exact unpacked_le_iff.mpr ⟨k, hk, l, hl, hkl.le⟩

/-- Only a NaN is not comparable. -/
theorem unpacked_not_le_iff (hu : u.isNaN = false) (hv : v.isNaN = false) :
    ¬u.le v = true ↔ v.lt u = true := by
  rw [← Bool.not_eq_true, ← place?_eq_none_iff, ← ne_eq, Option.ne_none_iff_exists'] at hu hv
  obtain ⟨k, hk⟩ := hu
  obtain ⟨l, hl⟩ := hv
  rw [unpacked_lt_iff, unpacked_le_iff, hk, hl]
  simp

theorem isNaN_eq_false_of_unpacked_le (h : u.le v = true) : u.isNaN = false ∧ v.isNaN = false := by
  obtain ⟨k, hk, l, hl, -⟩ := unpacked_le_iff.mp h
  rw [← Bool.not_eq_true, ← Bool.not_eq_true, ← place?_eq_none_iff, ← place?_eq_none_iff, hk, hl]
  simp

theorem isNaN_abs (u : UnpackedFloat) : u.abs.isNaN = u.isNaN := by
  cases u <;> rfl

theorem unpacked_le_abs (h : u.isNaN = false) : u.le u.abs = true := by
  cases u with
  | notANumber => cases h
  | infinity s => cases s <;> rfl
  | zero s => rfl
  | finite s m e hm =>
    cases s with
    | negative => rfl
    | positive =>
      have hself : (UnpackedFloat.finite .positive m e hm).abs = .finite .positive m e hm := rfl
      rw [hself, unpacked_le_iff]
      exact ⟨_, rfl, _, rfl, le_rfl⟩

end Places

end Floating

end LinearSystem
