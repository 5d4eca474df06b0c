import LinearSystem.Proofs.Floating.Format
import LinearSystem.Proofs.Rational
import LinearSystem.Proofs.Reduction.Pivots

namespace LinearSystem

open Scalar

/-- On its numbers, a scalar compares like a linear order. -/
structure Comparable (α : Type) [Scalar α] [LE α] [LT α] (number : α → Prop) : Prop where
  atMost_iff : ∀ x y : α, atMost x y = true ↔ x ≤ y
  not_le_iff : ∀ {x y : α}, number x → number y → (¬x ≤ y ↔ y < x)
  le_of_lt : ∀ {x y : α}, x < y → x ≤ y
  le_trans : ∀ {x y z : α}, x ≤ y → y ≤ z → x ≤ z
  number_magnitude : ∀ {x : α}, number x → number (magnitude x)

theorem Rational.comparable : Comparable ℚ fun _ => True where
  atMost_iff _ _ := Rational.atMost_iff
  not_le_iff _ _ := not_le
  le_of_lt h := h.le
  le_trans h h' := h.trans h'
  number_magnitude _ := trivial

theorem Floating.InFormat.comparable {α : Type} [Scalar α] [LE α] [LT α] {f : Float.Model.Format}
    {unpack : α → Float.Model.UnpackedFloat} {pack : Float.Model.UnpackedFloat → α}
    (hα : InFormat α f unpack pack) : Comparable α fun x => (unpack x).isNaN = false where
  atMost_iff _ _ := hα.atMost_iff
  not_le_iff := hα.not_le_iff
  le_of_lt := hα.le_of_lt
  le_trans := hα.le_trans
  number_magnitude {x} hx := by
    rw [hα.unpack_magnitude, isNaN_abs]
    exact hx

/-- The choice of a pivot row in column `c`, by the sizes of the entries there. -/
structure PicksPivot {α : Type} [LE α] [LT α] {n m : ℕ} (size : α → α) (rule : PivotRule) (tol : α)
    (A : DenseMatrix α n m) (used : Fin n → Bool) (c : Fin m) (choice : Option (Fin n)) : Prop where
  none_iff : choice = none ↔ ∀ i, used i = false → ¬tol < size (A i c)
  usable : ∀ p ∈ choice, used p = false ∧ tol < size (A p c)
  first : rule = .firstNonZero →
    ∀ p ∈ choice, ∀ i, used i = false → tol < size (A i c) → p ≤ i
  largest : rule = .largestMagnitude →
    ∀ p ∈ choice, ∀ i, used i = false → size (A i c) ≤ size (A p c)
  first_largest : rule = .largestMagnitude →
    ∀ p ∈ choice, ∀ i, used i = false → size (A p c) ≤ size (A i c) → p ≤ i

theorem pairwise_candidates {α : Type} [Scalar α] {n m : ℕ} {tol : α} {A : DenseMatrix α n m}
    {used : Fin n → Bool} {c : Fin m} : (candidates tol A used c).Pairwise (· < ·) :=
  (List.pairwise_lt_finRange n).filter _

/-- The first rule takes no row before another candidate. -/
theorem selectPivot_firstNonZero_le {α : Type} [Scalar α] {n m : ℕ} {tol : α}
    {A : DenseMatrix α n m} {used : Fin n → Bool} {c : Fin m} {p i : Fin n}
    (h : selectPivot .firstNonZero tol A used c = some p) (hi : i ∈ candidates tol A used c) :
    p ≤ i := by
  have hsorted : (candidates tol A used c).Pairwise (· < ·) := pairwise_candidates
  have hhead : (candidates tol A used c).head? = some p := h
  obtain ⟨tail, htail⟩ := List.head?_eq_some_iff.mp hhead
  rw [htail] at hi hsorted
  rcases List.mem_cons.mp hi with rfl | hlater
  · exact Fin.le_refl i
  · exact Fin.le_of_lt (List.rel_of_pairwise_cons hsorted hlater)

section Choice

variable {α : Type} [Scalar α] [LE α] [LT α] {number : α → Prop} {n m : ℕ} {rule : PivotRule}
  {tol : α} {A : DenseMatrix α n m} {used : Fin n → Bool} {c : Fin m}

theorem Comparable.le_refl (hα : Comparable α number) {x : α} (hx : number x) : x ≤ x := by
  by_contra h
  exact h (hα.le_of_lt ((hα.not_le_iff hx hx).mp h))

theorem Comparable.significant_iff (hα : Comparable α number) {x : α} (htol : number tol)
    (hx : number x) : significant tol x = true ↔ tol < magnitude x := by
  rw [significant, Bool.not_eq_true', ← Bool.not_eq_true, negligible, hα.atMost_iff]
  exact hα.not_le_iff (hα.number_magnitude hx) htol

/-- Of rows in increasing order, the one that is kept at the end is as large as every other, and
every earlier one is smaller. The rows left come after the best one so far. -/
theorem foldl_keepLarger_largest (hα : Comparable α number) (hA : ∀ i, number (A i c))
    {l : List (Fin n)} {best : Option (Fin n)} {p : Fin n} (hl : l.Pairwise (· < ·))
    (hbest : ∀ b ∈ best, ∀ i ∈ l, b < i) (h : l.foldl (keepLarger A c) best = some p) :
    ∀ i, i ∈ best ∨ i ∈ l → magnitude (A i c) ≤ magnitude (A p c) ∧
      (magnitude (A p c) ≤ magnitude (A i c) → p ≤ i) := by
  have hsize : ∀ i, number (magnitude (A i c)) := fun i => hα.number_magnitude (hA i)
  induction l generalizing best with
  | nil =>
    intro i hi
    obtain rfl : i = p := Option.mem_unique (hi.resolve_right List.not_mem_nil) h
    exact ⟨hα.le_refl (hsize i), fun _ => Fin.le_refl i⟩
  | cons j l ih =>
    rw [List.pairwise_cons] at hl
    rw [List.foldl_cons] at h
    have hnew : keepLarger A c best j = some j → ∀ i, i = j ∨ i ∈ l →
        magnitude (A i c) ≤ magnitude (A p c) ∧
          (magnitude (A p c) ≤ magnitude (A i c) → p ≤ i) := by
      intro hj i hi
      rw [hj] at h
      refine ih hl.2 ?_ h i (hi.imp_left fun hij => congrArg some hij.symm)
      intro b hb
      obtain rfl : j = b := Option.some.inj hb
      exact hl.1
    cases best with
    | none => exact fun i hi => hnew rfl i (by simpa using hi)
    | some b =>
      have hbj : b < j := hbest b rfl j List.mem_cons_self
      by_cases hle : atMost (magnitude (A j c)) (magnitude (A b c)) = true
      · have hkeep : keepLarger A c (some b) j = some b := if_pos hle
        rw [hkeep] at h
        have hrest := ih hl.2 (fun b' hb' i hi => hbest b' hb' i (List.mem_cons_of_mem j hi)) h
        have hb := hrest b (.inl rfl)
        rw [hα.atMost_iff] at hle
        rintro i (hi | hi)
        · exact hrest i (.inl hi)
        · rcases List.mem_cons.mp hi with rfl | hi
          · refine ⟨hα.le_trans hle hb.1, fun hp => ?_⟩
            exact Fin.le_trans (hb.2 (hα.le_trans hp hle)) (Fin.le_of_lt hbj)
          · exact hrest i (.inr hi)
      · have hreplace : keepLarger A c (some b) j = some j := if_neg hle
        have hrest := hnew hreplace
        have hj := hrest j (.inl rfl)
        rw [hα.atMost_iff, hα.not_le_iff (hsize j) (hsize b)] at hle
        rintro i (hi | hi)
        · obtain rfl : b = i := Option.some.inj hi
          refine ⟨hα.le_trans (hα.le_of_lt hle) hj.1, fun hp => ?_⟩
          exact absurd (hα.le_trans hj.1 hp) ((hα.not_le_iff (hsize j) (hsize b)).mpr hle)
        · exact hrest i (List.mem_cons.mp hi)

theorem Comparable.mem_candidates_iff (hα : Comparable α number) (htol : number tol)
    (hA : ∀ i, number (A i c)) {i : Fin n} :
    i ∈ candidates tol A used c ↔ used i = false ∧ tol < magnitude (A i c) := by
  rw [mem_candidates, hα.significant_iff htol (hA i)]

/-- A row that is no candidate stays at or below the tolerance, which every candidate exceeds. -/
theorem Comparable.not_le_of_not_candidate (hα : Comparable α number) (htol : number tol)
    (hA : ∀ i, number (A i c)) {i p : Fin n} (hp : p ∈ candidates tol A used c)
    (hi : used i = false) (hnot : i ∉ candidates tol A used c) :
    ¬magnitude (A p c) ≤ magnitude (A i c) := by
  have hsize : ∀ i, number (magnitude (A i c)) := fun i => hα.number_magnitude (hA i)
  have hhigh : ¬magnitude (A p c) ≤ tol := by
    rw [hα.not_le_iff (hsize p) htol]
    exact ((hα.mem_candidates_iff htol hA).mp hp).2
  have hlow : magnitude (A i c) ≤ tol := by
    by_contra h
    rw [hα.not_le_iff (hsize i) htol] at h
    exact hnot ((hα.mem_candidates_iff htol hA).mpr ⟨hi, h⟩)
  exact fun h => hhigh (hα.le_trans h hlow)

/-- The pivot row of a column whose entries and tolerance are numbers. -/
theorem Comparable.picksPivot (hα : Comparable α number) (htol : number tol)
    (hA : ∀ i, number (A i c)) :
    PicksPivot magnitude rule tol A used c (selectPivot rule tol A used c) := by
  have hsize : ∀ i, number (magnitude (A i c)) := fun i => hα.number_magnitude (hA i)
  have hlargest : ∀ p, rule = .largestMagnitude →
      selectPivot rule tol A used c = some p → ∀ i ∈ candidates tol A used c,
        magnitude (A i c) ≤ magnitude (A p c) ∧
          (magnitude (A p c) ≤ magnitude (A i c) → p ≤ i) := by
    rintro p rfl hp i hi
    exact foldl_keepLarger_largest hα hA pairwise_candidates (by simp) hp i (.inr hi)
  refine ⟨⟨?_, ?_⟩, ?_, ?_, ?_, ?_⟩
  · intro h i hi hlt
    have hcandidate := (hα.mem_candidates_iff htol hA).mpr ⟨hi, hlt⟩
    rw [candidates_eq_nil h] at hcandidate
    exact List.not_mem_nil hcandidate
  · intro h
    cases hp : selectPivot rule tol A used c with
    | none => rfl
    | some p =>
      have hpivot := (hα.mem_candidates_iff htol hA).mp (selectPivot_mem hp)
      exact absurd hpivot.2 (h p hpivot.1)
  · intro p hp
    exact (hα.mem_candidates_iff htol hA).mp (selectPivot_mem hp)
  · rintro rfl p hp i hi hlt
    exact selectPivot_firstNonZero_le hp ((hα.mem_candidates_iff htol hA).mpr ⟨hi, hlt⟩)
  · intro hrule p hp i hi
    by_cases hcandidate : i ∈ candidates tol A used c
    · exact (hlargest p hrule hp i hcandidate).1
    · have hnot := hα.not_le_of_not_candidate htol hA (selectPivot_mem hp) hi hcandidate
      exact hα.le_of_lt ((hα.not_le_iff (hsize p) (hsize i)).mp hnot)
  · intro hrule p hp i hi hle
    by_cases hcandidate : i ∈ candidates tol A used c
    · exact (hlargest p hrule hp i hcandidate).2 hle
    · exact absurd hle
        (hα.not_le_of_not_candidate htol hA (selectPivot_mem hp) hi hcandidate)

end Choice

/-- The pivot row of a column without a NaN, at a tolerance that is none either: there is one
exactly if an unused row exceeds the tolerance, and it is the first such row or the first of the
largest ones, as the rule says. -/
theorem selectPivot_picks {n m : ℕ} (rule : PivotRule) (used : Fin n → Bool) (c : Fin m) :
    (∀ (tol : ℚ) (A : DenseMatrix ℚ n m),
      PicksPivot (fun x => |x|) rule tol A used c (selectPivot rule tol A used c)) ∧
    (∀ (tol : Float) (A : DenseMatrix Float n m), tol.isNaN = false →
      (∀ i, (A i c).isNaN = false) →
      PicksPivot Float.abs rule tol A used c (selectPivot rule tol A used c)) ∧
    (∀ (tol : Float32) (A : DenseMatrix Float32 n m), tol.isNaN = false →
      (∀ i, (A i c).isNaN = false) →
      PicksPivot Float32.abs rule tol A used c (selectPivot rule tol A used c)) := by
  refine ⟨?rational, ?double, ?single⟩
  case rational =>
    intro tol A
    have hspec : PicksPivot magnitude rule tol A used c (selectPivot rule tol A used c) :=
      Rational.comparable.picksPivot trivial fun _ => trivial
    rwa [funext Rational.magnitude_eq] at hspec
  case double =>
    intro tol A htol hA
    exact Floating.double.comparable.picksPivot htol hA
  case single =>
    intro tol A htol hA
    exact Floating.single.comparable.picksPivot htol hA

/-- The first of two infinities, which comes after a smaller entry, is taken past a NaN in another
column. -/
theorem selectPivot_picks_infinite :
    let A : DenseMatrix Float 4 2 := ⟨#v[#v[1e300, 2], #v[3, 0 / 0], #v[-1 / 0, 1], #v[1 / 0, 0]]⟩
    let used : Fin 4 → Bool := fun i => i = 0
    ((1e-10 : Float).isNaN = false ∧ ∀ i, (A i 0).isNaN = false) ∧
      PicksPivot Float.abs .largestMagnitude 1e-10 A used 0 (some 2) := by
  intro A used
  have htol : (1e-10 : Float).isNaN = false := by decide +kernel
  have hA : ∀ i, (A i 0).isNaN = false := by decide +kernel
  have hpivot : selectPivot .largestMagnitude 1e-10 A used 0 = some 2 := by decide +kernel
  refine ⟨⟨htol, hA⟩, ?_⟩
  rw [← hpivot]
  exact (selectPivot_picks .largestMagnitude used 0).2.1 1e-10 A htol hA

end LinearSystem
