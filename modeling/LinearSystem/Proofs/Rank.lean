import LinearSystem.Proofs.RowOperation
import LinearSystem.Rank
import Mathlib.LinearAlgebra.Matrix.Block

namespace LinearSystem

open Scalar

namespace Rank

namespace State

theorem live_sub_one_lt {α : Type} {n m : ℕ} (s : State α n m) (h : s.Active) :
    s.live - 1 < m := by
  have hlive := h.2
  have hle := s.live_le
  omega

def lastLive {α : Type} {n m : ℕ} (s : State α n m) (h : s.Active) : Fin m :=
  ⟨s.live - 1, s.live_sub_one_lt h⟩

theorem swapRows_entry {α : Type} {n m : ℕ} (W : DenseMatrix α n m) (p q i : Fin n) (j : Fin m) :
    W.swapRows p q i j = W (Equiv.swap p q i) j := by
  rw [DenseMatrix.swapRows_apply, Equiv.swap_apply_def]
  split_ifs <;> rfl

theorem swapRows_self {α : Type} {n m : ℕ} (W : DenseMatrix α n m) (p : Fin n) :
    W.swapRows p p = W :=
  DenseMatrix.ext fun i j => by rw [swapRows_entry, Equiv.swap_self, Equiv.refl_apply]

section Steps

variable {α : Type} [Scalar α] {n m : ℕ} {tol : α} {s : State α n m}

theorem candidate?_spec {h : s.Active} {i : Fin n} (hc : s.candidate? tol h = some i) :
    s.row ≤ i.val ∧ significant tol (s.work i (s.pivotCol h)) = true := by
  have hi := List.find?_some hc
  rwa [Bool.and_eq_true, decide_eq_true_eq] at hi

theorem negligible_of_candidate?_eq_none {h : s.Active} (hc : s.candidate? tol h = none)
    {i : Fin n} (hi : s.row ≤ i.val) : negligible tol (s.work i (s.pivotCol h)) = true := by
  have hall := List.find?_eq_none.mp hc i (List.mem_finRange i)
  simpa [hi, significant] using hall

/-- What becomes of an entry depends on its own column and on the pivot column. -/
theorem clearBelow_entry (W : DenseMatrix α n m) (p i : Fin n) (c j : Fin m) (live : ℕ) :
    clearBelow W p c live i j =
      if p < i ∧ (!isZero (W i c / W p c)) = true then
        if c ≤ j ∧ j.val < live then W i j - W i c / W p c * W p j else W i j
      else W i j := by
  rw [clearBelow, DenseMatrix.ofFn_apply]
  by_cases h : p < i ∧ (!isZero (W i c / W p c)) = true
  · rw [if_pos h, if_pos h]
  · rw [if_neg h, if_neg h]

/-- The state after a pivot step with pivot row `i`. -/
theorem advance_of_some {h : s.Active} {i : Fin n} (hc : s.candidate? tol h = some i) :
    (s.advance tol h).row = s.row + 1 ∧ (s.advance tol h).live = s.live ∧
      (s.advance tol h).work =
        clearBelow (s.work.swapRows (s.pivotRow h) i) (s.pivotRow h) (s.pivotCol h) s.live := by
  unfold advance
  split
  next j hj =>
    obtain rfl : j = i := Option.some.inj (hj.symm.trans hc)
    exact ⟨rfl, rfl, rfl⟩
  next hj => exact absurd (hj.symm.trans hc) (by simp)

/-- The state after a column was discarded. -/
theorem advance_of_none {h : s.Active} (hc : s.candidate? tol h = none) :
    (s.advance tol h).row = s.row ∧ (s.advance tol h).live = s.live - 1 ∧
      ∀ i j, (s.advance tol h).work i j =
        if j = s.pivotCol h then s.work i (s.lastLive h) else s.work i j := by
  unfold advance
  split
  next j hj => exact absurd (hj.symm.trans hc) (by simp)
  next hj => exact ⟨rfl, rfl, fun i j => by simp [overwriteColumn, lastLive]⟩

end Steps

section Exact

variable {n m : ℕ} {tol : ℚ} {s : State ℚ n m}

/-- The rows that are done form a staircase: nonzero on the diagonal, zero below it. -/
structure Echelon (s : State ℚ n m) : Prop where
  diagonal : ∀ (i : Fin n) (j : Fin m), i.val = j.val → j.val < s.row → s.work i j ≠ 0
  below : ∀ (i : Fin n) (j : Fin m), j.val < i.val → j.val < s.row → s.work i j = 0

/-- What the live columns span. -/
def liveSpan (s : State ℚ n m) : Submodule ℚ (Fin n → ℚ) :=
  Submodule.span ℚ (s.work.column '' {j | j.val < s.live})

theorem column_swapRows (W : DenseMatrix ℚ n m) (p q : Fin n) (j : Fin m) :
    (W.swapRows p q).column j = LinearMap.funLeft ℚ ℚ (Equiv.swap p q) (W.column j) :=
  funext fun i => swapRows_entry W p q i j

/-- The multiples of the pivot row that its column takes off the rows below. -/
def belowFactors (W : DenseMatrix ℚ n m) (p : Fin n) (c : Fin m) (i : Fin n) : ℚ :=
  if p < i then W i c / W p c else 0

theorem clearBelow_apply (W : DenseMatrix ℚ n m) (p i : Fin n) (c j : Fin m) (live : ℕ) :
    clearBelow W p c live i j =
      if p < i ∧ W i c / W p c ≠ 0 ∧ c ≤ j ∧ j.val < live then W i j - W i c / W p c * W p j
      else W i j := by
  have hz : (!isZero (W i c / W p c)) = true ↔ W i c / W p c ≠ 0 := by
    rw [Bool.not_eq_true', ← Bool.not_eq_true, Rational.isZero_iff]
  rw [clearBelow_entry]
  by_cases h : p < i ∧ (!isZero (W i c / W p c)) = true
  · rw [if_pos h]
    simp only [h.1, hz.mp h.2, ne_eq, not_false_eq_true, true_and]
  · rw [if_neg h, if_neg fun hf => h ⟨hf.1, hz.mpr hf.2.1⟩]

theorem column_clearBelow {W : DenseMatrix ℚ n m} {p : Fin n} {c : Fin m} {live : ℕ}
    (hleft : ∀ j < c, W p j = 0) {j : Fin m} (hj : j.val < live) :
    (clearBelow W p c live).column j = rowOperation p (belowFactors W p c) (W.column j) := by
  funext i
  simp only [DenseMatrix.column, clearBelow_apply, rowOperation_apply, belowFactors]
  by_cases hpi : p < i
  · by_cases hz : W i c / W p c = 0
    · simp [hz]
    · rcases le_or_gt c j with hcj | hcj
      · simp [hpi, hz, hcj, hj]
      · simp [hcj.not_ge, hleft j hcj]
  · simp [hpi]

/-- What a pivot step with pivot row `i` does to each live column. -/
def pivotMap (s : State ℚ n m) (h : s.Active) (i : Fin n) : (Fin n → ℚ) →ₗ[ℚ] (Fin n → ℚ) :=
  rowOperation (s.pivotRow h)
      (belowFactors (s.work.swapRows (s.pivotRow h) i) (s.pivotRow h) (s.pivotCol h)) ∘ₗ
    LinearMap.funLeft ℚ ℚ (Equiv.swap (s.pivotRow h) i)

theorem pivotMap_injective (h : s.Active) (i : Fin n) : Function.Injective (s.pivotMap h i) := by
  have hf : belowFactors (s.work.swapRows (s.pivotRow h) i) (s.pivotRow h) (s.pivotCol h)
      (s.pivotRow h) ≠ 1 := by
    simp [belowFactors]
  rw [pivotMap, LinearMap.coe_comp]
  exact (rowOperation_injective hf).comp
    (LinearMap.funLeft_injective_of_surjective ℚ ℚ _ (Equiv.surjective _))

/-- To the left of the pivot column the swapped rows hold only zeros. -/
theorem swapRows_left_eq_zero (he : s.Echelon) (h : s.Active) {i : Fin n} (hi : s.row ≤ i.val)
    {j : Fin m} (hj : j < s.pivotCol h) :
    s.work.swapRows (s.pivotRow h) i (s.pivotRow h) j = 0 := by
  have hjr : j.val < s.row := hj
  rw [DenseMatrix.swapRows_apply, if_pos rfl]
  exact he.below i j (hjr.trans_le hi) hjr

theorem column_advance_of_some (he : s.Echelon) {h : s.Active} {i : Fin n}
    (hc : s.candidate? tol h = some i) {j : Fin m} (hj : j.val < s.live) :
    (s.advance tol h).work.column j = s.pivotMap h i (s.work.column j) := by
  obtain ⟨-, -, hwork⟩ := advance_of_some hc
  have hi := (candidate?_spec hc).1
  rw [hwork, column_clearBelow (fun k hk => swapRows_left_eq_zero he h hi hk) hj,
    column_swapRows]
  rfl

theorem liveSpan_advance_of_some (he : s.Echelon) {h : s.Active} {i : Fin n}
    (hc : s.candidate? tol h = some i) :
    (s.advance tol h).liveSpan = s.liveSpan.map (s.pivotMap h i) := by
  have hlive := (advance_of_some hc).2.1
  rw [liveSpan, liveSpan, Submodule.map_span, Set.image_image, hlive]
  congr 1
  exact Set.image_congr fun j hj => column_advance_of_some he hc hj

theorem finrank_liveSpan_advance_of_some (he : s.Echelon) {h : s.Active} {i : Fin n}
    (hc : s.candidate? tol h = some i) :
    Module.finrank ℚ (s.advance tol h).liveSpan = Module.finrank ℚ s.liveSpan := by
  rw [liveSpan_advance_of_some he hc]
  exact (Submodule.equivMapOfInjective _ (pivotMap_injective h i) _).finrank_eq.symm

theorem advance_of_some_apply (he : s.Echelon) {h : s.Active} {q : Fin n}
    (hc : s.candidate? tol h = some q) (i : Fin n) {j : Fin m} (hj : j.val < s.live) :
    (s.advance tol h).work i j = s.work (Equiv.swap (s.pivotRow h) q i) j -
      (if s.pivotRow h < i then
        s.work (Equiv.swap (s.pivotRow h) q i) (s.pivotCol h) / s.work q (s.pivotCol h)
      else 0) * s.work q j := by
  have hcol := congrFun (column_advance_of_some he hc hj) i
  simpa only [pivotMap, LinearMap.comp_apply, rowOperation_apply, belowFactors, swapRows_entry,
    LinearMap.funLeft_apply, Equiv.swap_apply_left, DenseMatrix.column] using hcol

/-- A pivot step extends the staircase by one column. -/
theorem Echelon.advance_of_some (htol : 0 ≤ tol) (he : s.Echelon) {h : s.Active} {q : Fin n}
    (hc : s.candidate? tol h = some q) : (s.advance tol h).Echelon := by
  obtain ⟨hrow, -, -⟩ := State.advance_of_some hc
  obtain ⟨hq, hsig⟩ := candidate?_spec hc
  have hpivot : s.work q (s.pivotCol h) ≠ 0 := Rational.ne_zero_of_significant htol hsig
  have hlive := h.2
  have hold : ∀ i (j : Fin m), j.val < s.row →
      (s.advance tol h).work i j = s.work (Equiv.swap (s.pivotRow h) q i) j := by
    intro i j hj
    rw [advance_of_some_apply he hc i (hj.trans hlive), he.below q j (hj.trans_le hq) hj,
      mul_zero, sub_zero]
  constructor
  case diagonal =>
    intro i j hij hj
    rw [hrow, Nat.lt_succ_iff_lt_or_eq] at hj
    cases hj with
    | inl hj =>
      have hp : i ≠ s.pivotRow h := by
        intro hf
        have hval := congrArg Fin.val hf
        simp only [pivotRow] at hval
        omega
      have hiq : i ≠ q := by
        intro hf
        rw [← hf] at hq
        omega
      rw [hold i j hj, Equiv.swap_apply_of_ne_of_ne hp hiq]
      exact he.diagonal i j hij hj
    | inr hj =>
      obtain rfl : j = s.pivotCol h := Fin.ext hj
      obtain rfl : i = s.pivotRow h := Fin.ext hij
      rw [advance_of_some_apply he hc _ hlive, Equiv.swap_apply_left, if_neg (lt_irrefl _),
        zero_mul, sub_zero]
      exact hpivot
  case below =>
    intro i j hij hj
    rw [hrow, Nat.lt_succ_iff_lt_or_eq] at hj
    cases hj with
    | inl hj =>
      rw [hold i j hj]
      apply he.below _ _ _ hj
      rw [Equiv.swap_apply_def]
      split_ifs
      · omega
      · exact hj
      · exact hij
    | inr hj =>
      obtain rfl : j = s.pivotCol h := Fin.ext hj
      have hlt : s.pivotRow h < i := hij
      rw [advance_of_some_apply he hc _ hlive, if_pos hlt, div_mul_cancel₀ _ hpivot, sub_self]

theorem column_advance_of_none {h : s.Active} (hc : s.candidate? tol h = none) (j : Fin m) :
    (s.advance tol h).work.column j =
      if j = s.pivotCol h then s.work.column (s.lastLive h) else s.work.column j := by
  funext i
  rw [DenseMatrix.column, (advance_of_none hc).2.2]
  split_ifs <;> rfl

/-- The columns the staircase stands on are untouched when another one is discarded. -/
theorem Echelon.advance_of_none (he : s.Echelon) {h : s.Active}
    (hc : s.candidate? tol h = none) : (s.advance tol h).Echelon := by
  obtain ⟨hrow, -, hwork⟩ := State.advance_of_none hc
  have hkeep : ∀ i (j : Fin m), j.val < s.row → (s.advance tol h).work i j = s.work i j := by
    intro i j hj
    rw [hwork, if_neg]
    exact fun hjc => absurd (congrArg Fin.val hjc) hj.ne
  constructor
  case diagonal =>
    intro i j hij hj
    rw [hrow] at hj
    rw [hkeep i j hj]
    exact he.diagonal i j hij hj
  case below =>
    intro i j hij hj
    rw [hrow] at hj
    rw [hkeep i j hj]
    exact he.below i j hij hj

theorem Echelon.advance (htol : 0 ≤ tol) (he : s.Echelon) (h : s.Active) :
    (s.advance tol h).Echelon := by
  cases hc : s.candidate? tol h with
  | some q => exact he.advance_of_some htol hc
  | none => exact he.advance_of_none hc

theorem column_mem_liveSpan {j : Fin m} (hj : j.val < s.live) : s.work.column j ∈ s.liveSpan :=
  Submodule.subset_span ⟨j, hj, rfl⟩

theorem liveSpan_advance_of_none_le {h : s.Active} (hc : s.candidate? tol h = none) :
    (s.advance tol h).liveSpan ≤ s.liveSpan := by
  have hlive := (advance_of_none hc).2.1
  have hl := h.2
  apply Submodule.span_le.mpr
  intro v hv
  obtain ⟨j, hj, rfl⟩ := hv
  rw [Set.mem_ofPred_eq, hlive] at hj
  rw [SetLike.mem_coe, column_advance_of_none hc]
  split_ifs
  · exact column_mem_liveSpan (Nat.sub_one_lt_of_lt hl)
  · exact column_mem_liveSpan (by omega)

/-- The columns of the staircase reach every vector that vanishes from the current row on. -/
theorem Echelon.mem_span_of_zero (he : s.Echelon) {k : ℕ} (hk : k ≤ s.row) {v : Fin n → ℚ}
    (hv : ∀ i : Fin n, k ≤ i.val → v i = 0) :
    v ∈ Submodule.span ℚ (s.work.column '' {j | j.val < k}) := by
  induction k generalizing v with
  | zero =>
    have hzero : v = 0 := funext fun i => hv i (Nat.zero_le _)
    exact hzero ▸ Submodule.zero_mem _
  | succ k ih =>
    have hkn : k < n := hk.trans s.row_le
    have hkm : k < m := hk.trans (s.row_le_live.trans s.live_le)
    let c := v ⟨k, hkn⟩ / s.work ⟨k, hkn⟩ ⟨k, hkm⟩
    have hdiag := he.diagonal ⟨k, hkn⟩ ⟨k, hkm⟩ rfl hk
    have hrest : v - c • s.work.column ⟨k, hkm⟩ ∈
        Submodule.span ℚ (s.work.column '' {j | j.val < k}) := by
      apply ih (Nat.le_of_succ_le hk)
      intro i hi
      rcases hi.eq_or_lt with hik | hik
      · obtain rfl : i = ⟨k, hkn⟩ := Fin.ext hik.symm
        simp [c, DenseMatrix.column, div_mul_cancel₀ _ hdiag]
      · have hbelow := he.below i ⟨k, hkm⟩ hik hk
        simp [DenseMatrix.column, hv i hik, hbelow]
    have hmono : Submodule.span ℚ (s.work.column '' {j | j.val < k}) ≤
        Submodule.span ℚ (s.work.column '' {j | j.val < k + 1}) :=
      Submodule.span_mono (Set.image_mono fun j hj => Nat.lt_succ_of_lt hj)
    have hcol : s.work.column ⟨k, hkm⟩ ∈
        Submodule.span ℚ (s.work.column '' {j | j.val < k + 1}) :=
      Submodule.subset_span ⟨⟨k, hkm⟩, Nat.lt_succ_self k, rfl⟩
    have hsum := Submodule.add_mem _ (hmono hrest) (Submodule.smul_mem _ c hcol)
    rwa [sub_add_cancel] at hsum

/-- With tolerance zero a discarded column depends on the columns of the staircase. -/
theorem liveSpan_le_advance_of_none (he : s.Echelon) {h : s.Active}
    (hc : s.candidate? 0 h = none) : s.liveSpan ≤ (s.advance 0 h).liveSpan := by
  obtain ⟨-, hlive, -⟩ := advance_of_none hc
  have hl := h.2
  have hcol := column_advance_of_none hc
  have hkeep : ∀ j : Fin m, j ≠ s.pivotCol h → j.val < s.live - 1 →
      s.work.column j ∈ (s.advance 0 h).liveSpan := fun j hjc hj => by
    rw [← (hcol j).trans (if_neg hjc)]
    exact column_mem_liveSpan (hlive ▸ hj)
  apply Submodule.span_le.mpr
  intro v hv
  obtain ⟨j, hj, rfl⟩ := hv
  rw [Set.mem_ofPred_eq] at hj
  by_cases hjc : j = s.pivotCol h
  · have hzero : ∀ i : Fin n, s.row ≤ i.val → s.work.column j i = 0 := fun i hi =>
      hjc ▸ Rational.negligible_zero_iff.mp (negligible_of_candidate?_eq_none hc hi)
    refine Submodule.span_le.mpr ?_ (he.mem_span_of_zero le_rfl hzero)
    intro w hw
    obtain ⟨k, hk, rfl⟩ := hw
    rw [Set.mem_ofPred_eq] at hk
    exact hkeep k (fun hkc => hk.ne (congrArg Fin.val hkc)) (by omega)
  · rcases Nat.lt_or_ge j.val (s.live - 1) with hlt | hge
    · exact hkeep j hjc hlt
    · obtain rfl : j = s.lastLive h := Fin.ext (by simp only [lastLive]; omega)
      have hne : s.row ≠ s.live - 1 := fun hf => hjc (Fin.ext hf.symm)
      rw [SetLike.mem_coe, ← (hcol (s.pivotCol h)).trans (if_pos rfl)]
      exact column_mem_liveSpan (show s.row < _ by rw [hlive]; omega)

theorem finrank_liveSpan_advance_le (he : s.Echelon) (h : s.Active) :
    Module.finrank ℚ (s.advance tol h).liveSpan ≤ Module.finrank ℚ s.liveSpan := by
  cases hc : s.candidate? tol h with
  | some q => exact (finrank_liveSpan_advance_of_some he hc).le
  | none => exact Submodule.finrank_mono (liveSpan_advance_of_none_le hc)

theorem finrank_liveSpan_advance_zero (he : s.Echelon) (h : s.Active) :
    Module.finrank ℚ (s.advance 0 h).liveSpan = Module.finrank ℚ s.liveSpan := by
  cases hc : s.candidate? 0 h with
  | some q => exact finrank_liveSpan_advance_of_some he hc
  | none =>
    rw [(liveSpan_advance_of_none_le hc).antisymm (liveSpan_le_advance_of_none he hc)]

/-- The columns of the staircase are independent. -/
theorem Echelon.row_le_finrank (he : s.Echelon) : s.row ≤ Module.finrank ℚ s.liveSpan := by
  let col : Fin s.row → Fin m := Fin.castLE (s.row_le_live.trans s.live_le)
  let corner : Matrix (Fin s.row) (Fin s.row) ℚ :=
    Matrix.of fun i j => s.work (i.castLE s.row_le) (col j)
  have htri : corner.IsUpperTriangular := fun i j hij =>
    he.below (i.castLE s.row_le) (col j) hij j.isLt
  have hdet : corner.det ≠ 0 := by
    rw [Matrix.det_of_isUpperTriangular htri, Finset.prod_ne_zero_iff]
    exact fun i _ => he.diagonal (i.castLE s.row_le) (col i) rfl i.isLt
  have hind : LinearIndependent ℚ fun j => s.work.column (col j) :=
    LinearIndependent.of_comp (LinearMap.funLeft ℚ ℚ (Fin.castLE s.row_le))
      (Matrix.linearIndependent_cols_of_det_ne_zero hdet)
  have hcard := finrank_span_eq_card hind
  rw [Fintype.card_fin] at hcard
  rw [← hcard]
  apply Submodule.finrank_mono
  apply Submodule.span_mono
  intro v hv
  obtain ⟨j, rfl⟩ := hv
  exact ⟨col j, j.isLt.trans_le s.row_le_live, rfl⟩

/-- When no row or no live column is left, the live columns span no more than the staircase. -/
theorem finrank_liveSpan_le_row (h : ¬s.Active) : Module.finrank ℚ s.liveSpan ≤ s.row := by
  by_cases hn : s.row < n
  · have hlive : s.live ≤ s.row := not_lt.mp fun hl => h ⟨hn, hl⟩
    have hle : (Set.range (s.work.column ∘ Fin.castLE s.live_le)).finrank ℚ ≤ s.live := by
      simpa only [Fintype.card_fin] using
        finrank_range_le_card (R := ℚ) (s.work.column ∘ Fin.castLE s.live_le)
    rw [Set.range_comp, Fin.range_castLE] at hle
    exact hle.trans hlive
  · have hle := s.liveSpan.finrank_le
    rw [Module.finrank_fin_fun] at hle
    omega

end Exact

end State

/-- What each step preserves, a run of any length preserves. -/
theorem advanceN_invariant {α : Type} [Scalar α] {n m : ℕ} {tol : α} {P : State α n m → Prop}
    (hstep : ∀ s (h : s.Active), P s → P (s.advance tol h)) (fuel : ℕ) (s : State α n m)
    (hs : P s) : P (advanceN tol fuel s) := by
  induction fuel generalizing s with
  | zero => exact hs
  | succ fuel ih =>
    unfold advanceN
    split
    next h => exact ih _ (hstep s h hs)
    next => exact hs

section Exact

variable {n m : ℕ} {tol : ℚ}

theorem start_echelon (A : DenseMatrix ℚ n m) : (start A).Echelon :=
  ⟨fun _ _ _ hj => absurd hj (Nat.not_lt_zero _), fun _ _ _ hj => absurd hj (Nat.not_lt_zero _)⟩

theorem finrank_liveSpan_start (A : DenseMatrix ℚ n m) :
    Module.finrank ℚ (start A).liveSpan = A.toMatrix.rank := by
  have hall : {j : Fin m | j.val < (start A).live} = Set.univ :=
    Set.eq_univ_of_forall fun j => j.isLt
  rw [State.liveSpan, hall, Set.image_univ, DenseMatrix.rank_toMatrix]
  rfl

theorem finish_echelon (htol : 0 ≤ tol) (A : DenseMatrix ℚ n m) :
    (finish tol (start A)).Echelon :=
  advanceN_invariant (fun _ h he => he.advance htol h) _ _ (start_echelon A)

/-- Whatever a step on a staircase preserves holds at the end. -/
theorem finish_invariant (htol : 0 ≤ tol) {P : State ℚ n m → Prop}
    (hstep : ∀ s (h : s.Active), s.Echelon → P s → P (s.advance tol h)) {A : DenseMatrix ℚ n m}
    (hA : P (start A)) : P (finish tol (start A)) := by
  have hboth : ∀ s (h : s.Active), s.Echelon ∧ P s →
      (s.advance tol h).Echelon ∧ P (s.advance tol h) := by
    intro s h hs
    obtain ⟨he, hs⟩ := hs
    exact ⟨he.advance htol h, hstep s h he hs⟩
  exact (advanceN_invariant (P := fun s => s.Echelon ∧ P s) hboth _ _ ⟨start_echelon A, hA⟩).2

theorem finrank_liveSpan_finish_le (htol : 0 ≤ tol) (A : DenseMatrix ℚ n m) :
    Module.finrank ℚ (finish tol (start A)).liveSpan ≤ A.toMatrix.rank := by
  let P (s : State ℚ n m) : Prop := Module.finrank ℚ s.liveSpan ≤ A.toMatrix.rank
  have hstep : ∀ s (h : s.Active), s.Echelon → P s → P (s.advance tol h) := by
    intro s h he hs
    exact (State.finrank_liveSpan_advance_le he h).trans hs
  exact finish_invariant htol hstep (finrank_liveSpan_start A).le

theorem finrank_liveSpan_finish_zero (A : DenseMatrix ℚ n m) :
    Module.finrank ℚ (finish 0 (start A)).liveSpan = A.toMatrix.rank := by
  let P (s : State ℚ n m) : Prop := Module.finrank ℚ s.liveSpan = A.toMatrix.rank
  have hstep : ∀ s (h : s.Active), s.Echelon → P s → P (s.advance 0 h) := by
    intro s h he hs
    exact (State.finrank_liveSpan_advance_zero he h).trans hs
  exact finish_invariant le_rfl hstep (finrank_liveSpan_start A)

/-- A finished elimination stands on a staircase that spans all its live columns. -/
theorem row_finish (htol : 0 ≤ tol) (A : DenseMatrix ℚ n m) :
    (finish tol (start A)).row = Module.finrank ℚ (finish tol (start A)).liveSpan := by
  apply Nat.le_antisymm
  · exact (finish_echelon htol A).row_le_finrank
  · exact State.finrank_liveSpan_le_row (finish_not_active tol _)

end Exact

end Rank

variable {n m : ℕ}

theorem rank_le_rows {α : Type} [Scalar α] (tol : α) (A : DenseMatrix α n m) : rank tol A ≤ n :=
  (Rank.finish tol (Rank.start A)).row_le

theorem rank_le_columns {α : Type} [Scalar α] (tol : α) (A : DenseMatrix α n m) : rank tol A ≤ m :=
  (Rank.finish tol (Rank.start A)).row_le_live.trans (Rank.finish tol (Rank.start A)).live_le

theorem rank_le_rank_toMatrix {tol : ℚ} (htol : 0 ≤ tol) (A : DenseMatrix ℚ n m) :
    rank tol A ≤ A.toMatrix.rank := by
  rw [rank, Rank.row_finish htol]
  exact Rank.finrank_liveSpan_finish_le htol A

theorem rank_zero_eq_rank_toMatrix (A : DenseMatrix ℚ n m) :
    rank 0 A = A.toMatrix.rank := by
  rw [rank, Rank.row_finish le_rfl, Rank.finrank_liveSpan_finish_zero]

/-- Elimination never finds more pivots than there are independent rows, and it finds all of
them when only zero counts as zero. -/
theorem rank_bounded_by_row_rank {tol : ℚ} (htol : 0 ≤ tol) (A : DenseMatrix ℚ n m) :
    ∃ r, A.IsRowRank r ∧ rank tol A ≤ r ∧ rank 0 A = r :=
  ⟨A.toMatrix.rank, A.isRowRank_rank, rank_le_rank_toMatrix htol A, rank_zero_eq_rank_toMatrix A⟩

/-- A second row within a third of twice the first one: the tolerance hides it. -/
theorem rank_bounded_by_row_rank_near_multiple :
    let A : DenseMatrix ℚ 2 3 := ⟨#v[#v[0, 1, 2], #v[0, 2, 17 / 4]]⟩
    (0 : ℚ) ≤ 1 / 3 ∧ rank (1 / 3) A = 1 ∧ rank 0 A = 2 ∧
      ∃ r, A.IsRowRank r ∧ rank (1 / 3) A ≤ r ∧ rank 0 A = r := by
  refine ⟨by norm_num, by decide +kernel, by decide +kernel, ?_⟩
  exact rank_bounded_by_row_rank (by norm_num) _

end LinearSystem
