import LinearSystem.Proofs.EquationOrder
import Mathlib.Analysis.Normed.Field.Lemmas
import Mathlib.Topology.Order.LeftRightNhds

namespace LinearSystem

open Scalar

namespace Rank

section Forced

variable {α : Type} {n m : ℕ}

theorem le_swap_iff {k : ℕ} {p q : Fin n} (hp : k ≤ p.val) (hq : k ≤ q.val) (i : Fin n) :
    k ≤ (Equiv.swap p q i).val ↔ k ≤ i.val := by
  rw [Equiv.swap_apply_def]
  split_ifs with hip hiq
  · simp [hip, hp, hq]
  · simp [hiq, hp, hq]
  · rfl

/-- The state `t` has the rows of `s` in another order, in which those that are done stay above
the others. -/
structure Reordered (σ : Equiv.Perm (Fin n)) (t s : State α n m) : Prop where
  row : t.row = s.row
  live : t.live = s.live
  work : ∀ i j, t.work i j = s.work (σ i) j
  pending : ∀ i, s.row ≤ (σ i).val ↔ s.row ≤ i.val

theorem reordered_start (A : DenseMatrix α n m) (σ : Equiv.Perm (Fin n)) :
    Reordered σ (start (A.reorder σ)) (start A) :=
  ⟨rfl, rfl, A.reorder_apply σ, fun _ => iff_of_true (Nat.zero_le _) (Nat.zero_le _)⟩

variable {σ : Equiv.Perm (Fin n)} {s t : State α n m}

theorem Reordered.active_iff (h : Reordered σ t s) : t.Active ↔ s.Active := by
  rw [State.Active, State.Active, h.row, h.live]

theorem Reordered.pivotRow (h : Reordered σ t s) (hs : s.Active) (ht : t.Active) :
    t.pivotRow ht = s.pivotRow hs := Fin.ext h.row

theorem Reordered.pivotCol (h : Reordered σ t s) (hs : s.Active) (ht : t.Active) :
    t.pivotCol ht = s.pivotCol hs := Fin.ext h.row

theorem Reordered.lastLive (h : Reordered σ t s) (hs : s.Active) (ht : t.Active) :
    t.lastLive ht = s.lastLive hs := Fin.ext (by simp only [State.lastLive, h.live])

variable [Scalar α] {tol : α}

/-- No more than one of the rows still to do could serve as the pivot row. -/
def State.Forced (tol : α) (s : State α n m) (h : s.Active) : Prop :=
  ∀ i k : Fin n, s.row ≤ i.val → s.row ≤ k.val →
    significant tol (s.work i (s.pivotCol h)) = true →
    significant tol (s.work k (s.pivotCol h)) = true → i = k

instance (h : s.Active) : Decidable (s.Forced tol h) :=
  inferInstanceAs (Decidable (∀ i k : Fin n, s.row ≤ i.val → s.row ≤ k.val →
    significant tol (s.work i (s.pivotCol h)) = true →
    significant tol (s.work k (s.pivotCol h)) = true → i = k))

theorem Reordered.candidate?_none (h : Reordered σ t s) {hs : s.Active} (ht : t.Active)
    (hc : s.candidate? tol hs = none) : t.candidate? tol ht = none := by
  rw [Option.eq_none_iff_forall_ne_some]
  intro q hq
  obtain ⟨hrow, hsig⟩ := State.candidate?_spec hq
  rw [h.row, ← h.pending] at hrow
  have hneg := State.negligible_of_candidate?_eq_none hc hrow
  rw [h.pivotCol hs ht, h.work, significant_eq_not_negligible, hneg] at hsig
  exact absurd hsig (by decide)

/-- Where there is no choice, both runs choose the same row. -/
theorem Reordered.candidate?_some (h : Reordered σ t s) {hs : s.Active} (ht : t.Active)
    (hforced : s.Forced tol hs) {q : Fin n} (hc : s.candidate? tol hs = some q) :
    ∃ q', t.candidate? tol ht = some q' ∧ σ q' = q := by
  obtain ⟨hrow, hsig⟩ := State.candidate?_spec hc
  cases hc' : t.candidate? tol ht with
  | none =>
    have hpending : t.row ≤ (σ.symm q).val := by
      rwa [h.row, ← h.pending, σ.apply_symm_apply]
    have hneg := State.negligible_of_candidate?_eq_none hc' hpending
    rw [h.work, σ.apply_symm_apply, h.pivotCol hs ht] at hneg
    rw [significant_eq_not_negligible, hneg] at hsig
    exact absurd hsig (by decide)
  | some q' =>
    obtain ⟨hrow', hsig'⟩ := State.candidate?_spec hc'
    rw [h.row, ← h.pending] at hrow'
    rw [h.work, h.pivotCol hs ht] at hsig'
    exact ⟨q', rfl, hforced _ _ hrow' hrow hsig' hsig⟩

theorem Reordered.advance_of_none (h : Reordered σ t s) {hs : s.Active} (ht : t.Active)
    (hc : s.candidate? tol hs = none) : Reordered σ (t.advance tol ht) (s.advance tol hs) := by
  obtain ⟨hrow, hlive, hwork⟩ := State.advance_of_none hc
  obtain ⟨hrow', hlive', hwork'⟩ := State.advance_of_none (h.candidate?_none ht hc)
  constructor
  case row => rw [hrow, hrow', h.row]
  case live => rw [hlive, hlive', h.live]
  case work =>
    intro i j
    rw [hwork, hwork', h.pivotCol hs ht, h.lastLive hs ht, h.work, h.work]
  case pending =>
    rw [hrow]
    exact h.pending

/-- The same pivot row, wherever it stands, has the same effect on the same rows. -/
theorem Reordered.advance_of_some (h : Reordered σ t s) {hs : s.Active} (ht : t.Active)
    {q q' : Fin n} (hc : s.candidate? tol hs = some q) (hc' : t.candidate? tol ht = some q')
    (hq : σ q' = q) :
    Reordered (Equiv.swap (s.pivotRow hs) q * σ * Equiv.swap (s.pivotRow hs) q')
      (t.advance tol ht) (s.advance tol hs) := by
  obtain ⟨hrow, hlive, hwork⟩ := State.advance_of_some hc
  obtain ⟨hrow', hlive', hwork'⟩ := State.advance_of_some hc'
  set p := s.pivotRow hs with hp
  set τ := Equiv.swap p q * σ * Equiv.swap p q' with hτ
  have hτp : τ p = p := by
    simp [hτ, hq]
  have hswapped : ∀ i j, t.work.swapRows p q' i j = s.work.swapRows p q (τ i) j := by
    intro i j
    rw [State.swapRows_entry, State.swapRows_entry, h.work]
    simp [hτ]
  have hrowp : s.row ≤ p.val := le_rfl
  have hrowq : s.row ≤ q.val := (State.candidate?_spec hc).1
  have hrowq' : s.row ≤ q'.val := h.row ▸ (State.candidate?_spec hc').1
  have hpending : ∀ i, p ≤ τ i ↔ p ≤ i := fun i =>
    (le_swap_iff hrowp hrowq _).trans ((h.pending _).trans (le_swap_iff hrowp hrowq' i))
  have hbelow : ∀ i, p < τ i ↔ p < i := by
    intro i
    have hne : p ≠ τ i ↔ p ≠ i := by
      conv_lhs => rw [← hτp]
      exact τ.injective.ne_iff
    rw [lt_iff_le_and_ne, lt_iff_le_and_ne, hpending, hne]
  constructor
  case row => rw [hrow, hrow', h.row]
  case live => rw [hlive, hlive', h.live]
  case work =>
    intro i j
    rw [hwork, hwork', State.clearBelow_entry, State.clearBelow_entry, h.pivotRow hs ht,
      h.pivotCol hs ht, h.live]
    simp only [← hp, hswapped, hτp, hbelow]
  case pending =>
    intro i
    rw [hrow]
    exact hbelow i

theorem Reordered.row_finish (h : Reordered σ t s)
    (hforced : ∀ k < s.size, ∀ hk : (advanceN tol k s).Active, (advanceN tol k s).Forced tol hk) :
    (finish tol t).row = (finish tol s).row := by
  generalize hsize : s.size = size at hforced
  induction size using Nat.strong_induction_on generalizing s t σ with
  | _ size ih =>
    by_cases hs : s.Active
    · have ht := h.active_iff.mpr hs
      have hless := s.size_advance tol hs
      have hrest : ∀ k < (s.advance tol hs).size, ∀ hk : (advanceN tol k (s.advance tol hs)).Active,
          (advanceN tol k (s.advance tol hs)).Forced tol hk := by
        intro k hk
        rw [← advanceN_of_active k hs]
        exact hforced (k + 1) (by omega)
      rw [finish_of_active hs, finish_of_active ht]
      cases hc : s.candidate? tol hs with
      | none => exact ih _ (by omega) (h.advance_of_none ht hc) rfl hrest
      | some q =>
        obtain ⟨q', hc', hq⟩ := h.candidate?_some ht (hforced 0 (by omega) hs) hc
        exact ih _ (by omega) (h.advance_of_some ht hc hc' hq) rfl hrest
    · rw [finish_of_not_active hs, finish_of_not_active (mt h.active_iff.mp hs), h.row]

end Forced

section Tolerance

open Filter Topology

variable {n m : ℕ}

/-- A value is told from zero by every tolerance that is small enough. -/
theorem eventually_significant_eq (x : ℚ) :
    ∀ᶠ tol in 𝓝[≥] (0 : ℚ), significant tol x = significant 0 x := by
  have hnonneg : ∀ᶠ tol in 𝓝[≥] (0 : ℚ), 0 ≤ tol := self_mem_nhdsWithin
  rcases eq_or_ne x 0 with rfl | hx
  · filter_upwards [hnonneg] with tol htol
    rw [Bool.eq_iff_iff, Rational.significant_iff, Rational.significant_iff, abs_zero]
    exact iff_of_false htol.not_gt (lt_irrefl 0)
  · filter_upwards [nhdsWithin_le_nhds (eventually_lt_nhds (abs_pos.mpr hx))] with tol htol
    rw [Bool.eq_iff_iff, Rational.significant_iff, Rational.significant_iff]
    exact iff_of_true htol (abs_pos.mpr hx)

theorem State.eventually_advance_eq (s : State ℚ n m) (h : s.Active) :
    ∀ᶠ tol in 𝓝[≥] (0 : ℚ), s.advance tol h = s.advance 0 h := by
  filter_upwards [eventually_all.mpr fun i => eventually_significant_eq (s.work i (s.pivotCol h))]
    with tol hsig
  have hcandidate : s.candidate? tol h = s.candidate? 0 h := by
    simp only [State.candidate?, hsig]
  simp only [State.advance, hcandidate]

/-- A run makes finitely many tests, so it too is the same for every small enough tolerance. -/
theorem eventually_advanceN_eq (k : ℕ) (s : State ℚ n m) :
    ∀ᶠ tol in 𝓝[≥] (0 : ℚ), advanceN tol k s = advanceN 0 k s := by
  induction k generalizing s with
  | zero => exact .of_forall fun _ => rfl
  | succ k ih =>
    by_cases h : s.Active
    · filter_upwards [s.eventually_advance_eq h, ih (s.advance 0 h)] with tol hstep hrun
      rw [advanceN_of_active k h, advanceN_of_active k h, hstep, hrun]
    · exact .of_forall fun tol => by
        rw [advanceN_of_not_active _ h, advanceN_of_not_active _ h]

end Tolerance

end Rank

section Reorder

open Filter Topology

variable {n m : ℕ}

theorem eventually_rank_eq (A : DenseMatrix ℚ n m) :
    ∀ᶠ tol in 𝓝[≥] (0 : ℚ), rank tol A = A.toMatrix.rank := by
  filter_upwards [Rank.eventually_advanceN_eq (Rank.start A).size (Rank.start A)] with tol hrun
  rw [← rank_zero_eq_rank_toMatrix, rank, rank, Rank.finish, Rank.finish, hrun]

theorem rank_toMatrix_reorder (A : DenseMatrix ℚ n m) (σ : Equiv.Perm (Fin n)) :
    (A.reorder σ).toMatrix.rank = A.toMatrix.rank := by
  have hsub : (A.reorder σ).toMatrix = A.toMatrix.submatrix σ (Equiv.refl (Fin m)) :=
    Matrix.ext fun i j => A.reorder_apply σ i j
  rw [hsub, Matrix.rank_submatrix]

theorem exists_rank_reorder_eq (A : DenseMatrix ℚ n m) :
    ∃ ε > 0, ∀ tol, 0 ≤ tol → tol < ε →
      rank tol A = A.toMatrix.rank ∧ ∀ σ, rank tol (A.reorder σ) = rank tol A := by
  have hall : ∀ᶠ tol in 𝓝[≥] (0 : ℚ), ∀ σ, rank tol (A.reorder σ) = A.toMatrix.rank := by
    refine eventually_all.mpr fun σ => ?_
    rw [← rank_toMatrix_reorder A σ]
    exact eventually_rank_eq (A.reorder σ)
  obtain ⟨ε, hε, hsub⟩ := mem_nhdsGE_iff_exists_Ico_subset.mp ((eventually_rank_eq A).and hall)
  refine ⟨ε, hε, fun tol hnonneg hlt => ?_⟩
  obtain ⟨hrank, hreorder⟩ := hsub ⟨hnonneg, hlt⟩
  exact ⟨hrank, fun σ => (hreorder σ).trans hrank.symm⟩

variable {α : Type} [Scalar α] {tol : α} {A : DenseMatrix α n m} {σ : Equiv.Perm (Fin n)}

theorem rank_reorder_eq_zero_iff : rank tol (A.reorder σ) = 0 ↔ rank tol A = 0 := by
  rw [rank_eq_zero_iff, rank_eq_zero_iff]
  simp only [DenseMatrix.Negligible, DenseMatrix.reorder_apply]
  exact σ.forall_congr_right (q := fun i => ∀ j, negligible tol (A i j) = true)

/-- A rank of zero shows in every order, and one is all that is left. -/
theorem rank_reorder_of_le_one (h : ∀ σ, rank tol (A.reorder σ) ≤ 1) :
    rank tol (A.reorder σ) = rank tol A := by
  have hzero : rank tol (A.reorder σ) = 0 ↔ rank tol A = 0 := rank_reorder_eq_zero_iff
  have hle := h σ
  have hle' := h 1
  rw [DenseMatrix.reorder_one] at hle'
  omega

/-- No step of the elimination has a choice between pivot rows. -/
def DenseMatrix.PivotsForced (tol : α) (A : DenseMatrix α n m) : Prop :=
  ∀ k < n + m, ∀ h : (Rank.advanceN tol k (Rank.start A)).Active,
    (Rank.advanceN tol k (Rank.start A)).Forced tol h

instance : Decidable (A.PivotsForced tol) :=
  inferInstanceAs (Decidable (∀ k < n + m, ∀ h : (Rank.advanceN tol k (Rank.start A)).Active,
    (Rank.advanceN tol k (Rank.start A)).Forced tol h))

theorem rank_reorder_of_forced (h : A.PivotsForced tol) :
    rank tol (A.reorder σ) = rank tol A :=
  (Rank.reordered_start A σ).row_finish h

end Reorder

/-- The order of the rows does not show in the rank when the tolerance is small enough for the
matrix, or its true rank is at most one. In any arithmetic, and whatever counts as zero, it does
not show in a rank of zero, with one row or one column, or where no pivot row had to be chosen. -/
theorem rank_independent_of_row_order (n m : ℕ) :
    (∀ A : DenseMatrix ℚ n m, ∃ ε > 0, ∀ tol, 0 ≤ tol → tol < ε →
      rank tol A = A.toMatrix.rank ∧ ∀ σ, rank tol (A.reorder σ) = rank tol A) ∧
    (∀ (A : DenseMatrix ℚ n m) (tol : ℚ), 0 ≤ tol → A.toMatrix.rank ≤ 1 → ∀ σ,
      rank tol (A.reorder σ) = rank tol A) ∧
    ∀ (α : Type) [Scalar α] (tol : α) (A : DenseMatrix α n m) (σ : Equiv.Perm (Fin n)),
      (rank tol (A.reorder σ) = 0 ↔ rank tol A = 0) ∧
      (n ≤ 1 ∨ m ≤ 1 ∨ A.PivotsForced tol → rank tol (A.reorder σ) = rank tol A) := by
  refine ⟨exists_rank_reorder_eq, fun A tol htol hrank σ => ?_, fun α _ tol A σ => ?_⟩
  · refine rank_reorder_of_le_one fun τ => ?_
    calc rank tol (A.reorder τ) ≤ (A.reorder τ).toMatrix.rank := rank_le_rank_toMatrix htol _
      _ = A.toMatrix.rank := rank_toMatrix_reorder A τ
      _ ≤ 1 := hrank
  · refine ⟨rank_reorder_eq_zero_iff, ?_⟩
    rintro (hn | hm | hforced)
    · exact rank_reorder_of_le_one fun _ => (rank_le_rows tol _).trans hn
    · exact rank_reorder_of_le_one fun _ => (rank_le_columns tol _).trans hm
    · exact rank_reorder_of_forced hforced

/-- Three rows, the first and the last of which change places. The first matrix has rank two, the
second one rank one, and in the third one each column has a single pivot row by the time it is
reached. -/
theorem rank_independent_of_row_order_three_rows :
    let σ : Equiv.Perm (Fin 3) := Equiv.swap 0 2
    let A : DenseMatrix ℚ 3 2 := ⟨#v[#v[2, 0], #v[4, 3 / 2], #v[0, 0]]⟩
    let B : DenseMatrix ℚ 3 2 := ⟨#v[#v[2, 1], #v[4, 2], #v[-6, -3]]⟩
    let C : DenseMatrix Float 3 3 := ⟨#v[#v[1e-11, 0, 5], #v[2, 1, 1], #v[0, 4, 0]]⟩
    (∃ tol > 0, rank tol A = 2 ∧ rank tol (A.reorder σ) = rank tol A) ∧
      (B.toMatrix.rank ≤ 1 ∧ rank (5 / 2) (B.reorder σ) = rank (5 / 2) B) ∧
      C.PivotsForced 1e-10 ∧ rank 1e-10 (C.reorder σ) = rank 1e-10 C := by
  intro σ A B C
  obtain ⟨hsmall, hone, -⟩ := rank_independent_of_row_order 3 2
  obtain ⟨-, -, hforced⟩ := rank_independent_of_row_order 3 3
  have hA : A.toMatrix.rank = 2 := (rank_zero_eq_rank_toMatrix A).symm.trans (by decide +kernel)
  have hB : B.toMatrix.rank ≤ 1 := (rank_zero_eq_rank_toMatrix B).symm.trans_le (by decide +kernel)
  have hC : C.PivotsForced 1e-10 := by decide +kernel
  refine ⟨?_, ⟨hB, hone B (5 / 2) (by norm_num) hB σ⟩, hC, ?_⟩
  · obtain ⟨ε, hε, hrank⟩ := hsmall A
    obtain ⟨hfull, hreorder⟩ := hrank (ε / 2) (half_pos hε).le (half_lt_self hε)
    exact ⟨ε / 2, half_pos hε, hfull.trans hA, hreorder σ⟩
  · exact (hforced Float 1e-10 C σ).2 (.inr (.inr hC))

/-- With the small row on top, its multiple by a thousand is taken off and what is left of the
other row keeps its size. With the large row on top, that entry is divided by a thousand as it is
carried down, and no longer counts. -/
theorem rank_depends_on_row_order :
    let A : DenseMatrix Float 2 2 := ⟨#v[#v[1, 0], #v[1024, 1 / 1073741824]]⟩
    let B : DenseMatrix ℚ 2 2 := ⟨#v[#v[2, 0], #v[4, 3 / 2]]⟩
    (rank defaultTolerance A = 2 ∧ rank defaultTolerance (A.reorder (Equiv.swap 0 1)) = 1) ∧
      rank 1 B = 2 ∧ rank 1 (B.reorder (Equiv.swap 0 1)) = 1 := by
  decide +kernel

end LinearSystem
