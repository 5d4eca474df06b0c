import LinearSystem.Proofs.Exact
import LinearSystem.Proofs.RankRun

namespace LinearSystem

open Scalar

namespace Rank

section Shape

variable {α : Type} {n m : ℕ}

/-- A state with one more column than another one, in runs that have discarded no column yet. -/
structure Extends (t : State α n (m + 1)) (s : State α n m) : Prop where
  row : t.row = s.row
  live_base : s.live = m
  live_extended : t.live = m + 1
  work : ∀ i (j : Fin m), t.work i j.castSucc = s.work i j

theorem extends_start (A : DenseMatrix α n m) (b : Vector α n) :
    Extends (start (A.augment b)) (start A) :=
  ⟨rfl, rfl, rfl, A.augment_castSucc b⟩

variable {s : State α n m} {t : State α n (m + 1)}

theorem Extends.active (h : Extends t s) (hs : s.Active) : t.Active := by
  have hlt := hs.2
  rw [h.live_base] at hlt
  rw [State.Active, h.row, h.live_extended]
  exact ⟨hs.1, Nat.lt_succ_of_lt hlt⟩

theorem Extends.pivotRow (h : Extends t s) (hs : s.Active) (ht : t.Active) :
    t.pivotRow ht = s.pivotRow hs := Fin.ext h.row

theorem Extends.pivotCol (h : Extends t s) (hs : s.Active) (ht : t.Active) :
    t.pivotCol ht = (s.pivotCol hs).castSucc := Fin.ext h.row

theorem Extends.live_lt (h : Extends t s) (j : Fin m) :
    j.val < s.live ∧ j.castSucc.val < t.live := by
  rw [h.live_base, h.live_extended]
  exact ⟨j.isLt, j.castSucc.isLt⟩

end Shape

variable {α : Type} [Scalar α] {n m : ℕ} {tol : α} {s : State α n m} {t : State α n (m + 1)}

/-- As long as they are in step, both runs choose the same pivot rows. -/
theorem Extends.candidate?_eq (h : Extends t s) (hs : s.Active) (ht : t.Active) :
    t.candidate? tol ht = s.candidate? tol hs := by
  unfold State.candidate?
  simp only [h.pivotCol hs ht, h.work, h.row]

theorem Extends.advance (h : Extends t s) (hs : s.Active) (ht : t.Active) {q : Fin n}
    (hc : s.candidate? tol hs = some q) : Extends (t.advance tol ht) (s.advance tol hs) := by
  obtain ⟨hrow, hlive, hwork⟩ := State.advance_of_some hc
  obtain ⟨hrow', hlive', hwork'⟩ := State.advance_of_some ((h.candidate?_eq hs ht).trans hc)
  constructor
  case row => rw [hrow, hrow', h.row]
  case live_base => exact hlive.trans h.live_base
  case live_extended => exact hlive'.trans h.live_extended
  case work =>
    intro i j
    rw [hwork, hwork', State.clearBelow_entry, State.clearBelow_entry]
    simp only [DenseMatrix.swapRows_apply, h.pivotRow hs ht, h.pivotCol hs ht, h.work, h.live_lt j,
      Fin.castSucc_le_castSucc_iff, and_true]

/-- While the smaller matrix has rows and columns left and discards none, the runs stay in step. -/
theorem Extends.advanceN (h : Extends t s) {k : ℕ} (hk : s.row + k ≤ min n m)
    (hfull : (advanceN tol k s).live = m) :
    Extends (advanceN tol k t) (advanceN tol k s) ∧ (advanceN tol k s).row = s.row + k := by
  induction k generalizing s t with
  | zero => exact ⟨h, rfl⟩
  | succ k ih =>
    have hs : s.Active := ⟨by omega, by rw [h.live_base]; omega⟩
    rw [advanceN_of_active k hs] at hfull ⊢
    rw [advanceN_of_active k (h.active hs)]
    cases hc : s.candidate? tol hs with
    | some q =>
      have hrow := (State.advance_of_some hc).1
      obtain ⟨hext, hend⟩ := ih (h.advance hs (h.active hs) hc) (by omega) hfull
      exact ⟨hext, by omega⟩
    | none =>
      have hlost := (State.advance_of_none hc).2.1
      have hle : (advanceN tol k (s.advance tol hs)).live ≤ (s.advance tol hs).live :=
        live_advanceN_le k
      have hpos := hs.2
      rw [hlost, h.live_base] at hle
      rw [h.live_base] at hpos
      omega

theorem Extends.exhausted (h : Extends t s) (ht : t.Exhausted tol) : s.Exhausted tol := by
  intro i j hi hj _
  rw [← h.work]
  refine ht i j.castSucc ?_ ?_ (h.live_lt j).2
  · rwa [h.row]
  · rwa [h.row]

theorem row_finish_le_live (s : State α n m) : (finish tol s).row ≤ s.live :=
  (finish tol s).row_le_live.trans (live_advanceN_le _)

/-- A column without a pivot leaves room for one pivot less. -/
theorem row_finish_lt_live {s : State α n m} {h : s.Active} (hc : s.candidate? tol h = none) :
    (finish tol s).row < s.live := by
  have hlive := (State.advance_of_none hc).2.1
  have hle : (finish tol (s.advance tol h)).row ≤ (s.advance tol h).live :=
    row_finish_le_live _
  have hpos := h.2
  rw [finish_of_active h]
  omega

/-- In step up to the last row or the last column, the runs end at most one pivot apart. -/
theorem Extends.row_finish (tol : α) (h : Extends t s) (hlast : min n m = s.row + 1) :
    (finish tol s).row ≤ (finish tol t).row ∧ (finish tol t).row ≤ (finish tol s).row + 1 := by
  have hs : s.Active := ⟨by omega, by rw [h.live_base]; omega⟩
  have hrow := h.row
  have hlow : s.row ≤ (finish tol s).row := row_le_advanceN _
  have hlow' : t.row ≤ (finish tol t).row := row_le_advanceN _
  have hhigh : (finish tol s).row ≤ s.live := row_finish_le_live s
  have hhigh' : (finish tol t).row ≤ t.live := row_finish_le_live t
  have hrows := (finish tol s).row_le
  have hrows' := (finish tol t).row_le
  rw [h.live_base] at hhigh
  rw [h.live_extended] at hhigh'
  constructor
  · by_cases hend : (finish tol t).row = t.row
    · have hsame := row_finish_eq_iff.mpr (h.exhausted (row_finish_eq_iff.mp hend))
      omega
    · omega
  · by_cases hend : (finish tol s).row = s.row
    · have hnone : s.candidate? tol hs = none := by
        rw [Option.eq_none_iff_forall_ne_some]
        exact fun q hq => State.not_exhausted_of_some hq (row_finish_eq_iff.mp hend)
      have hlost := row_finish_lt_live ((h.candidate?_eq hs (h.active hs)).trans hnone)
      rw [h.live_extended] at hlost
      omega
    · omega

end Rank

/-- The right-hand side may raise the rank, and by one at most. -/
def Ranks.Coherent (r : Ranks) : Prop := r.matrix ≤ r.augmented ∧ r.augmented ≤ r.matrix + 1

instance (r : Ranks) : Decidable r.Coherent :=
  inferInstanceAs (Decidable (r.matrix ≤ r.augmented ∧ r.augmented ≤ r.matrix + 1))

section Generic

variable {α : Type} [Scalar α] {n m : ℕ} {tol : α} {A : DenseMatrix α n m}

/-- Elimination finds a pivot in every column until one row or one column is left. -/
def DenseMatrix.PivotsUntilLast (tol : α) (A : DenseMatrix α n m) : Prop :=
  (Rank.advanceN tol (min n m - 1) (Rank.start A)).live = m

instance : Decidable (A.PivotsUntilLast tol) :=
  inferInstanceAs (Decidable ((Rank.advanceN tol (min n m - 1) (Rank.start A)).live = m))

theorem pivotsUntilLast_of_thin (h : n = 1 ∨ m = 1) : A.PivotsUntilLast tol := by
  have hsteps : min n m - 1 = 0 := by omega
  rw [DenseMatrix.PivotsUntilLast, hsteps]
  rfl

theorem pivotsUntilLast_of_rank_eq (h : rank tol A = m) : A.PivotsUntilLast tol := by
  have hle : (Rank.finish tol (Rank.start A)).row ≤
      (Rank.advanceN tol (min n m - 1) (Rank.start A)).live := by
    rw [← Rank.finish_advanceN (min n m - 1)]
    exact Rank.row_finish_le_live _
  have hrank : m ≤ (Rank.finish tol (Rank.start A)).row := h.ge
  exact (Rank.State.live_le _).antisymm (hrank.trans hle)

theorem ranksAt_coherent_of_pivots (hn : 0 < n) (hm : 0 < m) (h : A.PivotsUntilLast tol)
    (b : Vector α n) : (ranksAt tol A b).Coherent := by
  have hsteps : (Rank.start A).row + (min n m - 1) ≤ min n m := by
    simp only [Rank.start]
    omega
  obtain ⟨hext, hrow⟩ := (Rank.extends_start A b).advanceN hsteps h
  have hlast : min n m = (Rank.advanceN tol (min n m - 1) (Rank.start A)).row + 1 := by
    rw [hrow]
    simp only [Rank.start]
    omega
  have hend := hext.row_finish tol hlast
  rwa [Rank.finish_advanceN, Rank.finish_advanceN] at hend

theorem classify_coherent_of_pivots {settings : Settings} {l : List α} {r : Ranks}
    (htol : settings.toleranceFor α = .ok tol) (hr : classify settings A l = .ok r)
    (h : n = 1 ∨ m = 1 ∨ r.matrix = r.unknowns ∨ A.PivotsUntilLast tol) : r.Coherent := by
  obtain ⟨tol', b, htol', hvalid, rfl⟩ := classify_eq_ok_iff.mp hr
  obtain rfl : tol' = tol := Except.ok.inj (htol'.symm.trans htol)
  obtain ⟨hn, hm⟩ := pos_of_validate_ok hvalid
  have hpivots : A.PivotsUntilLast tol' := by
    rcases h with hone | hone | hrank | hpivots
    · exact pivotsUntilLast_of_thin (.inl hone)
    · exact pivotsUntilLast_of_thin (.inr hone)
    · exact pivotsUntilLast_of_rank_eq hrank
    · exact hpivots
  exact ranksAt_coherent_of_pivots hn hm hpivots b

end Generic

section Exact

variable {n m : ℕ}

theorem ranksAt_coherent_exact (A : DenseMatrix ℚ n m) (b : Vector ℚ n) :
    (ranksAt 0 A b).Coherent := by
  have hle : A.columnSpan ≤ (A.augment b).columnSpan := by
    rw [columnSpan_augment]
    exact le_sup_left
  have hone : Module.finrank ℚ (Submodule.span ℚ {b.get}) ≤ 1 := by
    simpa using finrank_span_le_card (R := ℚ) {b.get}
  have hsup := Submodule.finrank_add_le_finrank_add_finrank A.columnSpan
    (Submodule.span ℚ {b.get})
  rw [← columnSpan_augment] at hsup
  have hmatrix : (ranksAt 0 A b).matrix = Module.finrank ℚ A.columnSpan :=
    (rank_zero_eq_rank_toMatrix A).trans A.rank_toMatrix
  have haugmented : (ranksAt 0 A b).augmented = Module.finrank ℚ (A.augment b).columnSpan :=
    (rank_zero_eq_rank_toMatrix _).trans (DenseMatrix.rank_toMatrix _)
  rw [Ranks.Coherent, hmatrix, haugmented]
  exact ⟨Submodule.finrank_mono hle, by omega⟩

/-- The two ranks fit together in exact arithmetic when only zero counts as zero; in any
arithmetic, and whatever counts as zero, they do if elimination drops no column of the matrix
before its last row or column. -/
theorem classify_ranks_coherent :
    (∀ (settings : Settings) (A : DenseMatrix ℚ n m) (l : List ℚ) (r : Ranks),
      settings.toleranceFor ℚ = .ok 0 → classify settings A l = .ok r → r.Coherent) ∧
    ∀ (α : Type) [Scalar α] (settings : Settings) (A : DenseMatrix α n m) (l : List α) (tol : α)
      (r : Ranks), settings.toleranceFor α = .ok tol → classify settings A l = .ok r →
      n = 1 ∨ m = 1 ∨ r.matrix = r.unknowns ∨ A.PivotsUntilLast tol → r.Coherent := by
  constructor
  · intro settings A l r htol hr
    obtain ⟨tol, b, htol', -, rfl⟩ := classify_eq_ok_iff.mp hr
    obtain rfl : tol = 0 := Except.ok.inj (htol'.symm.trans htol)
    exact ranksAt_coherent_exact A b
  · intro α _ settings A l tol r htol hr h
    exact classify_coherent_of_pivots htol hr h

end Exact

/-- The second column is lost, but only when one row is left. -/
theorem classify_ranks_coherent_last_row :
    let A : DenseMatrix Float 2 3 := ⟨#v[#v[2, 1, 1], #v[4, 2, 3]]⟩
    let b : Vector Float 2 := #v[1, 5]
    Settings.default.toleranceFor Float = .ok 1e-10 ∧ A.PivotsUntilLast 1e-10 ∧
      ∃ r, classify .default A b.toList = .ok r ∧ r = ⟨2, 2, 3⟩ ∧ r.Coherent := by
  intro A b
  have hvalid : validate A b.toList = .ok b :=
    validate_of_finite (by decide) (by decide) (by decide +kernel) (by decide +kernel)
  have hclassify : classify .default A b.toList = .ok (ranksAt 1e-10 A b) :=
    classify_eq_ok_iff.mpr ⟨1e-10, b, rfl, hvalid, rfl⟩
  have hpivots : A.PivotsUntilLast 1e-10 := by decide +kernel
  exact ⟨rfl, hpivots, _, hclassify, by decide +kernel, classify_ranks_coherent.2 Float .default A
    b.toList 1e-10 _ rfl hclassify (.inr (.inr (.inr hpivots)))⟩

/-- With the first column exhausted, the last column comes first: for the matrix alone that is its
third one, with the right-hand side it is that. In the first system what the right-hand side
leaves of both other columns is below the tolerance, though one of them alone is not; in the second
one a negligible coefficient is multiplied by four and counts. -/
theorem classify_ranks_incoherent :
    let A : DenseMatrix Float 2 3 := ⟨#v[#v[0, 1, 1], #v[0, 1, 1 + 3 / 17179869184]]⟩
    let b : Vector Float 2 := #v[1, 1 + 3 / 34359738368]
    let A' : DenseMatrix Float 2 2 := ⟨#v[#v[0, 1 / 17179869184], #v[0, 0]]⟩
    let b' : Vector Float 2 := #v[1, 4]
    (∃ r, classify .default A b.toList = .ok r ∧ r.matrix = 2 ∧ r.augmented = 1 ∧
      r.solvability = .underdetermined 1) ∧
    ∃ r, classify .default A' b'.toList = .ok r ∧ r.matrix = 0 ∧ r.augmented = 2 := by
  intro A b A' b'
  have hvalid : validate A b.toList = .ok b :=
    validate_of_finite (by decide) (by decide) (by decide +kernel) (by decide +kernel)
  have hvalid' : validate A' b'.toList = .ok b' :=
    validate_of_finite (by decide) (by decide) (by decide +kernel) (by decide +kernel)
  refine ⟨⟨ranksAt 1e-10 A b, classify_eq_ok_iff.mpr ⟨1e-10, b, rfl, hvalid, rfl⟩, ?_⟩,
    ranksAt 1e-10 A' b', classify_eq_ok_iff.mpr ⟨1e-10, b', rfl, hvalid', rfl⟩, ?_⟩
  · decide +kernel
  · decide +kernel

end LinearSystem
