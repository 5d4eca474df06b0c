import LinearSystem.Proofs.Rank

namespace LinearSystem.Rank

open Scalar

variable {α : Type} [Scalar α] {n m : ℕ} {tol : α} {s : State α n m}

namespace State

theorem row_le_advance (h : s.Active) : s.row ≤ (s.advance tol h).row := by
  cases hc : s.candidate? tol h with
  | some q => exact (Nat.le_succ _).trans (advance_of_some hc).1.ge
  | none => exact (advance_of_none hc).1.ge

theorem live_advance_le (h : s.Active) : (s.advance tol h).live ≤ s.live := by
  cases hc : s.candidate? tol h with
  | some q => exact (advance_of_some hc).2.1.le
  | none => exact (advance_of_none hc).2.1.le.trans (Nat.sub_le _ _)

/-- No entry that is still in play could serve as a pivot. -/
def Exhausted (tol : α) (s : State α n m) : Prop :=
  ∀ (i : Fin n) (j : Fin m), s.row ≤ i.val → s.row ≤ j.val → j.val < s.live →
    negligible tol (s.work i j) = true

theorem exhausted_of_not_active (h : ¬s.Active) : s.Exhausted tol := by
  intro i j hi hj hlive
  exact absurd ⟨hi.trans_lt i.isLt, hj.trans_lt hlive⟩ h

theorem not_exhausted_of_some {h : s.Active} {q : Fin n} (hc : s.candidate? tol h = some q) :
    ¬s.Exhausted tol := by
  intro hs
  obtain ⟨hq, hsig⟩ := candidate?_spec hc
  rw [significant_eq_not_negligible, hs q (s.pivotCol h) hq le_rfl h.2] at hsig
  exact absurd hsig (by decide)

/-- Discarding a column without a pivot loses none. -/
theorem exhausted_advance_iff {h : s.Active} (hc : s.candidate? tol h = none) :
    (s.advance tol h).Exhausted tol ↔ s.Exhausted tol := by
  obtain ⟨hrow, hlive, hwork⟩ := advance_of_none hc
  have hactive := h.2
  constructor
  · intro hs i j hi hj hjl
    by_cases hcol : j = s.pivotCol h
    · rw [hcol]
      exact negligible_of_candidate?_eq_none hc hi
    · have hne : j.val ≠ s.row := fun hf => hcol (Fin.ext hf)
      by_cases hlast : j = s.lastLive h
      · have hjv : j.val = s.live - 1 := congrArg Fin.val hlast
        have hmoved := hs i (s.pivotCol h) (hrow ▸ hi) hrow.le
          (show s.row < _ by rw [hlive]; omega)
        rwa [hwork, if_pos rfl, ← hlast] at hmoved
      · have hjv : j.val ≠ s.live - 1 := fun hf => hlast (Fin.ext hf)
        have hkept := hs i j (hrow ▸ hi) (hrow ▸ hj) (by rw [hlive]; omega)
        rwa [hwork, if_neg hcol] at hkept
  · intro hs i j hi hj hjl
    rw [hrow] at hi hj
    rw [hlive] at hjl
    rw [hwork]
    split_ifs
    · exact hs i (s.lastLive h) hi (Nat.le_pred_of_lt hactive) (Nat.sub_one_lt_of_lt hactive)
    · exact hs i j hi hj (by omega)

end State

theorem advanceN_of_active (fuel : ℕ) (h : s.Active) :
    advanceN tol (fuel + 1) s = advanceN tol fuel (s.advance tol h) := dif_pos h

theorem advanceN_of_not_active (fuel : ℕ) (h : ¬s.Active) : advanceN tol fuel s = s := by
  cases fuel with
  | zero => rfl
  | succ fuel => exact dif_neg h

/-- Steps left over when nothing is left to do change nothing. -/
theorem advanceN_eq_finish {fuel : ℕ} (hfuel : s.size ≤ fuel) :
    advanceN tol fuel s = finish tol s := by
  rw [finish]
  generalize hk : s.size = k
  have hkle : s.size ≤ k := hk.le
  clear hk
  induction fuel generalizing s k with
  | zero =>
    have hdone : ¬s.Active := by
      intro h
      have := h.2
      simp only [State.size] at hfuel
      omega
    rw [advanceN_of_not_active _ hdone, advanceN_of_not_active _ hdone]
  | succ fuel ih =>
    by_cases h : s.Active
    · have hsize := s.size_advance tol h
      obtain ⟨k, rfl⟩ : ∃ k', k = k' + 1 := ⟨k - 1, by omega⟩
      rw [advanceN_of_active _ h, advanceN_of_active _ h]
      exact ih (by omega) k (by omega)
    · rw [advanceN_of_not_active _ h, advanceN_of_not_active _ h]

theorem finish_of_active (h : s.Active) : finish tol s = finish tol (s.advance tol h) := by
  have hsize := s.size_advance tol h
  have hfuel : (s.advance tol h).size ≤ s.size - 1 := by omega
  calc finish tol s = advanceN tol (s.size - 1 + 1) s := by
        rw [Nat.sub_add_cancel (by omega), finish]
    _ = advanceN tol (s.size - 1) (s.advance tol h) := advanceN_of_active _ h
    _ = finish tol (s.advance tol h) := advanceN_eq_finish hfuel

theorem finish_of_not_active (h : ¬s.Active) : finish tol s = s := advanceN_of_not_active _ h

/-- Where a run has got to does not matter for where it ends. -/
theorem finish_advanceN (k : ℕ) : finish tol (advanceN tol k s) = finish tol s := by
  induction k generalizing s with
  | zero => rfl
  | succ k ih =>
    by_cases h : s.Active
    · rw [advanceN_of_active k h, ih, finish_of_active h]
    · rw [advanceN_of_not_active _ h]

theorem row_le_advanceN (k : ℕ) : s.row ≤ (advanceN tol k s).row :=
  advanceN_invariant (P := fun t => s.row ≤ t.row)
    (fun _ h ht => ht.trans (State.row_le_advance h)) k s le_rfl

theorem live_advanceN_le (k : ℕ) : (advanceN tol k s).live ≤ s.live :=
  advanceN_invariant (P := fun t => t.live ≤ s.live)
    (fun _ h ht => (State.live_advance_le h).trans ht) k s le_rfl

/-- No further pivot is found exactly when there is none. -/
theorem row_finish_eq_iff : (finish tol s).row = s.row ↔ s.Exhausted tol := by
  generalize hk : s.size = k
  induction k using Nat.strong_induction_on generalizing s with
  | _ k ih =>
    by_cases h : s.Active
    · have hsize := s.size_advance tol h
      have hmono : (s.advance tol h).row ≤ (finish tol (s.advance tol h)).row := row_le_advanceN _
      rw [finish_of_active h]
      cases hc : s.candidate? tol h with
      | some q =>
        have hnext := (State.advance_of_some hc).1
        exact iff_of_false (by omega) (State.not_exhausted_of_some hc)
      | none =>
        rw [← State.exhausted_advance_iff hc, ← (State.advance_of_none hc).1]
        exact ih _ (hk ▸ hsize) rfl
    · rw [finish_of_not_active h]
      exact iff_of_true rfl (State.exhausted_of_not_active h)

end LinearSystem.Rank
