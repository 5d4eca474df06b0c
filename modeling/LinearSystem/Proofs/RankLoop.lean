import LinearSystem.Proofs.InPlace
import LinearSystem.Scalar.Floating
import Mathlib.Data.Nat.PSub

namespace LinearSystem

open Scalar

namespace Rank

/-- Elimination in place, with nothing known about its counters. -/
structure Loop (α : Type) (n m : ℕ) where
  work : DenseMatrix α n m
  row : ℕ
  live : ℕ
  /-- The pivot steps so far. -/
  pivots : ℕ
  /-- The columns discarded so far. -/
  discards : ℕ

variable {α : Type} [Scalar α] {n m : ℕ} {tol : α}

namespace Loop

def start (A : DenseMatrix α n m) : Loop α n m := ⟨A, 0, m, 0, 0⟩

/-- The first row below the current one with a significant entry in the pivot column. -/
def pivotBelow? (tol : α) (l : Loop α n m) : Option (Option ℕ) :=
  (List.range' (l.row + 1) (n - (l.row + 1))).findM? fun i => do
    return significant tol (← l.work.read? i l.row)

def pivotStep? (l : Loop α n m) (work : DenseMatrix α n m) : Option (Loop α n m) := do
  let work ← work.clearBelow? l.row l.live
  return { l with work, row := l.row + 1, pivots := l.pivots + 1 }

def discardStep? (l : Loop α n m) : Option (Loop α n m) := do
  let live ← l.live.ppred
  let work ← l.work.dropColumn? l.row live
  return { l with work, live, discards := l.discards + 1 }

def body? (tol : α) (l : Loop α n m) : Option (Loop α n m) := do
  if negligible tol (← l.work.read? l.row l.row) then
    match ← l.pivotBelow? tol with
    | some i => l.pivotStep? (← l.work.swapRows? l.row i)
    | none => l.discardStep?
  else l.pivotStep? l.work

/-- Run the loop to its end; it fails if an access does or if it takes more than `fuel` rounds. -/
def run? (tol : α) : ℕ → Loop α n m → Option (Loop α n m)
  | 0, l => if l.row < n ∧ l.row < l.live then none else some l
  | fuel + 1, l =>
    if l.row < n ∧ l.row < l.live then (l.body? tol).bind (run? tol fuel) else some l

def ofState (s : State α n m) : Loop α n m := ⟨s.work, s.row, s.live, s.row, m - s.live⟩

end Loop

namespace State

variable {s : State α n m}

/-- Can a row, given by its index, serve as the pivot row? -/
def usable (tol : α) (s : State α n m) (h : s.Active) (i : ℕ) : Bool :=
  if hi : i < n then decide (s.row ≤ i) && significant tol (s.work ⟨i, hi⟩ (s.pivotCol h))
  else false

theorem usable_of_lt {h : s.Active} {i : ℕ} (hi : i < s.row) : s.usable tol h i = false := by
  simp [usable, hi.not_ge]

theorem usable_of_le {h : s.Active} {i : Fin n} (hi : s.row ≤ i.val) :
    s.usable tol h i = significant tol (s.work i (s.pivotCol h)) := by
  simp [usable, hi]

theorem candidate?_map_val (h : s.Active) :
    (s.candidate? tol h).map Fin.val = (List.range n).find? (s.usable tol h) := by
  have htest : s.usable tol h ∘ Fin.val = fun i : Fin n =>
      decide (s.row ≤ i.val) && significant tol (s.work i (s.pivotCol h)) := by
    funext i
    simp [usable]
  rw [← List.map_coe_finRange_eq_range, List.find?_map, htest]
  rfl

/-- The current row is tried first, then the rows below it; those above cannot be used. -/
theorem candidate?_map_val_eq (h : s.Active) :
    (s.candidate? tol h).map Fin.val =
      if significant tol (s.work (s.pivotRow h) (s.pivotCol h)) = true then some s.row
      else (List.range' (s.row + 1) (n - (s.row + 1))).find? (s.usable tol h) := by
  have hn := h.1
  have hsplit : List.range n =
      List.range' 0 s.row ++ s.row :: List.range' (s.row + 1) (n - (s.row + 1)) := by
    have hjoin := List.range'_append_1 (s := 0) (m := s.row) (n := n - (s.row + 1) + 1)
    have hall : s.row + (n - (s.row + 1) + 1) = n := by omega
    rw [Nat.zero_add, hall] at hjoin
    rw [List.range_eq_range', ← hjoin, List.range'_succ]
  have habove : (List.range' 0 s.row).find? (s.usable tol h) = none := by
    refine List.find?_eq_none.mpr fun i hi => ?_
    rw [usable_of_lt (by simpa using hi)]
    exact Bool.false_ne_true
  have hrow : s.usable tol h s.row = significant tol (s.work (s.pivotRow h) (s.pivotCol h)) :=
    usable_of_le (i := s.pivotRow h) le_rfl
  rw [candidate?_map_val, hsplit, List.find?_append, habove, Option.none_or, List.find?_cons, hrow]
  cases significant tol (s.work (s.pivotRow h) (s.pivotCol h)) <;> rfl

theorem candidate?_of_significant {h : s.Active}
    (hsig : significant tol (s.work (s.pivotRow h) (s.pivotCol h)) = true) :
    s.candidate? tol h = some (s.pivotRow h) := by
  have hval : (s.candidate? tol h).map Fin.val = some s.row := by
    rw [candidate?_map_val_eq, if_pos hsig]
  obtain ⟨q, hq, hrow⟩ := Option.map_eq_some_iff.mp hval
  rw [hq]
  exact congrArg some (Fin.ext hrow)

/-- The row moves on or a column is lost, so fewer live columns lie from the pivot column on. -/
theorem live_sub_row_advance_lt (tol : α) (h : s.Active) :
    (s.advance tol h).live - (s.advance tol h).row < s.live - s.row := by
  have hlt := h.2
  cases hc : s.candidate? tol h with
  | some q =>
    obtain ⟨hrow, hlive, -⟩ := advance_of_some hc
    omega
  | none =>
    obtain ⟨hrow, hlive, -⟩ := advance_of_none hc
    omega

end State

namespace Loop

variable {s : State α n m}

theorem pivotBelow?_ofState (h : s.Active) :
    (ofState s).pivotBelow? tol =
      some ((List.range' (s.row + 1) (n - (s.row + 1))).find? (s.usable tol h)) := by
  refine findM?_eq_some fun i hi => ?_
  have hrange := List.mem_range'_1.mp hi
  have hrow : (ofState s).row = s.row := rfl
  have hin : i < n := by omega
  lift i to Fin n using hin
  have hread : (ofState s).work.read? i (ofState s).row = some (s.work i (s.pivotCol h)) :=
    s.work.read?_val i (s.pivotCol h)
  rw [hread, State.usable_of_le (by omega)]
  rfl

theorem pivotStep?_ofState {h : s.Active} {q : Fin n} (hc : s.candidate? tol h = some q) :
    (ofState s).pivotStep? (s.work.swapRows (s.pivotRow h) q) =
      some (ofState (s.advance tol h)) := by
  obtain ⟨hrow, hlive, hwork⟩ := State.advance_of_some hc
  have hclear : (s.work.swapRows (s.pivotRow h) q).clearBelow? s.row s.live =
      some (s.advance tol h).work := by
    rw [hwork]
    exact DenseMatrix.clearBelow?_eq _ (p := s.pivotRow h) (c := s.pivotCol h) rfl h.2 s.live_le
  rw [pivotStep?, ofState, ofState, hclear, hrow, hlive]
  rfl

theorem discardStep?_ofState {h : s.Active} (hc : s.candidate? tol h = none) :
    (ofState s).discardStep? = some (ofState (s.advance tol h)) := by
  obtain ⟨hrow, hlive, hwork⟩ := State.advance_of_none hc
  have hpos := h.2
  have hle := s.live_le
  have hpred : s.live.ppred = some (s.live - 1) := Nat.ppred_eq_pred (by omega)
  have hdrop : s.work.dropColumn? s.row (s.live - 1) = some (s.advance tol h).work := by
    have hcolumn : s.pivotCol h ≤ s.lastLive h := Nat.le_pred_of_lt hpos
    refine (s.work.dropColumn?_eq hcolumn).trans (congrArg some (DenseMatrix.ext fun i j => ?_))
    rw [State.overwriteColumn, DenseMatrix.ofFn_apply, hwork]
  have hdiscards : m - s.live + 1 = m - (s.live - 1) := by omega
  rw [discardStep?, ofState, ofState, hrow, hlive]
  simp only [hpred, Option.bind_eq_bind, Option.bind_some, hdrop, hdiscards]
  rfl

/-- One round of the loop is one step of the elimination: nothing in it fails. -/
theorem body?_ofState (h : s.Active) :
    (ofState s).body? tol = some (ofState (s.advance tol h)) := by
  have hread : (ofState s).work.read? (ofState s).row (ofState s).row =
      some (s.work (s.pivotRow h) (s.pivotCol h)) :=
    s.work.read?_val (s.pivotRow h) (s.pivotCol h)
  rw [body?, hread, Option.bind_eq_bind, Option.bind_some]
  by_cases hneg : negligible tol (s.work (s.pivotRow h) (s.pivotCol h)) = true
  · have hbelow : (ofState s).pivotBelow? tol = some ((s.candidate? tol h).map Fin.val) := by
      rw [pivotBelow?_ofState h, State.candidate?_map_val_eq, significant_eq_not_negligible, hneg,
        if_neg (by decide)]
    rw [if_pos hneg, hbelow, Option.bind_eq_bind, Option.bind_some]
    cases hc : s.candidate? tol h with
    | none => exact discardStep?_ofState hc
    | some q =>
      have hswap : (ofState s).work.swapRows? (ofState s).row q =
          some (s.work.swapRows (s.pivotRow h) q) := s.work.swapRows?_eq (s.pivotRow h) q
      rw [← pivotStep?_ofState hc, Option.map_some]
      simp only [hswap, Option.bind_eq_bind, Option.bind_some]
  · have hsig : significant tol (s.work (s.pivotRow h) (s.pivotCol h)) = true := by
      simpa [significant] using hneg
    rw [if_neg hneg, ← pivotStep?_ofState (State.candidate?_of_significant hsig),
      State.swapRows_self]
    rfl

theorem run?_ofState {fuel : ℕ} (hfuel : s.live - s.row ≤ fuel) :
    (ofState s).run? tol fuel = some (ofState (finish tol s)) := by
  induction fuel generalizing s with
  | zero =>
    have hdone : ¬s.Active := fun h => by
      have hlt := h.2
      omega
    rw [finish_of_not_active hdone]
    exact if_neg hdone
  | succ fuel ih =>
    by_cases h : s.Active
    · have hless := State.live_sub_row_advance_lt tol h
      have hnext : (s.advance tol h).live - (s.advance tol h).row ≤ fuel := by omega
      rw [finish_of_active h, ← ih hnext]
      exact (if_pos h).trans (by rw [body?_ofState h, Option.bind_some])
    · rw [finish_of_not_active h]
      exact if_neg h

end Loop

end Rank

/-- Run over plain indices, with every access and every subtraction checked, the elimination comes
to its end after one round at most for each column, whatever the entries and the tolerance are. It
ends with the rank, which is the number of its pivot steps. -/
theorem rank_runs_in_place {α : Type} [Scalar α] {n m : ℕ} (tol : α) (A : DenseMatrix α n m) :
    ∃ l, (Rank.Loop.start A).run? tol m = some l ∧ l.row = rank tol A ∧ l.pivots = rank tol A ∧
      l.pivots + l.discards ≤ m ∧ rank tol A ≤ min n m := by
  have hstart : Rank.Loop.start A = Rank.Loop.ofState (Rank.start A) := by
    simp only [Rank.Loop.start, Rank.Loop.ofState, Rank.start, Nat.sub_self]
  refine ⟨Rank.Loop.ofState (Rank.finish tol (Rank.start A)), ?_, rfl, rfl, ?_, ?_⟩
  · rw [hstart]
    exact Rank.Loop.run?_ofState (Nat.sub_le _ _)
  · have hrow := (Rank.finish tol (Rank.start A)).row_le_live
    have hlive := (Rank.finish tol (Rank.start A)).live_le
    simp only [Rank.Loop.ofState]
    omega
  · exact le_min (rank_le_rows tol A) (rank_le_columns tol A)

/-- The last column takes the place of the first one and has the pivot, an infinity; the second
column is then the last live one itself when it is dropped. -/
example :
    let A : DenseMatrix Float 2 3 := ⟨#v[#v[0, 0, 1 / 0], #v[0, 0, 1]]⟩
    ((Rank.Loop.start A).run? 1e-10 3).map (fun l => (l.pivots, l.discards)) = some (1, 2) := by
  decide +kernel

end LinearSystem
