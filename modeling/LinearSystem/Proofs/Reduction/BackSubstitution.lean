import LinearSystem.Proofs.Reduction.Leading
import LinearSystem.Proofs.Reduction.Settled
import LinearSystem.Proofs.Reduction.Solutions

namespace LinearSystem

open Scalar

variable {n m : ℕ} {tol : ℚ}

private theorem foldl_sub_eq (f : Fin m → ℚ) (l : List (Fin m)) (v : ℚ) :
    l.foldl (fun v j => v - f j) v = v - (l.map f).sum := by
  induction l generalizing v with
  | nil => simp
  | cons j l ih => rw [List.foldl_cons, ih, List.map_cons, List.sum_cons, sub_sub]

private theorem sum_map_filter_finRange (f : Fin m → ℚ) (c : Fin m) :
    (((List.finRange m).filter (c < ·)).map f).sum = ∑ k with c < k, f k := by
  have hite := List.sum_map_ite (c < ·) f (fun _ => 0) (List.finRange m)
  rw [Finset.sum_filter, Fin.sum_univ_def, hite]
  simp

/-- A row with a leading column sets that unknown and leaves the others alone. -/
theorem solveRow_of_some {A : DenseMatrix ℚ n (m + 1)} {i : Fin n} {c : Fin m} {x : Vector ℚ m}
    (h : leadingColumn? tol A i = some c) (j : Fin m) :
    (solveRow tol A i x).get j =
      if j = c then A i (Fin.last m) - ∑ k with c < k, A i k.castSucc * x.get k else x.get j := by
  have hset : solveRow tol A i x = x.set c.val (((List.finRange m).filter (c < ·)).foldl
      (fun v k => v - A i k.castSucc * x.get k) (A i (Fin.last m))) c.isLt := by
    simp only [solveRow, h]
  have hget : ∀ v : Vector ℚ m, v.get j = v[j.val] := fun _ => rfl
  rw [hset, hget, hget, Vector.getElem_set, foldl_sub_eq fun k => A i k.castSucc * x.get k,
    sum_map_filter_finRange]
  simp only [Fin.ext_iff, eq_comm]

namespace Reduction

variable {s : Reduction ℚ n m}

/-- In a pivot row the pivot leads: what stands before it is negligible, and one is not. -/
theorem Settled.leadingColumn_pivot (hs : s.Settled tol m) (htol : tol < 1) {p : Pivot n m}
    (hp : p ∈ s.pivots) : leadingColumn? tol s.entries p.row = some p.col := by
  rw [leadingColumn?_eq_some_iff]
  refine ⟨?_, fun j hj => Rational.negligible_iff.mpr (hs.left p hp j hj)⟩
  rw [Rational.significant_iff, hs.unit p hp, if_pos rfl, abs_one]
  exact htol

theorem Settled.leadingColumn_unused (hs : s.Settled tol m) {i : Fin n} (hi : s.used i = false) :
    leadingColumn? tol s.entries i = none := by
  rw [leadingColumn?, List.find?_eq_none]
  intro j _
  rw [Rational.significant_iff, not_lt]
  exact hs.unused i hi j j.isLt

/-- The unknowns after some of the rows were read: those whose pivot row was among them have
their values, all others are still zero. -/
def ReadOff (s : Reduction ℚ n m) (rows : List (Fin n)) (x : Vector ℚ m) : Prop :=
  (∀ p ∈ s.pivots, p.row ∈ rows → x.get p.col = s.entries p.row (Fin.last m)) ∧
    ∀ j, (∀ p ∈ s.pivots, p.row ∈ rows → p.col ≠ j) → x.get j = 0

/-- All other terms of a pivot row are zero: pivot columns are cleared, free unknowns not set. -/
theorem Settled.readOff_solveRow (hs : s.Settled tol m) (htol : tol < 1) {rows : List (Fin n)}
    {x : Vector ℚ m} (hx : s.ReadOff rows x) (i : Fin n) :
    s.ReadOff (i :: rows) (solveRow tol s.entries i x) := by
  by_cases hi : s.used i = false
  · have hnot := used_eq_false_iff.mp hi
    rw [solveRow_of_none (hs.leadingColumn_unused hi)]
    refine ⟨fun q hq hrow => ?_, fun j hj => ?_⟩
    · exact hx.1 q hq ((List.mem_cons.mp hrow).resolve_left (hnot q hq))
    · exact hx.2 j fun q hq hrow => hj q hq (List.mem_cons_of_mem i hrow)
  · obtain ⟨p, hp, rfl⟩ := exists_pivot_of_used hi
    have hsolve := solveRow_of_some (x := x) (hs.leadingColumn_pivot htol hp)
    have hzero : ∑ k with p.col < k, s.entries p.row k.castSucc * x.get k = 0 := by
      apply Finset.sum_eq_zero
      intro k hk
      have hlt := (Finset.mem_filter.mp hk).2
      by_cases hfree : s.Free k
      · rw [hx.2 k fun q hq _ => hfree q hq, mul_zero]
      · obtain ⟨q, hq, rfl⟩ := not_free_iff.mp hfree
        rw [hs.pivot_row_apply hp hq hlt.ne', zero_mul]
    rw [hzero, sub_zero] at hsolve
    refine ⟨fun q hq hrow => ?_, fun j hj => ?_⟩
    · rw [hsolve]
      split_ifs with hcol
      · rw [hs.eq_of_col_eq hq hp hcol]
      · have hne : q.row ≠ p.row := fun hf => hcol (hs.eq_of_row_eq hq hp hf ▸ rfl)
        exact hx.1 q hq ((List.mem_cons.mp hrow).resolve_left hne)
    · rw [hsolve, if_neg (Ne.symm (hj p hp List.mem_cons_self))]
      exact hx.2 j fun q hq hrow => hj q hq (List.mem_cons_of_mem _ hrow)

/-- Back-substitution gives each pivot unknown the right-hand side of its own row and leaves
every free unknown zero. -/
theorem Settled.readOff_backSubstitute (hs : s.Settled tol m) (htol : tol < 1) :
    s.ReadOff (List.finRange n) (backSubstitute tol s.entries) := by
  refine backSubstitute_invariant (fun i rows x hx => hs.readOff_solveRow htol hx i) ?_
  exact ⟨fun q _ hrow => absurd hrow List.not_mem_nil,
    fun j _ => Vector.getElem_replicate j.isLt⟩

theorem Settled.backSubstitute_pivot (hs : s.Settled tol m) (htol : tol < 1) {p : Pivot n m}
    (hp : p ∈ s.pivots) :
    (backSubstitute tol s.entries).get p.col = s.entries p.row (Fin.last m) :=
  (hs.readOff_backSubstitute htol).1 p hp (List.mem_finRange _)

theorem Settled.backSubstitute_free (hs : s.Settled tol m) (htol : tol < 1) {j : Fin m}
    (hj : s.Free j) : (backSubstitute tol s.entries).get j = 0 :=
  (hs.readOff_backSubstitute htol).2 j fun p hp _ => hj p hp

end Reduction

end LinearSystem
