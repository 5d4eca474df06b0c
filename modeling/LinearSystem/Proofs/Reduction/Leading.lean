import LinearSystem.Proofs.Reduction.Pivots

namespace LinearSystem

open Scalar

variable {α : Type} [Scalar α] {n m : Nat} {tol : α} {A : DenseMatrix α n (m + 1)}

theorem leadingColumn?_eq_some_iff {i : Fin n} {c : Fin m} :
    leadingColumn? tol A i = some c ↔
      significant tol (A i c.castSucc) = true ∧
        ∀ j < c, negligible tol (A i j.castSucc) = true := by
  rw [leadingColumn?, List.find?_eq_some_iff_getElem]
  refine and_congr_right fun _ => ⟨?_, fun hleft => ⟨c, by simp, by simp, fun k hk => ?_⟩⟩
  · rintro ⟨k, hk, rfl, hleft⟩ j hj
    have hj' : j.val < k := by simpa [Fin.lt_def] using hj
    simpa [significant] using hleft j.val hj'
  · rw [List.getElem_finRange, significant, Bool.not_not]
    exact hleft _ hk

theorem solveRow_of_none {i : Fin n} {x : Vector α m} (h : leadingColumn? tol A i = none) :
    solveRow tol A i x = x := by
  simp only [solveRow, h]

/-- A row changes no unknown but its leading one. -/
theorem solveRow_get_of_not_leading {i : Fin n} {j : Fin m} (h : leadingColumn? tol A i ≠ some j)
    (x : Vector α m) : (solveRow tol A i x).get j = x.get j := by
  cases hlead : leadingColumn? tol A i with
  | none => rw [solveRow_of_none hlead]
  | some c =>
    have hne : c.val ≠ j.val := fun hval => h (hlead.trans (congrArg some (Fin.ext hval)))
    simp only [solveRow, hlead]
    exact Vector.getElem_set_ne c.isLt j.isLt hne

/-- What each row keeps, as the rows are read from the last one up, holds of the answer. -/
theorem backSubstitute_invariant {P : List (Fin n) → Vector α m → Prop}
    (hrow : ∀ i rows x, P rows x → P (i :: rows) (solveRow tol A i x))
    (hstart : P [] (Vector.replicate m 0)) : P (List.finRange n) (backSubstitute tol A) := by
  have hrun : ∀ rows : List (Fin n),
      P rows (rows.foldr (solveRow tol A) (Vector.replicate m 0)) := by
    intro rows
    induction rows with
    | nil => exact hstart
    | cons i rows ih => exact hrow i rows _ ih
  exact hrun (List.finRange n)

/-- An unknown that leads no row keeps the zero it starts with. -/
theorem backSubstitute_get_of_not_leading {j : Fin m}
    (h : ∀ i, leadingColumn? tol A i ≠ some j) : (backSubstitute tol A).get j = 0 := by
  refine backSubstitute_invariant (P := fun _ x => x.get j = 0) (fun i rows x hx => ?_)
    (Vector.getElem_replicate j.isLt)
  rw [solveRow_get_of_not_leading (h i), hx]

end LinearSystem
