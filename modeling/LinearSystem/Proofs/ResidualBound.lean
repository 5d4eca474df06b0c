import LinearSystem.Proofs.Exact
import LinearSystem.Proofs.Floating.NonFinite
import LinearSystem.Proofs.Residual

namespace LinearSystem

open Scalar

namespace Floating

theorem le_self {x : Float} (hx : x.isNaN = false) : x ≤ x :=
  or_self_iff.mp (double.le_or_le hx hx)

theorem larger_eq (x y : Float) :
    larger x y = if x ≤ y then y else if x ≤ x then x else y := by
  simp only [larger, atMost, decide_eq_true_eq]

/-- The larger of a number and anything else is a number, one of the two, and at least as large as
both as far as both are numbers. -/
theorem larger_bounds {x : Float} (hx : x.isNaN = false) (y : Float) :
    (larger x y).isNaN = false ∧ x ≤ larger x y ∧ (y.isNaN = true ∨ y ≤ larger x y) ∧
      (larger x y = x ∨ larger x y = y) := by
  rw [larger_eq]
  by_cases h : x ≤ y
  · have hy : y.isNaN = false := (double.isNaN_eq_false_of_le h).2
    rw [if_pos h]
    exact ⟨hy, h, .inr (le_self hy), .inr rfl⟩
  · rw [if_neg h, if_pos (le_self hx)]
    refine ⟨hx, le_self hx, ?_, .inl rfl⟩
    by_cases hy : y.isNaN = true
    · exact .inl hy
    · exact .inr ((double.le_or_le hx (Bool.not_eq_true _ ▸ hy)).resolve_left h)

theorem foldl_larger_bounds {x : Float} (hx : x.isNaN = false) (l : List Float) :
    (l.foldl larger x).isNaN = false ∧ x ≤ l.foldl larger x ∧
      (∀ d ∈ l, d.isNaN = true ∨ d ≤ l.foldl larger x) ∧
      (l.foldl larger x = x ∨ l.foldl larger x ∈ l) := by
  induction l generalizing x with
  | nil => exact ⟨hx, le_self hx, by simp, .inl rfl⟩
  | cons d l ih =>
    obtain ⟨hnan, hle, hd, hone⟩ := larger_bounds hx d
    obtain ⟨hnan', hle', hbound, hmem⟩ := ih hnan
    refine ⟨hnan', double.le_trans hle hle', ?_, ?_⟩
    · refine List.forall_mem_cons.mpr ⟨hd.imp_right fun h => double.le_trans h hle', hbound⟩
    · cases hmem with
      | inl heq => exact hone.imp heq.trans fun h => List.mem_cons.mpr (.inl (heq.trans h))
      | inr hl => exact .inr (List.mem_cons_of_mem d hl)

/-- A sum with a term that is not finite is not finite, wherever the term stands. -/
theorem foldl_add_isFinite {l : List Float} {x : Float}
    (h : x.isFinite = false ∨ ∃ t ∈ l, t.isFinite = false) :
    (l.foldl (· + ·) x).isFinite = false := by
  induction l generalizing x with
  | nil => simpa using h
  | cons t l ih =>
    apply ih
    obtain hx | ⟨u, hu, hfin⟩ := h
    · exact .inl (add_isFinite_left hx)
    · cases List.mem_cons.mp hu with
      | inl heq => exact .inl (add_isFinite_right (heq ▸ hfin))
      | inr hl => exact .inr ⟨u, hl, hfin⟩

end Floating

section Deviation

variable {n m : ℕ} {A : DenseMatrix Float n m} {x : Vector Float m} {b : Vector Float n}

theorem dot_isFinite {v x : Vector Float m} {j : Fin m} (h : (x.get j).isFinite = false) :
    (dot v.toList x.toList).isFinite = false := by
  have hdot : dot v.toList x.toList =
      ((List.finRange m).map fun k => v.get k * x.get k).foldl (· + ·) 0 := by
    rw [toList_eq_map_get, toList_eq_map_get, dot, List.zip_map', List.foldl_map, List.foldl_map]
  rw [hdot]
  refine Floating.foldl_add_isFinite (.inr ⟨v.get j * x.get j, ?_, ?_⟩)
  · exact List.mem_map.mpr ⟨j, List.mem_finRange j, rfl⟩
  · exact Floating.mul_isFinite_right h

/-- An unknown that is not finite leaves no equation with a finite deviation. -/
theorem deviation_of_not_finite {j : Fin m} (h : (x.get j).isFinite = false) (i : Fin n) :
    (deviation A x b i).isNaN = true ∨
      (deviation A x b i).toModel.unpack = .infinity .positive := by
  have hdot : (dot (A.row i).toList x.toList).isFinite = false := dot_isFinite h
  exact Floating.abs_of_isFinite_eq_false (Floating.sub_isFinite_left hdot)

theorem residual_eq_foldl (A : DenseMatrix Float n m) (x : Vector Float m) (b : Vector Float n) :
    residual A.toLists x.toList b.toList =
      ((List.finRange n).map (deviation A x b)).foldl larger 0 := by
  rw [residual, deviations_eq_map]

theorem residual_bounds (A : DenseMatrix Float n m) (x : Vector Float m) (b : Vector Float n) :
    (residual A.toLists x.toList b.toList).isNaN = false ∧
      (∀ i, (deviation A x b i).isNaN = true ∨
        deviation A x b i ≤ residual A.toLists x.toList b.toList) ∧
      (residual A.toLists x.toList b.toList = 0 ∨
        ∃ i, residual A.toLists x.toList b.toList = deviation A x b i) := by
  have hzero : (0 : Float).isNaN = false := by decide
  obtain ⟨hnan, -, hbound, hmem⟩ :=
    Floating.foldl_larger_bounds hzero ((List.finRange n).map (deviation A x b))
  rw [← residual_eq_foldl] at hnan hbound hmem
  refine ⟨hnan, fun i => hbound _ (List.mem_map.mpr ⟨i, List.mem_finRange i, rfl⟩), ?_⟩
  refine hmem.imp_right fun hmap => ?_
  obtain ⟨i, -, hi⟩ := List.mem_map.mp hmap
  exact ⟨i, hi.symm⟩

/-- Beside an unknown that is not finite, the residual is finite only because every deviation is a
NaN. -/
theorem residual_eq_zero_of_not_finite {j : Fin m} (hx : (x.get j).isFinite = false)
    (hfinite : (residual A.toLists x.toList b.toList).isFinite = true) :
    residual A.toLists x.toList b.toList = 0 ∧ ∀ i, (deviation A x b i).isNaN = true := by
  obtain ⟨hnan, hbound, hone⟩ := residual_bounds A x b
  have hall : ∀ i, (deviation A x b i).isNaN = true := by
    intro i
    cases hbound i with
    | inl hi => exact hi
    | inr hle =>
      refine (deviation_of_not_finite hx i).resolve_right fun hinf => ?_
      have hinfinite := Floating.isFinite_eq_false_of_infinity_le hinf hle
      exact absurd (hfinite.symm.trans hinfinite) (by decide)
  refine ⟨hone.resolve_right ?_, hall⟩
  rintro ⟨i, hi⟩
  exact absurd ((hi ▸ hall i).symm.trans hnan) (by decide)

end Deviation

variable {n m : ℕ} {settings : Settings} {A : DenseMatrix Float n m} {b : Vector Float n}
  {s : Solution Float n m}

/-- The residual of an answer is a number, zero or the deviation of some equation, and bounds every
deviation that is a number. A NaN is passed over: beside an unknown that is not finite, a finite
residual is a zero that stands for deviations which are all NaN. -/
theorem solve_residual_bounds_numbers (h : solve settings A b.toList = .ok s) :
    s.residual.isNaN = false ∧
      (∀ i, (deviation A s.x b i).isNaN = true ∨ deviation A s.x b i ≤ s.residual) ∧
      (s.residual = 0 ∨ ∃ i, s.residual = deviation A s.x b i) ∧
      ((∃ j, (s.x.get j).isFinite = false) → s.residual.isFinite = true →
        s.residual = 0 ∧ ∀ i, (deviation A s.x b i).isNaN = true) := by
  obtain ⟨tol, c, -, hvalid, hsolve⟩ := solve_eq_ok_iff.mp h
  obtain rfl := eq_of_validate_ok hvalid
  obtain ⟨-, -, rfl⟩ := solveAt_eq_ok_iff.mp hsolve
  obtain ⟨hnan, hbound, hone⟩ := residual_bounds A (solutionAt settings.pivoting tol A c).x c
  refine ⟨hnan, hbound, hone, fun hx hfinite => ?_⟩
  obtain ⟨j, hj⟩ := hx
  exact residual_eq_zero_of_not_finite hj hfinite

/-- The two equations contradict each other by less than the tolerance notices; the larger of the
two deviations is reported. -/
theorem solve_residual_bounds_numbers_redundant :
    let A : DenseMatrix Float 2 1 := ⟨#v[#v[1], #v[1]]⟩
    let b : Vector Float 2 := #v[1, 1 + 1e-11]
    ∃ s, solve .default A b.toList = .ok s ∧ 0 < s.residual ∧
      (∀ i, (deviation A s.x b i).isNaN = true ∨ deviation A s.x b i ≤ s.residual) ∧
      ∃ i, s.residual = deviation A s.x b i := by
  intro A b
  have hvalid : validate A b.toList = .ok b :=
    validate_of_finite (by decide) (by decide) (by decide +kernel) (by decide +kernel)
  have hrow : badZeroRow? .positiveRhs 1e-10 A b = none := by decide +kernel
  have hrank : ¬rank 1e-10 A < rank 1e-10 (A.augment b) := by decide +kernel
  have hsolve : solve .default A b.toList = .ok (solutionAt .firstNonZero 1e-10 A b) :=
    solve_of_rank_not_lt rfl hvalid hrow hrank
  have hpos : 0 < (solutionAt .firstNonZero 1e-10 A b).residual := by decide +kernel
  have hzero : (solutionAt .firstNonZero 1e-10 A b).residual ≠ 0 := by decide +kernel
  obtain ⟨-, hbound, hone, -⟩ := solve_residual_bounds_numbers hsolve
  exact ⟨_, hsolve, hpos, hbound, hone.resolve_left hzero⟩

/-- Dividing by the pivot `1e-9` overflows, the answer is a NaN, and so is the only deviation; the
residual is reported as zero. -/
theorem solve_residual_hides_nan :
    let A : DenseMatrix Float 1 2 := ⟨#v[#v[1e-9, 1e308]]⟩
    let b : Vector Float 1 := #v[1]
    ∃ s, solve .default A b.toList = .ok s ∧ s.residual = 0 ∧ s.residual.isFinite = true ∧
      (s.x.get 0).isNaN = true ∧ (deviation A s.x b 0).isNaN = true ∧
      ¬deviation A s.x b 0 ≤ s.residual := by
  intro A b
  have hvalid : validate A b.toList = .ok b :=
    validate_of_finite (by decide) (by decide) (by decide +kernel) (by decide +kernel)
  have hrow : badZeroRow? .positiveRhs 1e-10 A b = none := by decide +kernel
  have hrank : ¬rank 1e-10 A < rank 1e-10 (A.augment b) := by decide +kernel
  refine ⟨solutionAt .firstNonZero 1e-10 A b, solve_of_rank_not_lt rfl hvalid hrow hrank,
    ?_, ?_, ?_, ?_, ?_⟩
  all_goals decide +kernel

end LinearSystem
