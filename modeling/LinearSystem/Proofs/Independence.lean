import LinearSystem.Proofs.Exact
import LinearSystem.Proofs.Reduction.Span
import LinearSystem.Proofs.Solver
import LinearSystem.Proofs.Tolerance

namespace LinearSystem

variable {n m : ℕ} {A : DenseMatrix ℚ n m} {b : Vector ℚ n}

namespace DenseMatrix

/-- The columns listed in `cols` are independent, none of them listed twice. -/
def IndependentColumns (A : DenseMatrix ℚ n m) (cols : List (Fin m)) : Prop :=
  LinearIndependent ℚ fun k : Fin cols.length => A.column (cols.get k)

theorem IndependentColumns.length_le_rank {cols : List (Fin m)} (h : A.IndependentColumns cols) :
    cols.length ≤ A.toMatrix.rank := by
  have hcard := finrank_span_eq_card h
  rw [Fintype.card_fin] at hcard
  rw [rank_toMatrix, ← hcard]
  apply Submodule.finrank_mono
  apply Submodule.span_mono
  rintro v ⟨k, rfl⟩
  exact ⟨cols.get k, rfl⟩

/-- If the list misses no column, no two unknowns can be exchanged against each other. -/
theorem IndependentColumns.eq_of_solves {cols : List (Fin m)} (h : A.IndependentColumns cols)
    (hall : ∀ j, j ∈ cols) {y z : Fin m → ℚ} (hy : Solves A b y) (hz : Solves A b z) : y = z := by
  choose place hplace using fun j => List.get_of_mem (hall j)
  have hinj : Function.Injective place := fun i j hij => by rw [← hplace i, ← hplace j, hij]
  have hind : LinearIndependent ℚ A.column := by
    have hcomp := h.comp place hinj
    simpa only [Function.comp_def, hplace] using hcomp
  rw [solves_iff_sum_column] at hy hz
  have hdiff : ∑ j, (y j - z j) • A.column j = 0 := by
    simp only [sub_smul, Finset.sum_sub_distrib, hy, hz, sub_self]
  have hzero := Fintype.linearIndependent_iff.mp hind (fun j => y j - z j) hdiff
  exact funext fun j => sub_eq_zero.mp (hzero j)

end DenseMatrix

open DenseMatrix

theorem independentColumns_solutionAt {pivoting : PivotRule} {tol : ℚ} (htol : 0 ≤ tol)
    (A : DenseMatrix ℚ n m) (b : Vector ℚ n) :
    A.IndependentColumns (solutionAt pivoting tol A b).pivotColumns := by
  have hs : (reduce pivoting tol (A.augment b)).Settled tol m := reduce_settled htol _
  have hind := hs.linearIndependent_pivots (reduce_carries htol (A.augment b))
  simp only [column_augment_castSucc] at hind
  have hlen : (solutionAt pivoting tol A b).pivotColumns.length =
      (reduce pivoting tol (A.augment b)).pivots.length := List.length_map _
  have hcomp := hind.comp (Fin.cast hlen) (Fin.cast_injective hlen)
  have hcol : ∀ k, (solutionAt pivoting tol A b).pivotColumns.get k =
      ((reduce pivoting tol (A.augment b)).pivots.get (Fin.cast hlen k)).col := fun k =>
    List.getElem_map _
  unfold IndependentColumns
  simp only [hcol]
  exact hcomp

theorem Solution.mem_pivotColumns_of_isUnique {α : Type} {s : Solution α n m}
    (h : s.isUnique = true) (j : Fin m) : j ∈ s.pivotColumns := by
  by_contra hj
  have hfree : j ∈ s.freeVariables := by
    simpa [Solution.freeVariables] using hj
  rw [List.isEmpty_iff.mp h] at hfree
  exact absurd hfree List.not_mem_nil

/-- The pivot columns of a solution are independent columns of the matrix, whatever counted as
zero on the way; a solution reported as unique is the only one. -/
theorem solve_pivotColumns_independent {settings : Settings} {s : Solution ℚ n m}
    (h : solve settings A b.toList = .ok s) :
    A.IndependentColumns s.pivotColumns ∧ s.pivotColumns.length ≤ A.toMatrix.rank ∧
      (s.isUnique = true → ∀ y z, Solves A b y → Solves A b z → y = z) := by
  obtain ⟨tol, c, htol, -, hsolve⟩ := solve_eq_ok_iff.mp h
  obtain ⟨-, -, rfl⟩ := solveAt_eq_ok_iff.mp hsolve
  have hind : A.IndependentColumns (solutionAt settings.pivoting tol A c).pivotColumns :=
    independentColumns_solutionAt (toleranceFor_nonneg htol) A c
  refine ⟨hind, hind.length_le_rank, fun hunique y z hy hz => ?_⟩
  exact hind.eq_of_solves (Solution.mem_pivotColumns_of_isUnique hunique) hy hz

/-- A coarse tolerance leaves the small coefficient where it is; the two columns are independent
all the same. -/
theorem solve_pivotColumns_independent_coarse :
    let settings : Settings := ⟨some 0.5, .largestMagnitude, .symmetric⟩
    let A : DenseMatrix ℚ 2 2 := ⟨#v[#v[1 / 4, 1], #v[2, 1]]⟩
    let b : Vector ℚ 2 := #v[1, 3]
    ∃ s, solve settings A b.toList = .ok s ∧ s.isUnique = true ∧
      A.IndependentColumns s.pivotColumns ∧ s.pivotColumns.length ≤ A.toMatrix.rank ∧
      ∀ y z, Solves A b y → Solves A b z → y = z := by
  intro settings A b
  have htol : settings.toleranceFor ℚ = .ok (1 / 2) :=
    toleranceFor_of_valid (by decide) (by decide +kernel)
  have hrow : badZeroRow? .symmetric (1 / 2) A b = none := by decide +kernel
  have hrank : ¬rank (1 / 2) A < rank (1 / 2) (A.augment b) := by decide +kernel
  have hsolve : solve settings A b.toList = .ok (solutionAt .largestMagnitude (1 / 2) A b) :=
    solve_of_rank_not_lt htol (validate_rational (by decide) (by decide) A b) hrow hrank
  have hunique : (solutionAt .largestMagnitude (1 / 2) A b).isUnique = true := by decide +kernel
  obtain ⟨hind, hlen, hsingle⟩ := solve_pivotColumns_independent hsolve
  exact ⟨_, hsolve, hunique, hind, hlen, hsingle hunique⟩

end LinearSystem
