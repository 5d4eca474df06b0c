import LinearSystem.Proofs.Rational
import LinearSystem.Dense
import Mathlib.LinearAlgebra.Matrix.Rank

namespace LinearSystem

variable {n m : ℕ}

/-- `y` is a solution of `A y = b`. -/
def Solves (A : DenseMatrix ℚ n m) (b : Vector ℚ n) (y : Fin m → ℚ) : Prop :=
  ∀ i, ∑ j, A i j * y j = b.get i

/-- `y` satisfies every row of an augmented matrix, read as an equation. -/
def Satisfies (R : DenseMatrix ℚ n (m + 1)) (y : Fin m → ℚ) : Prop :=
  ∀ i, ∑ j : Fin m, R i j.castSucc * y j = R i (Fin.last m)

instance (A : DenseMatrix ℚ n m) (b : Vector ℚ n) : DecidablePred (Solves A b) :=
  fun y => inferInstanceAs (Decidable (∀ i, ∑ j, A i j * y j = b.get i))

instance (R : DenseMatrix ℚ n (m + 1)) : DecidablePred (Satisfies R) :=
  fun y => inferInstanceAs
    (Decidable (∀ i, ∑ j : Fin m, R i j.castSucc * y j = R i (Fin.last m)))

theorem satisfies_augment {A : DenseMatrix ℚ n m} {b : Vector ℚ n} {y : Fin m → ℚ} :
    Satisfies (A.augment b) y ↔ Solves A b y := by
  simp [Satisfies, Solves]

namespace DenseMatrix

def column (A : DenseMatrix ℚ n m) (j : Fin m) : Fin n → ℚ := fun i => A i j

@[simp] theorem column_apply (A : DenseMatrix ℚ n m) (i : Fin n) (j : Fin m) :
    A.column j i = A i j := rfl

def toMatrix (A : DenseMatrix ℚ n m) : Matrix (Fin n) (Fin m) ℚ := Matrix.of A.entry

/-- `r` is the largest number of linearly independent rows. -/
def IsRowRank (A : DenseMatrix ℚ n m) (r : ℕ) : Prop :=
  IsGreatest {k | ∃ rows : Fin k → Fin n, LinearIndependent ℚ fun i => A.toMatrix.row (rows i)} r

def columnSpan (A : DenseMatrix ℚ n m) : Submodule ℚ (Fin n → ℚ) :=
  Submodule.span ℚ (Set.range A.column)

/-- The vectors that every row of the matrix annihilates. -/
def nullSpace (A : DenseMatrix ℚ n m) : Submodule ℚ (Fin m → ℚ) :=
  LinearMap.ker A.toMatrix.mulVecLin

theorem rank_toMatrix (A : DenseMatrix ℚ n m) :
    A.toMatrix.rank = Module.finrank ℚ A.columnSpan :=
  A.toMatrix.rank_eq_finrank_span_cols

theorem isRowRank_rank (A : DenseMatrix ℚ n m) : A.IsRowRank A.toMatrix.rank := by
  rw [Matrix.rank_eq_finrank_span_row]
  constructor
  · obtain ⟨f, hmem, -, hind⟩ :=
      Submodule.exists_fun_fin_finrank_span_eq ℚ (Set.range A.toMatrix.row)
    choose rows hrows using hmem
    refine ⟨rows, ?_⟩
    simpa only [hrows] using hind
  · intro k hk
    obtain ⟨rows, hind⟩ := hk
    have hle : Submodule.span ℚ (Set.range fun i => A.toMatrix.row (rows i)) ≤
        Submodule.span ℚ (Set.range A.toMatrix.row) :=
      Submodule.span_mono (Set.range_comp_subset_range rows A.toMatrix.row)
    have hcard := finrank_span_eq_card hind
    rw [Fintype.card_fin] at hcard
    exact hcard ▸ Submodule.finrank_mono hle

theorem finrank_nullSpace (A : DenseMatrix ℚ n m) :
    A.toMatrix.rank + Module.finrank ℚ A.nullSpace = m := by
  have h := A.toMatrix.mulVecLin.finrank_range_add_finrank_ker
  rwa [Module.finrank_fin_fun] at h

end DenseMatrix

open DenseMatrix

/-- A combination of the columns of `A` gives `b` exactly when its coefficients solve `A y = b`. -/
theorem solves_iff_sum_column {A : DenseMatrix ℚ n m} {b : Vector ℚ n} {y : Fin m → ℚ} :
    Solves A b y ↔ ∑ j, y j • A.column j = b.get := by
  rw [funext_iff]
  simp [Solves, column, mul_comm]

theorem satisfies_iff_sum_column {R : DenseMatrix ℚ n (m + 1)} {y : Fin m → ℚ} :
    Satisfies R y ↔ ∑ j : Fin m, y j • R.column j.castSucc = R.column (Fin.last m) := by
  rw [funext_iff]
  simp [Satisfies, column, mul_comm]

theorem mem_columnSpan_iff {A : DenseMatrix ℚ n m} {b : Vector ℚ n} :
    b.get ∈ A.columnSpan ↔ ∃ y, Solves A b y := by
  simp only [solves_iff_sum_column]
  exact Submodule.mem_span_range_iff_exists_fun ℚ

@[simp] theorem column_augment_castSucc (A : DenseMatrix ℚ n m) (b : Vector ℚ n) (j : Fin m) :
    (A.augment b).column j.castSucc = A.column j :=
  funext fun i => augment_castSucc A b i j

@[simp] theorem column_augment_last (A : DenseMatrix ℚ n m) (b : Vector ℚ n) :
    (A.augment b).column (Fin.last m) = b.get :=
  funext fun i => augment_last A b i

theorem columnSpan_augment (A : DenseMatrix ℚ n m) (b : Vector ℚ n) :
    (A.augment b).columnSpan = A.columnSpan ⊔ Submodule.span ℚ {b.get} := by
  have hrange : Set.range (A.augment b).column = insert b.get (Set.range A.column) := by
    ext v
    simp [Fin.exists_fin_succ', or_comm, eq_comm]
  rw [columnSpan, hrange, Submodule.span_insert, sup_comm, columnSpan]

/-- The right-hand side adds nothing to the rank exactly when the system has a solution. -/
theorem solvable_iff_rank_augment_le {A : DenseMatrix ℚ n m} {b : Vector ℚ n} :
    (∃ y, Solves A b y) ↔ (A.augment b).toMatrix.rank ≤ A.toMatrix.rank := by
  rw [← mem_columnSpan_iff, rank_toMatrix, rank_toMatrix, columnSpan_augment]
  constructor
  · intro h
    rw [sup_eq_left.mpr ((Submodule.span_singleton_le_iff_mem _ _).mpr h)]
  · intro h
    have heq := Submodule.eq_of_le_of_finrank_le
      (le_sup_left : A.columnSpan ≤ A.columnSpan ⊔ Submodule.span ℚ {b.get}) h
    rw [← Submodule.span_singleton_le_iff_mem, ← sup_eq_left]
    exact heq.symm

theorem mem_nullSpace_iff {A : DenseMatrix ℚ n m} {z : Fin m → ℚ} :
    z ∈ A.nullSpace ↔ ∑ j, z j • A.column j = 0 := by
  rw [nullSpace, LinearMap.mem_ker, Matrix.mulVecLin_apply, funext_iff, funext_iff]
  simp [Matrix.mulVec, dotProduct, toMatrix, column, mul_comm]

/-- Two solutions differ by a null vector. -/
theorem solves_add_iff {A : DenseMatrix ℚ n m} {b : Vector ℚ n} {y z : Fin m → ℚ}
    (hy : Solves A b y) : Solves A b (y + z) ↔ z ∈ A.nullSpace := by
  rw [solves_iff_sum_column] at hy ⊢
  simp only [Pi.add_apply, add_smul, Finset.sum_add_distrib, hy, add_eq_left,
    mem_nullSpace_iff]

theorem existsUnique_solves_iff {A : DenseMatrix ℚ n m} {b : Vector ℚ n} :
    (∃! y, Solves A b y) ↔ (∃ y, Solves A b y) ∧ Module.finrank ℚ A.nullSpace = 0 := by
  rw [Submodule.finrank_eq_zero, Submodule.eq_bot_iff]
  constructor
  · intro h
    obtain ⟨y, hy, huniq⟩ := h
    refine ⟨⟨y, hy⟩, fun z hz => ?_⟩
    have hyz := huniq (y + z) ((solves_add_iff hy).mpr hz)
    exact add_eq_left.mp hyz
  · intro h
    obtain ⟨⟨y, hy⟩, hnull⟩ := h
    refine ⟨y, hy, fun z hz => ?_⟩
    have hdiff : z - y ∈ A.nullSpace := by
      rw [← solves_add_iff hy, add_sub_cancel]
      exact hz
    exact sub_eq_zero.mp (hnull _ hdiff)

end LinearSystem
