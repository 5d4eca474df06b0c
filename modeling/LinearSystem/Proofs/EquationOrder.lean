import LinearSystem.Proofs.Agreement
import LinearSystem.Proofs.Completeness
import LinearSystem.Proofs.Reduction.Uniqueness
import LinearSystem.Proofs.SolutionSet

namespace LinearSystem

section Reorder

variable {α : Type} {n m : ℕ}

/-- The matrix whose row `i` is row `σ i` of the given one. -/
def DenseMatrix.reorder (A : DenseMatrix α n m) (σ : Equiv.Perm (Fin n)) : DenseMatrix α n m :=
  DenseMatrix.ofFn fun i => A (σ i)

@[simp] theorem DenseMatrix.reorder_apply (A : DenseMatrix α n m) (σ : Equiv.Perm (Fin n))
    (i : Fin n) (j : Fin m) : A.reorder σ i j = A (σ i) j := by
  simp [DenseMatrix.reorder]

@[simp] theorem DenseMatrix.reorder_one (A : DenseMatrix α n m) : A.reorder 1 = A :=
  DenseMatrix.ext fun i j => A.reorder_apply 1 i j

/-- The right-hand sides in the order of `DenseMatrix.reorder`. -/
def reorderVector (b : Vector α n) (σ : Equiv.Perm (Fin n)) : Vector α n :=
  Vector.ofFn fun i => b.get (σ i)

@[simp] theorem reorderVector_get (b : Vector α n) (σ : Equiv.Perm (Fin n)) (i : Fin n) :
    (reorderVector b σ).get i = b.get (σ i) := by
  simp [reorderVector, Vector.get]
  rfl

end Reorder

variable {n m : ℕ} {A : DenseMatrix ℚ n m} {b : Vector ℚ n} {σ : Equiv.Perm (Fin n)}

theorem solves_reorder {y : Fin m → ℚ} :
    Solves (A.reorder σ) (reorderVector b σ) y ↔ Solves A b y := by
  simp only [Solves, DenseMatrix.reorder_apply, reorderVector_get]
  exact σ.forall_congr_right (q := fun i => ∑ j, A i j * y j = b.get i)

theorem exists_isZeroRow_reorder : (∃ i, (A.reorder σ).IsZeroRow i) ↔ ∃ i, A.IsZeroRow i := by
  simp only [DenseMatrix.IsZeroRow, DenseMatrix.reorder_apply]
  exact σ.exists_congr_right (q := fun i => ∀ j, A i j = 0)

theorem isLeading_reorder {c : Fin m} : (A.reorder σ).IsLeading c ↔ A.IsLeading c := by
  have hcolumn : ∀ j, (A.reorder σ).column j = LinearMap.funLeft ℚ ℚ σ (A.column j) := fun j =>
    funext fun i => A.reorder_apply σ i j
  have hinj := LinearMap.funLeft_injective_of_surjective ℚ ℚ σ σ.surjective
  rw [DenseMatrix.IsLeading, DenseMatrix.IsLeading, mem_span_image_iff hinj hcolumn]

/-- Two systems with the same solutions and the same leading columns get the same answer, up to
the order of the reduced rows. -/
theorem solutionAt_eq_of_equivalent (rule rule' : PivotRule) {B : DenseMatrix ℚ n m}
    {d : Vector ℚ n} (hsol : ∃ z, Solves A b z) (hsolves : ∀ y, Solves B d y ↔ Solves A b y)
    (hleading : ∀ c, B.IsLeading c ↔ A.IsLeading c) :
    (solutionAt rule' 0 B d).x = (solutionAt rule 0 A b).x ∧
      (solutionAt rule' 0 B d).pivotColumns = (solutionAt rule 0 A b).pivotColumns ∧
      ∃ τ : Equiv.Perm (Fin n), ∀ i j,
        (solutionAt rule' 0 B d).reduced i j = (solutionAt rule 0 A b).reduced (τ i) j := by
  have hs : (reduce rule 0 (A.augment b)).Settled 0 m := reduce_settled le_rfl _
  have hs' : (reduce rule' 0 (B.augment d)).Settled 0 m := reduce_settled le_rfl _
  have hsol' : ∃ z, Solves B d z := by
    obtain ⟨z, hz⟩ := hsol
    exact ⟨z, (hsolves z).mpr hz⟩
  have hfree : ∀ j, (reduce rule 0 (A.augment b)).Free j ↔ (reduce rule' 0 (B.augment d)).Free j :=
    fun j => not_iff_not.mp
      (not_free_reduce_iff.trans ((hleading j).symm.trans not_free_reduce_iff.symm))
  have hcompletion : ∀ v, (reduce rule 0 (A.augment b)).completion v =
      (reduce rule' 0 (B.augment d)).completion v := by
    intro v
    have hA : Solves A b ((reduce rule 0 (A.augment b)).completion v) :=
      (solves_iff_eq_completion hsol fun f hf =>
        Reduction.completion_of_free (Solution.mem_freeVariables.mp hf)).mpr rfl
    refine (solves_iff_eq_completion hsol' fun f hf => ?_).mp ((hsolves _).mpr hA)
    exact Reduction.completion_of_free ((hfree f).mpr (Solution.mem_freeVariables.mp hf))
  refine ⟨?_, (hs.columns_eq hs' hfree).symm, ?_⟩
  · have hx : (solutionAt rule' 0 B d).x.get = (solutionAt rule 0 A b).x.get := by
      rw [solutionAt_x, solutionAt_x, hcompletion]
    exact Vector.ext fun i hi => congrFun hx ⟨i, hi⟩
  · obtain ⟨z, hz⟩ := hsol
    exact hs.exists_perm_rows hs' ⟨z, (satisfies_reduced z).mpr hz⟩
      ⟨z, (satisfies_reduced z).mpr ((hsolves z).mpr hz)⟩ hfree hcompletion

theorem solve_exact_ok_iff {pivoting : PivotRule} {zeroRows : ZeroRowRule} :
    (∃ s, solve (Settings.exact pivoting zeroRows) A b.toList = .ok s) ↔
      (0 < n ∧ 0 < m) ∧ (∃ y, Solves A b y) ∧ ¬∃ i, A.IsZeroRow i := by
  simp only [solve_rational_eq_ok_iff (toleranceFor_exact pivoting zeroRows), exists_and_left]
  exact and_congr_right fun _ => solveAt_ok_iff

/-- Neither the order of the equations nor the choice of pivot rows shows in an exact answer,
apart from the order of the reduced rows. -/
theorem solve_independent_of_order {pivoting pivoting' : PivotRule}
    {zeroRows zeroRows' : ZeroRowRule} (σ : Equiv.Perm (Fin n)) :
    ((∃ s, solve (Settings.exact pivoting zeroRows) A b.toList = .ok s) ↔
      ∃ s', solve (Settings.exact pivoting' zeroRows') (A.reorder σ) (reorderVector b σ).toList =
        .ok s') ∧
    ∀ s s', solve (Settings.exact pivoting zeroRows) A b.toList = .ok s →
      solve (Settings.exact pivoting' zeroRows') (A.reorder σ) (reorderVector b σ).toList = .ok s' →
      s'.x = s.x ∧ s'.rank = s.rank ∧ s'.pivotColumns = s.pivotColumns ∧
        s'.freeVariables = s.freeVariables ∧
        ∃ τ : Equiv.Perm (Fin n), ∀ i j, s'.reduced i j = s.reduced (τ i) j := by
  constructor
  · rw [solve_exact_ok_iff, solve_exact_ok_iff, exists_isZeroRow_reorder]
    simp only [solves_reorder]
  · intro s s' h h'
    obtain ⟨-, hrank, rfl⟩ := solveAt_eq_ok_iff.mp (solveAt_of_solve_exact h)
    obtain ⟨-, -, rfl⟩ := solveAt_eq_ok_iff.mp (solveAt_of_solve_exact h')
    obtain ⟨hx, hcols, hrows⟩ := solutionAt_eq_of_equivalent pivoting pivoting'
      (solvable_iff_ranksAt.mpr hrank) (fun _ => solves_reorder) fun _ => isLeading_reorder
    refine ⟨hx, ?_, hcols, ?_, hrows⟩
    · rw [rank_solutionAt_eq_length, rank_solutionAt_eq_length, hcols]
    · rw [Solution.freeVariables, hcols]
      rfl

/-- Three equations in three unknowns, the last of them a combination of the others, solved once
more from the last equation up. -/
theorem solve_independent_of_order_reversed :
    let A : DenseMatrix ℚ 3 3 := ⟨#v[#v[0, 1, 2], #v[2, 4, 6], #v[1, 3, 5]]⟩
    let b : Vector ℚ 3 := #v[1, 8, 5]
    let σ : Equiv.Perm (Fin 3) := Equiv.swap 0 2
    ∃ s s', solve (Settings.exact .firstNonZero .positiveRhs) A b.toList = .ok s ∧
      solve (Settings.exact .largestMagnitude .symmetric) (A.reorder σ)
        (reorderVector b σ).toList = .ok s' ∧
      s.pivotColumns = [0, 1] ∧ s'.x = s.x ∧ s'.rank = s.rank ∧
      s'.pivotColumns = s.pivotColumns ∧ s'.freeVariables = s.freeVariables ∧
      ∃ τ : Equiv.Perm (Fin 3), ∀ i j, s'.reduced i j = s.reduced (τ i) j := by
  intro A b σ
  have hrow : badZeroRow? .positiveRhs 0 A b = none := by decide +kernel
  have hrank : ¬rank 0 A < rank 0 (A.augment b) := by decide +kernel
  have hvalid : validate A b.toList = .ok b := validate_rational (by decide) (by decide) A b
  have hsolve := solve_of_rank_not_lt (toleranceFor_exact .firstNonZero .positiveRhs) hvalid hrow
    hrank
  obtain ⟨hiff, heq⟩ := solve_independent_of_order σ
  obtain ⟨s', hsolve'⟩ := hiff.mp ⟨_, hsolve⟩
  exact ⟨_, s', hsolve, hsolve', by decide +kernel, heq _ s' hsolve hsolve'⟩

end LinearSystem
