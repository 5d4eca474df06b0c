import LinearSystem.Proofs.Equations

namespace LinearSystem

variable {n m : ℕ}

/-- Every entry `i` loses `f i` times entry `p`, all at once. With a suitable `f` this is one
elimination step on one column, the scaling of the pivot row included. -/
def rowOperation (p : Fin n) (f : Fin n → ℚ) : (Fin n → ℚ) →ₗ[ℚ] (Fin n → ℚ) where
  toFun v i := v i - f i * v p
  map_add' v w := by
    funext i
    simp only [Pi.add_apply]
    ring
  map_smul' c v := by
    funext i
    simp only [Pi.smul_apply, smul_eq_mul, RingHom.id_apply]
    ring

@[simp] theorem rowOperation_apply (p : Fin n) (f v : Fin n → ℚ) (i : Fin n) :
    rowOperation p f v i = v i - f i * v p := rfl

theorem rowOperation_of_zero {p : Fin n} {v : Fin n → ℚ} (f : Fin n → ℚ) (h : v p = 0) :
    rowOperation p f v = v := by
  funext i
  rw [rowOperation_apply, h, mul_zero, sub_zero]

/-- As long as entry `p` itself is not cancelled, no vector is lost. -/
theorem rowOperation_injective {p : Fin n} {f : Fin n → ℚ} (hf : f p ≠ 1) :
    Function.Injective (rowOperation p f) := by
  rw [← LinearMap.ker_eq_bot, LinearMap.ker_eq_bot']
  intro v hv
  have hp : (1 - f p) * v p = 0 := by
    have h := congrFun hv p
    rw [rowOperation_apply, Pi.zero_apply] at h
    rw [sub_mul, one_mul, h]
  have hz : v p = 0 := (mul_eq_zero.mp hp).resolve_left (sub_ne_zero.mpr hf.symm)
  rw [← rowOperation_of_zero f hz, hv]

/-- A matrix whose columns all went through one injective map has the same solutions. -/
theorem satisfies_of_column_eq {R S : DenseMatrix ℚ n (m + 1)}
    {T : (Fin n → ℚ) →ₗ[ℚ] (Fin n → ℚ)} (hT : Function.Injective T)
    (h : ∀ j, S.column j = T (R.column j)) (y : Fin m → ℚ) : Satisfies S y ↔ Satisfies R y := by
  have hsum : ∑ j : Fin m, y j • S.column j.castSucc =
      T (∑ j : Fin m, y j • R.column j.castSucc) := by
    simp only [h, map_sum, map_smul]
  rw [satisfies_iff_sum_column, satisfies_iff_sum_column, hsum, h]
  exact hT.eq_iff

end LinearSystem
