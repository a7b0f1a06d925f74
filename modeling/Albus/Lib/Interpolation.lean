import Mathlib.LinearAlgebra.Lagrange

/-! # The constant coefficient from values

    A polynomial with `k` coefficients is known from its values at `k` points; its
    constant coefficient is a sum of the values, each with a weight that depends on the
    points only (`constant_of_values`). -/

namespace Albus.Lib

open Polynomial

section Interpolation

variable {K : Type*} [Field K]

/-- What point `j` of the first `k` is weighted with. -/
def weightAtZero (k : ℕ) (x : ℕ → K) (j : ℕ) : K :=
  ∏ m ∈ Finset.range k, if m = j then 1 else x m / (x m - x j)

@[simp] theorem weightAtZero_zero (x : ℕ → K) (j : ℕ) : weightAtZero 0 x j = 1 :=
  Finset.prod_range_zero _

theorem weightAtZero_succ (k : ℕ) (x : ℕ → K) (j : ℕ) :
    weightAtZero (k + 1) x j
      = weightAtZero k x j * if k = j then 1 else x k / (x k - x j) :=
  Finset.prod_range_succ _ _

/-- What the value at point `j` of the first `k` is weighted with, for the value at `y`. -/
def weightAt (k : ℕ) (x : ℕ → K) (y : K) (j : ℕ) : K :=
  ∏ m ∈ Finset.range k, if m = j then 1 else (y - x m) / (x j - x m)

theorem weightAt_zero (k : ℕ) (x : ℕ → K) (j : ℕ) : weightAt k x 0 j = weightAtZero k x j := by
  refine Finset.prod_congr rfl ?_
  intro m _
  rw [zero_sub, ← neg_sub (x m) (x j), neg_div_neg_eq]

theorem eval_basisDivisor (a b y : K) :
    (Lagrange.basisDivisor a b).eval y = (y - b) / (a - b) := by
  rw [Lagrange.basisDivisor, eval_mul, eval_C, eval_sub, eval_X, eval_C, div_eq_mul_inv,
    mul_comm]

theorem eval_basis (k : ℕ) (x : ℕ → K) (y : K) (j : ℕ) :
    (Lagrange.basis (Finset.range k) x j).eval y = weightAt k x y j := by
  rw [Lagrange.basis, eval_prod, weightAt,
    ← Finset.prod_erase (Finset.range k) (if_pos rfl : (if j = j then (1 : K) else _) = 1)]
  refine Finset.prod_congr rfl ?_
  intro m hm
  rw [eval_basisDivisor, if_neg (Finset.ne_of_mem_erase hm)]

/-- Lagrange interpolation, read at a point. -/
theorem eval_eq_sum {k : ℕ} {x : ℕ → K} {f : K[X]}
    (hx : Set.InjOn x (Finset.range k)) (hf : f.degree < k) (y : K) :
    f.eval y = ∑ j ∈ Finset.range k, f.eval (x j) * weightAt k x y j := by
  have hdegree : f.degree < (Finset.range k).card := by
    rw [Finset.card_range]
    exact hf
  nth_rewrite 1 [Lagrange.eq_interpolate hx hdegree]
  rw [Lagrange.interpolate_apply, eval_finsetSum]
  refine Finset.sum_congr rfl ?_
  intro j _
  rw [eval_mul, eval_C, eval_basis]

/-- Lagrange interpolation at zero. -/
theorem eval_zero_eq_sum {k : ℕ} {x : ℕ → K} {f : K[X]}
    (hx : Set.InjOn x (Finset.range k)) (hf : f.degree < k) :
    f.eval 0 = ∑ j ∈ Finset.range k, f.eval (x j) * weightAtZero k x j := by
  rw [eval_eq_sum hx hf 0]
  simp only [weightAt_zero]

/-- The polynomial with these coefficients. -/
noncomputable def ofCoefficients (k : ℕ) (coef : ℕ → K) : K[X] :=
  ∑ i ∈ Finset.range k, C (coef i) * X ^ i

theorem eval_ofCoefficients (k : ℕ) (coef : ℕ → K) (x : K) :
    (ofCoefficients k coef).eval x = ∑ i ∈ Finset.range k, coef i * x ^ i := by
  rw [ofCoefficients, eval_finsetSum]
  refine Finset.sum_congr rfl ?_
  intro i _
  rw [eval_mul, eval_C, eval_pow, eval_X]

theorem coeff_ofCoefficients (k : ℕ) (coef : ℕ → K) (n : ℕ) :
    (ofCoefficients k coef).coeff n = if n < k then coef n else 0 := by
  simp [ofCoefficients, coeff_X_pow]

/-- A polynomial is the one with its own coefficients. -/
theorem ofCoefficients_coeff {k : ℕ} {f : K[X]} (hf : f.degree < k) :
    ofCoefficients k f.coeff = f := by
  ext n
  rw [coeff_ofCoefficients]
  by_cases hn : n < k
  · exact if_pos hn
  · rw [if_neg hn, (degree_lt_iff_coeff_zero f k).mp hf n (not_lt.mp hn)]

theorem degree_ofCoefficients_lt (k : ℕ) (coef : ℕ → K) :
    (ofCoefficients k coef).degree < k := by
  refine mem_degreeLT.mp (Submodule.sum_mem _ ?_)
  intro i hi
  refine mem_degreeLT.mpr (lt_of_le_of_lt (degree_C_mul_X_pow_le i (coef i)) ?_)
  exact Nat.cast_lt.mpr (Finset.mem_range.mp hi)

/-- **THE CONSTANT COEFFICIENT IS RECOVERED** from the values at `k` points. -/
theorem constant_of_values {k : ℕ} (hk : 1 ≤ k) {x : ℕ → K}
    (hx : Set.InjOn x (Finset.range k)) {coef y : ℕ → K}
    (hy : ∀ j < k, y j = ∑ i ∈ Finset.range k, coef i * x j ^ i) :
    ∑ j ∈ Finset.range k, y j * weightAtZero k x j = coef 0 := by
  have hvalues : ∀ j ∈ Finset.range k,
      y j * weightAtZero k x j
        = (ofCoefficients k coef).eval (x j) * weightAtZero k x j := by
    intro j hj
    rw [hy j (Finset.mem_range.mp hj), eval_ofCoefficients]
  rw [Finset.sum_congr rfl hvalues,
    ← eval_zero_eq_sum hx (degree_ofCoefficients_lt k coef), eval_ofCoefficients,
    Finset.sum_eq_single_of_mem 0 (Finset.mem_range.mpr hk)]
  · rw [pow_zero, mul_one]
  · intro i _ hi
    rw [zero_pow hi, mul_zero]

end Interpolation

end Albus.Lib
