import Albus.Lib.Interpolation
import Mathlib.Algebra.Polynomial.RingDivision
import Mathlib.RingTheory.RootsOfUnity.PrimitiveRoots

/-! # A domain of roots of unity

    A polynomial with fewer than `m` coefficients is known from its values at the `m`
    powers of a primitive root.  Three of them whose values satisfy `a * b = c` at every
    power satisfy it as polynomials up to a multiple of `X ^ m - 1`
    (`exists_quotient`).  The multiple is divided out where `X ^ m - 1` has no
    zero, on a coset of the domain, and there the division is by one number. -/

namespace Albus.Lib

open Polynomial

section Domain

variable {K : Type*} [Field K] {w : K} {m : ℕ}

theorem injOn_powers (hw : IsPrimitiveRoot w m) :
    Set.InjOn (fun j => w ^ j) (Finset.range m) := by
  intro i hi j hj h
  rw [Finset.coe_range] at hi hj
  exact hw.pow_inj hi hj h

/-- What vanishes on the domain is a multiple of `X ^ m - 1`. -/
theorem vanishing_dvd (hw : IsPrimitiveRoot w m) (hm : 0 < m) {p : K[X]}
    (hp : ∀ u < m, p.eval (w ^ u) = 0) : X ^ m - 1 ∣ p := by
  have hmonic : (X ^ m - 1 : K[X]).Monic := monic_X_pow_sub_C 1 hm.ne'
  rw [← modByMonic_eq_zero_iff_dvd hmonic]
  -- the remainder is too short to vanish on the domain, unless it is zero
  have hdegree : (p %ₘ (X ^ m - 1)).degree < (Finset.range m).card := by
    rw [Finset.card_range]
    calc (p %ₘ (X ^ m - 1)).degree < (X ^ m - 1 : K[X]).degree := degree_modByMonic_lt p hmonic
      _ = m := degree_X_pow_sub_C hm 1
  refine eq_zero_of_degree_lt_of_eval_index_eq_zero _ (injOn_powers hw) hdegree ?_
  intro u hu
  have hroot : (X ^ m - 1 : K[X]).eval (w ^ u) = 0 := by
    rw [eval_sub, eval_pow, eval_X, eval_one, ← pow_mul, Nat.mul_comm, pow_mul, hw.pow_eq_one,
      one_pow, sub_self]
  have hdivision := congrArg (eval (w ^ u)) (modByMonic_add_div p (X ^ m - 1))
  rw [eval_add, eval_mul, hroot, zero_mul, add_zero] at hdivision
  rw [hdivision, hp u (Finset.mem_range.mp hu)]

theorem natDegree_le_pred {p : K[X]} (hp : p.degree < m) : p.natDegree ≤ m - 1 := by
  by_cases hzero : p = 0
  · rw [hzero, natDegree_zero]
    exact Nat.zero_le _
  · exact Nat.le_sub_one_of_lt ((natDegree_lt_iff_degree_lt hzero).mpr hp)

/-- **THE QUOTIENT.**  Where the values of `a * b` are those of `c` all over the domain,
    `a * b - c` is a multiple of `X ^ m - 1`, by a polynomial with fewer than `m - 1`
    coefficients. -/
theorem exists_quotient (hw : IsPrimitiveRoot w m) (hm : 0 < m) {a b c : K[X]}
    (ha : a.degree < m) (hb : b.degree < m) (hc : c.degree < m)
    (h : ∀ u < m, a.eval (w ^ u) * b.eval (w ^ u) = c.eval (w ^ u)) :
    ∃ q : K[X], a * b - c = (X ^ m - 1) * q ∧ q.degree < (m - 1 : ℕ) := by
  obtain ⟨q, hq⟩ : X ^ m - 1 ∣ a * b - c := by
    refine vanishing_dvd hw hm ?_
    intro u hu
    rw [eval_sub, eval_mul, h u hu, sub_self]
  refine ⟨q, hq, ?_⟩
  by_cases hzero : q = 0
  · rw [hzero, degree_zero]
    exact WithBot.bot_lt_coe _
  have hlength : m + q.natDegree ≤ 2 * (m - 1) := by
    have hmonic : (X ^ m - 1 : K[X]).Monic := monic_X_pow_sub_C 1 hm.ne'
    have hproduct : (a * b).natDegree ≤ a.natDegree + b.natDegree := natDegree_mul_le
    have hdifference := natDegree_sub_le (a * b) c
    have hvanishing : (X ^ m - 1 : K[X]).natDegree = m := natDegree_X_pow_sub_C
    have hleft := natDegree_le_pred ha
    have hright := natDegree_le_pred hb
    have hlast := natDegree_le_pred hc
    rw [hq, natDegree_mul hmonic.ne_zero hzero, hvanishing] at hdifference
    omega
  exact (natDegree_lt_iff_degree_lt hzero).mp (by omega)

/-- On a coset of the domain the division is by one number. -/
theorem eval_quotient (hw : IsPrimitiveRoot w m) {a b c q : K[X]}
    (hq : a * b - c = (X ^ m - 1) * q) {g : K} (hg : g ^ m - 1 ≠ 0) (j : ℕ) :
    (a.eval (g * w ^ j) * b.eval (g * w ^ j) - c.eval (g * w ^ j)) * (g ^ m - 1)⁻¹
      = q.eval (g * w ^ j) := by
  have hvanishing : (X ^ m - 1 : K[X]).eval (g * w ^ j) = g ^ m - 1 := by
    rw [eval_sub, eval_pow, eval_X, eval_one, mul_pow, ← pow_mul, Nat.mul_comm, pow_mul,
      hw.pow_eq_one, one_pow, mul_one]
  rw [← eval_mul, ← eval_sub, hq, eval_mul, hvanishing, mul_comm, inv_mul_cancel_left₀ hg]

end Domain

end Albus.Lib
