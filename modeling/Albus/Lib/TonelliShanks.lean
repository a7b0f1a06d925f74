import Mathlib.Algebra.Field.Basic
import Mathlib.Algebra.Group.Nat.Even
import Mathlib.Tactic.LinearCombination
import Mathlib.Tactic.Ring

/-! # Square roots by Tonelli and Shanks

    `Shanks a v x b z` is the invariant: `x` is a root of `a` up to the factor `b`,
    whose order divides `2 ^ (v - 1)`, and `z` has order `2 ^ v`.  A round makes `v` the
    exponent of the order of `b` (`Shanks.step`), which is smaller; at `b = 1` the root
    is there (`Shanks.root`). -/

namespace Albus.Lib

universe u

variable {K : Type u} [Field K]

structure Shanks (a : K) (v : ℕ) (x b z : K) : Prop where
  square : x * x = a * b
  pos : 1 ≤ v
  order : b ^ 2 ^ (v - 1) = 1
  gen : z ^ 2 ^ (v - 1) = -1

/-- `2 ^ k` is the order of `b`, if that is a power of two above one. -/
structure OrderExp (b : K) (k : ℕ) : Prop where
  pos : 1 ≤ k
  pow : b ^ 2 ^ k = 1
  least : b ^ 2 ^ (k - 1) ≠ 1

theorem pow_two_pow_succ (b : K) (k : ℕ) : b ^ 2 ^ (k + 1) = b ^ 2 ^ k * b ^ 2 ^ k := by
  rw [pow_succ, pow_mul, pow_two]

/-- Once the power is one it stays one. -/
theorem pow_two_pow_eq_one {b : K} {k m : ℕ} (h : b ^ 2 ^ k = 1) (hle : k ≤ m) :
    b ^ 2 ^ m = 1 := by
  obtain ⟨d, rfl⟩ := Nat.exists_eq_add_of_le hle
  rw [pow_add, pow_mul, h, one_pow]

theorem OrderExp.pow_pred {b : K} {k : ℕ} (h : OrderExp b k) : b ^ 2 ^ (k - 1) = -1 := by
  have hsquare : b ^ 2 ^ (k - 1) * b ^ 2 ^ (k - 1) = 1 := by
    rw [← pow_two_pow_succ, Nat.sub_add_cancel h.pos, h.pow]
  exact (mul_self_eq_one_iff.mp hsquare).resolve_left h.least

namespace Shanks

variable {a x b z : K} {v : ℕ}

/-- The order of `b` is below that of `z`. -/
theorem lt_of_orderExp (h : Shanks a v x b z) {k : ℕ} (hk : OrderExp b k) : k < v := by
  by_contra hge
  have hv := h.pos
  exact hk.least (pow_two_pow_eq_one h.order (by omega))

/-- **ONE ROUND.** -/
theorem step (h : Shanks a v x b z) {k : ℕ} (hk : OrderExp b k) {w : K}
    (hw : w = z ^ 2 ^ (v - k - 1)) : Shanks a k (x * w) (b * (w * w)) (w * w) := by
  have hlt := h.lt_of_orderExp hk
  have hpos := hk.pos
  have hgen : (w * w) ^ 2 ^ (k - 1) = -1 := by
    have hsquare : w * w = z ^ 2 ^ (v - k) := by
      rw [hw, ← pow_two_pow_succ, Nat.sub_add_cancel (by omega)]
    rw [hsquare, ← pow_mul, ← pow_add, show v - k + (k - 1) = v - 1 by omega, h.gen]
  refine ⟨?_, hk.pos, ?_, hgen⟩
  · linear_combination w * w * h.square
  · rw [mul_pow, hk.pow_pred, hgen, neg_one_mul, neg_neg]

theorem root (h : Shanks a v x 1 z) : x * x = a := by
  rw [h.square, mul_one]

/-- **THE START**: the powers of a square and of a non-square by the odd part of the
    order. -/
theorem start {a c : K} {s t : ℕ} (hs : 1 ≤ s) (ht : t % 2 = 1)
    (ha : a ^ (2 ^ (s - 1) * t) = 1) (hc : c ^ (2 ^ (s - 1) * t) = -1) {w : K}
    (hw : w = a ^ ((t - 1) / 2)) : Shanks a s (a * w) (a * w * w) (c ^ t) where
  square := by ring
  pos := hs
  order := by
    have hodd : a * w * w = a ^ t := by
      rw [hw, mul_assoc, ← pow_add, ← pow_succ']
      congr 1
      omega
    rw [hodd, ← pow_mul, mul_comm, ha]
  gen := by rw [← pow_mul, mul_comm, hc]

end Shanks

end Albus.Lib
