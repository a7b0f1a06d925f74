import Mathlib.Data.BitVec
import Mathlib.Algebra.Order.Ring.Nat

/-! # A word kept as two halves

    Where a machine has no words of `w + w` bits, a word is kept as its high half in
    front of its low one.  A sum carries from the low halves to the high ones, and a
    rotation moves bits from each half to the other. -/

namespace Albus.Lib

variable {w : ℕ}

theorem toNat_halves (hi lo : BitVec w) :
    (hi ++ lo).toNat = hi.toNat * 2 ^ w + lo.toNat := by
  rw [BitVec.toNat_append, ← Nat.shiftLeft_add_eq_or_of_lt lo.isLt, Nat.shiftLeft_eq]

/-- The two halves of a number: the high one takes the carry. -/
theorem halves_ofNat (hi lo : ℕ) :
    BitVec.ofNat w (hi + lo / 2 ^ w) ++ BitVec.ofNat w lo
      = BitVec.ofNat (w + w) (hi * 2 ^ w + lo) := by
  have hpos := Nat.two_pow_pos w
  have hdiv : (hi * 2 ^ w + lo) / 2 ^ w = hi + lo / 2 ^ w := by
    rw [Nat.add_comm, Nat.add_mul_div_right _ _ hpos, Nat.add_comm]
  have hmod : (hi * 2 ^ w + lo) % 2 ^ w = lo % 2 ^ w := by
    rw [Nat.add_comm, Nat.add_mul_mod_self_right]
  apply BitVec.eq_of_toNat_eq
  rw [toNat_halves, BitVec.toNat_ofNat, BitVec.toNat_ofNat, BitVec.toNat_ofNat, Nat.pow_add,
    Nat.mod_mul, hdiv, hmod, Nat.add_comm, Nat.mul_comm]

theorem ofNat_halves (hi lo : BitVec w) :
    BitVec.ofNat (w + w) (hi.toNat * 2 ^ w + lo.toNat) = hi ++ lo := by
  rw [← toNat_halves, BitVec.ofNat_toNat, BitVec.setWidth_eq]

/-- **SUMS.** -/
theorem halves_add (hi lo hi' lo' : BitVec w) :
    BitVec.ofNat w (hi.toNat + hi'.toNat + (lo.toNat + lo'.toNat) / 2 ^ w)
        ++ BitVec.ofNat w (lo.toNat + lo'.toNat)
      = (hi ++ lo) + (hi' ++ lo') := by
  rw [halves_ofNat, ← ofNat_halves hi lo, ← ofNat_halves hi' lo', ← BitVec.ofNat_add, Nat.add_mul]
  congr 1
  omega

theorem halves_add_three (hi lo hi' lo' hi'' lo'' : BitVec w) :
    BitVec.ofNat w (hi.toNat + hi'.toNat + hi''.toNat
          + (lo.toNat + lo'.toNat + lo''.toNat) / 2 ^ w)
        ++ BitVec.ofNat w (lo.toNat + lo'.toNat + lo''.toNat)
      = (hi ++ lo) + (hi' ++ lo') + (hi'' ++ lo'') := by
  rw [halves_ofNat, ← ofNat_halves hi lo, ← ofNat_halves hi' lo', ← ofNat_halves hi'' lo'',
    ← BitVec.ofNat_add, ← BitVec.ofNat_add, Nat.add_mul, Nat.add_mul]
  congr 1
  omega

/-- A rotation by the width of a half. -/
theorem halves_swap (hi lo : BitVec w) : lo ++ hi = (hi ++ lo).rotateRight w := by
  rcases Nat.eq_zero_or_pos w with rfl | hw
  · exact BitVec.eq_of_getElem_eq fun i hi' => absurd hi' (Nat.not_lt_zero i)
  · have hmod : w % (w + w) = w := Nat.mod_eq_of_lt (Nat.lt_add_of_pos_left hw)
    apply BitVec.eq_of_getElem_eq
    intro i hi'
    rw [BitVec.getElem_rotateRight]
    simp only [hmod, Nat.add_sub_cancel, BitVec.getElem_append]
    by_cases h : i < w
    · simp [h]
    · simp [h, show i - w < w by omega]

/-- **ROTATIONS** by less than the width of a half. -/
theorem halves_rotateRight (hi lo : BitVec w) {n : ℕ} (hn : 0 < n) (hw : n < w) :
    (hi >>> n ||| lo <<< (w - n)) ++ (lo >>> n ||| hi <<< (w - n))
      = (hi ++ lo).rotateRight n := by
  have hmod : n % (w + w) = n := Nat.mod_eq_of_lt (by omega)
  apply BitVec.eq_of_getLsbD_eq
  intro i hi'
  rw [BitVec.getLsbD_rotateRight, hmod]
  simp only [BitVec.getLsbD_append, BitVec.getLsbD_or, BitVec.getLsbD_ushiftRight,
    BitVec.getLsbD_shiftLeft]
  by_cases h : i < w
  · -- a bit of the low half
    have h1 : i < w + w - n := by omega
    by_cases h2 : n + i < w
    · simp [h, h1, h2, show i < w - n by omega]
    · simp [h, h1, h2, show ¬ i < w - n by omega, show i - (w - n) = n + i - w by omega,
        BitVec.getLsbD_of_ge lo (n + i) (by omega)]
  · by_cases h1 : i < w + w - n
    · simp [h, h1, show i - w < w by omega, show i - w < w - n by omega,
        show ¬ n + i < w by omega, show n + (i - w) = n + i - w by omega]
    · simp [h, h1, hi', show i - w < w by omega, show ¬ i - w < w - n by omega,
        show i - (w + w - n) < w by omega, show i - w - (w - n) = i - (w + w - n) by omega,
        BitVec.getLsbD_of_ge hi (n + (i - w)) (by omega)]

end Albus.Lib
