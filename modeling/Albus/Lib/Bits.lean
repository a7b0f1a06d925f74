import Mathlib.Data.Nat.Bitwise
import Mathlib.Algebra.BigOperators.Fin
import Mathlib.Data.ZMod.Basic
import Mathlib.Tactic.Ring

/-! # Bits as residues

    An array of residues that are all 0 or 1 is the binary expansion of one
    natural number.  The residue of that number is the weighted sum of the bits;
    the number itself is more: it may exceed the modulus, and then it is one of
    several numbers with the same residue. -/

namespace Albus.Lib

variable {m : ℕ}

/-- The first `n` entries are 0 or 1. -/
def IsBits (n : ℕ) (bits : ℕ → ZMod m) : Prop :=
  ∀ i < n, bits i = 0 ∨ bits i = 1

/-- `∑ bits[i] * 2^i`, over the first `n` entries. -/
def weighted (n : ℕ) (bits : ℕ → ZMod m) : ZMod m :=
  ∑ i ∈ Finset.range n, bits i * 2 ^ i

/-- The number whose binary expansion the first `n` entries are. -/
def bitsNat (n : ℕ) (bits : ℕ → ZMod m) : ℕ :=
  Nat.ofBits (fun i : Fin n => decide (bits i = 1))

/-- The binary expansion of a number. -/
def natBits (x : ℕ) (i : ℕ) : ZMod m := if x.testBit i then 1 else 0

theorem bitsNat_lt (n : ℕ) (bits : ℕ → ZMod m) : bitsNat n bits < 2 ^ n :=
  Nat.ofBits_lt_two_pow _

theorem bitsNat_testBit {n i : ℕ} (bits : ℕ → ZMod m) (h : i < n) :
    (bitsNat n bits).testBit i = decide (bits i = 1) :=
  Nat.testBit_ofBits_lt _ i h

/-- The low bits first: one bit, and twice the rest. -/
theorem bitsNat_succ (n : ℕ) (bits : ℕ → ZMod m) :
    bitsNat (n + 1) bits
      = 2 * bitsNat n (fun i => bits (i + 1)) + if bits 0 = 1 then 1 else 0 := by
  rw [bitsNat]
  rw [Nat.ofBits_succ]
  congr 1
  by_cases h : bits 0 = 1 <;> simp [h]

theorem IsBits.cast [Fact (1 < m)] {n i : ℕ} {bits : ℕ → ZMod m}
    (h : IsBits n bits) (hi : i < n) :
    ((if bits i = 1 then 1 else 0 : ℕ) : ZMod m) = bits i := by
  rcases h i hi with h0 | h1
  · rw [h0, if_neg zero_ne_one, Nat.cast_zero]
  · rw [h1, if_pos rfl, Nat.cast_one]

theorem weighted_succ (n : ℕ) (bits : ℕ → ZMod m) :
    weighted (n + 1) bits = 2 * weighted n (fun i => bits (i + 1)) + bits 0 := by
  unfold weighted
  rw [Finset.sum_range_succ', Finset.mul_sum, pow_zero, mul_one]
  congr 1
  refine Finset.sum_congr rfl ?_
  intro i _
  ring

/-- **THE WEIGHTED SUM IS THE RESIDUE** of the number the bits expand. -/
theorem weighted_eq [Fact (1 < m)] {n : ℕ} {bits : ℕ → ZMod m}
    (h : IsBits n bits) : weighted n bits = (bitsNat n bits : ZMod m) := by
  induction n generalizing bits with
  | zero => simp [weighted, bitsNat]
  | succ n ih =>
      have htail : IsBits n (fun i => bits (i + 1)) := fun i hi => h (i + 1) (by omega)
      rw [weighted_succ, bitsNat_succ, ih htail, Nat.cast_add, Nat.cast_mul,
        h.cast (Nat.succ_pos n)]
      rfl

/-- A window of the bits expands a digit of the number. -/
theorem bitsNat_window {n lo k : ℕ} (bits : ℕ → ZMod m) (h : lo + k ≤ n) :
    bitsNat k (fun i => bits (lo + i)) = bitsNat n bits / 2 ^ lo % 2 ^ k := by
  refine Nat.eq_of_testBit_eq ?_
  intro i
  rw [Nat.testBit_mod_two_pow, Nat.testBit_div_two_pow]
  by_cases hi : i < k
  · rw [bitsNat_testBit _ hi, bitsNat_testBit _ (by omega : i + lo < n),
      Nat.add_comm i lo]
    simp [hi]
  · have hlt : bitsNat k (fun i => bits (lo + i)) < 2 ^ i :=
      lt_of_lt_of_le (bitsNat_lt _ _) (Nat.pow_le_pow_right (by omega) (by omega))
    rw [Nat.testBit_lt_two_pow hlt]
    simp [hi]

theorem IsBits.window {n lo k : ℕ} {bits : ℕ → ZMod m} (h : IsBits n bits)
    (hk : lo + k ≤ n) : IsBits k (fun i => bits (lo + i)) :=
  fun i hi => h (lo + i) (by omega)

/-- The weighted sum of a window is the residue of a digit. -/
theorem weighted_window [Fact (1 < m)] {n lo k : ℕ} {bits : ℕ → ZMod m}
    (h : IsBits n bits) (hk : lo + k ≤ n) :
    weighted k (fun i => bits (lo + i))
      = ((bitsNat n bits / 2 ^ lo % 2 ^ k : ℕ) : ZMod m) := by
  rw [weighted_eq (h.window hk), bitsNat_window bits hk]

theorem isBits_natBits (n x : ℕ) : IsBits n (natBits (m := m) x) := by
  intro i _
  rw [natBits]
  cases x.testBit i
  · exact Or.inl rfl
  · exact Or.inr rfl

/-- A number is what its expansion expands. -/
theorem bitsNat_natBits [Fact (1 < m)] {n x : ℕ} (h : x < 2 ^ n) :
    bitsNat n (natBits (m := m) x) = x := by
  have hbit : (fun i : Fin n => decide (natBits (m := m) x i = 1))
      = fun i : Fin n => x.testBit i := by
    funext i
    rw [natBits]
    cases x.testBit i <;> simp
  rw [bitsNat]
  rw [hbit, Nat.ofBits_testBit, Nat.mod_eq_of_lt h]

/-- Bits that are the expansion of a number expand that number. -/
theorem bitsNat_congr {n : ℕ} {bits bits' : ℕ → ZMod m}
    (h : ∀ i < n, bits i = bits' i) : bitsNat n bits = bitsNat n bits' := by
  rw [bitsNat]
  congr 1
  funext i
  rw [h i i.isLt]

end Albus.Lib
