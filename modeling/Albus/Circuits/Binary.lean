import Albus.Circuits.Circomlib

/-! # Bits and arrays

    `Bin2Num` of `utils/binary.circom` and `IN` of `utils/array.circom`. -/

namespace Albus.Circuits

open Albus.Lib

/-! ## Bin2Num -/

/-- `Bin2Num(inSize, outSize, from)`: its one constraint defines its output. -/
def bin2Num (outSize lo : ℕ) (bits : ℕ → F) : F :=
  weighted outSize (fun i => bits (lo + i))

/-- The bits of a `Num2Bits(256)` are those of its input. -/
def CanonicalBits (x : F) (bits : ℕ → F) : Prop := ∀ i < 256, bits i = natBits x.val i

theorem val_lt_two_pow (x : F) : x.val < 2 ^ 256 :=
  lt_trans (ZMod.val_lt x) (lt_trans bn254r_lt_two_pow (by norm_num))

/-- The bits of the representative satisfy `Num2Bits(256)`. -/
theorem num2Bits_natBits {lib : Circomlib} (hlib : lib.Arithmetic) (x : F) :
    lib.num2Bits 256 x (natBits x.val) := by
  refine (hlib.num2Bits _ _ _).mpr ⟨isBits_natBits _ _, ?_⟩
  rw [weighted_eq (isBits_natBits _ _), bitsNat_natBits (val_lt_two_pow _)]
  exact ZMod.natCast_zmod_val _

/-- With the bits of its input, a digit of the input. -/
theorem bin2Num_canonical {x : F} {bits : ℕ → F} (h : CanonicalBits x bits)
    {outSize lo : ℕ} (hn : lo + outSize ≤ 256) :
    bin2Num outSize lo bits = ((x.val / 2 ^ lo % 2 ^ outSize : ℕ) : F) := by
  have hIs : IsBits 256 bits := by
    intro i hi
    rw [h i hi]
    exact isBits_natBits 256 x.val i hi
  rw [bin2Num]
  rw [weighted_window hIs hn, bitsNat_congr h, bitsNat_natBits (val_lt_two_pow x)]

/-! ## IN -/

namespace IN

structure Signals where
  eq : ℕ → F
  count : ℕ → F
  out : F

/-- `IN(n)`. -/
structure Constraints (lib : Circomlib) (n : ℕ) (x : F) (value : ℕ → F)
    (s : Signals) : Prop where
  count_zero : s.count 0 = 0
  eq : ∀ i < n, lib.isEqual x (value i) (s.eq i)
  count_succ : ∀ i < n, s.count (i + 1) = s.count i + s.eq i
  gt : lib.greaterThan 252 (s.count n) 0 s.out

/-- How many of the first `n` values `x` equals. -/
def hits (x : F) (value : ℕ → F) : ℕ → ℕ
  | 0 => 0
  | n + 1 => hits x value n + if x = value n then 1 else 0

theorem hits_le (x : F) (value : ℕ → F) (n : ℕ) : hits x value n ≤ n := by
  induction n with
  | zero => exact le_rfl
  | succ n ih =>
      rw [hits]
      split <;> omega

theorem hits_pos_iff (x : F) (value : ℕ → F) (n : ℕ) :
    0 < hits x value n ↔ ∃ i < n, x = value i := by
  induction n with
  | zero =>
      constructor
      · intro h
        exact absurd h (lt_irrefl 0)
      · rintro ⟨i, hi, -⟩
        exact absurd hi (Nat.not_lt_zero i)
  | succ n ih =>
      rw [hits]
      constructor
      · intro h
        by_cases hx : x = value n
        · exact ⟨n, Nat.lt_succ_self n, hx⟩
        · rw [if_neg hx, Nat.add_zero] at h
          obtain ⟨i, hi, heq⟩ := ih.mp h
          exact ⟨i, Nat.lt_succ_of_lt hi, heq⟩
      · rintro ⟨i, hi, heq⟩
        rcases Nat.lt_succ_iff_lt_or_eq.mp hi with hlt | rfl
        · have := ih.mpr ⟨i, hlt, heq⟩
          omega
        · rw [if_pos heq]
          omega

theorem Constraints.count_eq {lib : Circomlib} (hlib : lib.Arithmetic) {n : ℕ} {x : F}
    {value : ℕ → F} {s : Signals} (h : Constraints lib n x value s) :
    ∀ k ≤ n, s.count k = (hits x value k : F) := by
  intro k
  induction k with
  | zero =>
      intro _
      rw [h.count_zero]
      exact Nat.cast_zero.symm
  | succ k ih =>
      intro hk
      rw [h.count_succ k hk, ih (Nat.le_of_succ_le hk), (hlib.isEqual _ _ _).mp (h.eq k hk),
        ofProp_eq_cast, hits, Nat.cast_add]

theorem val_hits {n : ℕ} (hn : n < 2 ^ 252) (x : F) (value : ℕ → F) :
    ((hits x value n : ℕ) : F).val = hits x value n :=
  ZMod.val_natCast_of_lt (lt_trans (lt_of_le_of_lt (hits_le x value n) hn)
    two_pow_252_lt)

theorem zero_val_lt : (0 : F).val < 2 ^ 252 := by
  rw [ZMod.val_zero]
  exact Nat.two_pow_pos 252

/-- **`IN` DECIDES MEMBERSHIP.** -/
theorem Constraints.out_eq {lib : Circomlib} (hlib : lib.Arithmetic) {n : ℕ}
    (hn : n < 2 ^ 252) {x : F} {value : ℕ → F} {s : Signals}
    (h : Constraints lib n x value s) : s.out = ofProp (0 < hits x value n) := by
  have hcount := h.count_eq hlib n le_rfl
  have hgt := h.gt
  have hval := val_hits hn x value
  rw [hcount, hlib.greaterThan 252 _ _ _ le_rfl (by
      rw [hval]
      exact lt_of_le_of_lt (hits_le x value n) hn) zero_val_lt] at hgt
  rw [hgt, hval, ZMod.val_zero]

/-- Whatever the values, some signals satisfy `IN`. -/
theorem exists_constraints {lib : Circomlib} (hlib : lib.Arithmetic) {n : ℕ}
    (hn : n < 2 ^ 252) (x : F) (value : ℕ → F) :
    ∃ s, Constraints lib n x value s ∧ s.out = ofProp (0 < hits x value n) := by
  have hval := val_hits hn x value
  refine ⟨⟨fun i => ofProp (x = value i), fun k => (hits x value k : F),
    ofProp (0 < hits x value n)⟩, ⟨Nat.cast_zero, ?_, ?_, ?_⟩, rfl⟩
  · intro i _
    exact (hlib.isEqual _ _ _).mpr rfl
  · intro i _
    show (hits x value (i + 1) : F) = hits x value i + ofProp (x = value i)
    rw [ofProp_eq_cast, hits, Nat.cast_add]
  · rw [hlib.greaterThan 252 _ _ _ le_rfl (by
      rw [hval]
      exact lt_of_le_of_lt (hits_le x value n) hn) zero_val_lt, hval, ZMod.val_zero]

end IN

end Albus.Circuits
