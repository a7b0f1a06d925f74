import Albus.Circuits.Binary
import Albus.Lib.Bytes

/-! # Numbers in strings

    `utils/string.circom` and `Str2Timestamp` of `utils/date.circom`.  A claim is
    the number of its bytes, most significant first.  `BitsToAscii` takes bytes out
    of its bits and `AsciiToNum` reads them as a decimal number.

    Every template has two predicates.  `Constraints` is what the verifier checks.
    `Hints` is what an honest prover does besides: each signal assigned with
    `<--` carries the value of its expression, and the bits of a `Num2Bits(256)`
    are those of the number itself and not of an alias. -/

namespace Albus.Circuits

open Albus.Lib

/-- A field element under a comparison of circom: the upper half is negative. -/
def signed (x : F) : ℤ := if x.val ≤ bn254r / 2 then x.val else (x.val : ℤ) - bn254r

theorem signed_natCast {n : ℕ} (h : n ≤ bn254r / 2) : signed (n : F) = n := by
  have hval : ((n : ℕ) : F).val = n := ZMod.val_natCast_of_lt (by
    have : bn254r / 2 < bn254r := by decide
    omega)
  rw [signed]
  rw [hval, if_pos h]

/-! ## AsciiToNum -/

/-- The number `AsciiToNum(N)` computes for its hint. -/
def asciiToNum (N : ℕ) (bytes : ℕ → F) : F :=
  (List.range N).foldl
    (fun temp i => if 48 ≤ signed (bytes i) then temp * 10 + (bytes i - 48) else temp) 0

/-- The same on one byte, over the naturals. -/
def asciiStep (temp c : ℕ) : ℕ := if 48 ≤ c then temp * 10 + (c - 48) else temp

/-- The low `N` bytes of a number, most significant first, read by `asciiStep`. -/
def asciiNat (N v : ℕ) : ℕ :=
  (List.range N).foldl (fun temp i => asciiStep temp (v / 256 ^ (N - 1 - i) % 256)) 0

theorem asciiToNum_natCast (N : ℕ) (c : ℕ → ℕ) (hc : ∀ i < N, c i < 256) :
    asciiToNum N (fun i => (c i : F))
      = (((List.range N).foldl (fun temp i => asciiStep temp (c i)) 0 : ℕ) : F) := by
  rw [asciiToNum]
  induction N with
  | zero => exact Nat.cast_zero.symm
  | succ N ih =>
      rw [List.range_succ, List.foldl_append, List.foldl_append,
        ih (fun i hi => hc i (Nat.lt_succ_of_lt hi))]
      have hN := hc N (Nat.lt_succ_self N)
      have hsigned : signed (c N : F) = c N := signed_natCast (by
        have : (256 : ℕ) ≤ bn254r / 2 := by decide
        omega)
      show (if 48 ≤ signed (c N : F) then _ else _) = _
      rw [hsigned]
      show _ = ((asciiStep _ (c N) : ℕ) : F)
      rw [asciiStep]
      by_cases h : 48 ≤ c N
      · rw [if_pos (by exact_mod_cast h), if_pos h, Nat.cast_add, Nat.cast_mul,
          Nat.cast_sub h]
        rfl
      · rw [if_neg (by exact_mod_cast h), if_neg h]

theorem asciiNat_succ (N v : ℕ) :
    asciiNat (N + 1) v = asciiStep (asciiNat N (v / 256)) (v % 256) := by
  rw [asciiNat]
  rw [List.range_succ, List.foldl_append]
  have hlast : v / 256 ^ (N + 1 - 1 - N) % 256 = v % 256 := by simp
  show asciiStep _ (v / 256 ^ (N + 1 - 1 - N) % 256) = _
  rw [hlast]
  congr 1
  refine List.foldl_ext _ _ _ ?_
  intro temp i hi
  have hi' := List.mem_range.mp hi
  rw [Nat.div_div_eq_div_mul, ← pow_succ', show N + 1 - 1 - i = N - 1 - i + 1 by omega]

theorem asciiNat_zero (N : ℕ) : asciiNat N 0 = 0 := by
  induction N with
  | zero => rfl
  | succ N ih =>
      rw [asciiNat_succ, Nat.zero_div, ih]
      rfl

/-- The last bytes of a string are the low bytes of its number. -/
theorem asciiNat_append (as bs : List UInt8) :
    asciiNat bs.length (beNat (as ++ bs))
      = bs.foldl (fun temp b => asciiStep temp b.toNat) 0 := by
  induction bs using List.reverseRecOn with
  | nil => rfl
  | append_singleton bs b ih =>
      have hb : b.toNat < 256 := b.toNat_lt
      rw [List.length_append, List.length_singleton, asciiNat_succ,
        ← List.append_assoc, beNat_concat, List.foldl_append,
        show (beNat (as ++ bs) * 256 + b.toNat) / 256 = beNat (as ++ bs) by omega,
        show (beNat (as ++ bs) * 256 + b.toNat) % 256 = b.toNat by omega, ih]
      rfl

/-- A string shorter than `N`, the missing bytes being zero. -/
theorem asciiNat_beNat {N : ℕ} {bs : List UInt8} (h : bs.length ≤ N) :
    asciiNat N (beNat bs) = bs.foldl (fun temp b => asciiStep temp b.toNat) 0 := by
  induction bs using List.reverseRecOn generalizing N with
  | nil => exact asciiNat_zero N
  | append_singleton bs b ih =>
      have hb : b.toNat < 256 := b.toNat_lt
      rw [List.length_append, List.length_singleton] at h
      obtain ⟨M, rfl⟩ : ∃ M, N = M + 1 := ⟨N - 1, by omega⟩
      rw [asciiNat_succ, beNat_concat, List.foldl_append,
        show (beNat bs * 256 + b.toNat) / 256 = beNat bs by omega,
        show (beNat bs * 256 + b.toNat) % 256 = b.toNat by omega, ih (by omega)]
      rfl

/-! ## Decimal strings -/

/-- `0` to `9`. -/
def IsDigit (b : UInt8) : Prop := 48 ≤ b.toNat ∧ b.toNat ≤ 57

instance (b : UInt8) : Decidable (IsDigit b) := inferInstanceAs (Decidable (_ ∧ _))

/-- The number a string of digits denotes. -/
def decimal (bs : List UInt8) : ℕ :=
  bs.foldl (fun n b => n * 10 + (b.toNat - 48)) 0

theorem foldl_asciiStep {bs : List UInt8} (h : ∀ b ∈ bs, IsDigit b) :
    bs.foldl (fun temp b => asciiStep temp b.toNat) 0 = decimal bs := by
  refine List.foldl_ext _ _ _ ?_
  intro n b hb
  exact if_pos (h b hb).1

theorem decimal_lt {bs : List UInt8} (h : ∀ b ∈ bs, IsDigit b) :
    decimal bs < 10 ^ bs.length := by
  induction bs using List.reverseRecOn with
  | nil => exact Nat.one_pos
  | append_singleton bs b ih =>
      have hlast := h b (List.mem_append_right _ List.mem_cons_self)
      have hinit := ih (fun b' hb' => h b' (List.mem_append_left _ hb'))
      have hval : decimal (bs ++ [b]) = decimal bs * 10 + (b.toNat - 48) := by
        rw [decimal]
        rw [List.foldl_append]
        rfl
      rw [IsDigit] at hlast
      rw [hval, List.length_append, List.length_singleton, pow_succ]
      omega

/-! ## BitsToAscii -/

namespace BitsToAscii

structure Signals where
  b2n : ℕ → F
  bytes : ℕ → F
  out : F

/-- `BitsToAscii(from, N)` with its `AsciiToNum(N)`. -/
structure Constraints (lib : Circomlib) (lo N : ℕ) (bits : ℕ → F)
    (s : Signals) : Prop where
  b2n : ∀ i < N, lib.bits2Num 8 (fun j => bits (lo + i * 8 + j)) (s.b2n i)

structure Hints (N : ℕ) (s : Signals) : Prop where
  bytes : ∀ i < N, s.bytes (N - 1 - i) = s.b2n i
  out : s.out = asciiToNum N s.bytes

/-- With honest hints, the number in the bytes of `v` from bit `from` on. -/
theorem Constraints.out_eq {lib : Circomlib} (hlib : lib.Arithmetic) {lo N : ℕ}
    (hN : lo + N * 8 ≤ 256) {bits : ℕ → F} {v : ℕ} (hv : v < 2 ^ 256)
    (hbits : ∀ i < 256, bits i = natBits v i) {s : Signals}
    (h : Constraints lib lo N bits s) (hh : Hints N s) :
    s.out = (asciiNat N (v / 2 ^ lo) : F) := by
  have hbyte : ∀ i < N, s.b2n i = ((v / 2 ^ lo / 256 ^ i % 256 : ℕ) : F) := by
    intro i hi
    have hIs : IsBits 256 bits := by
      intro j hj
      rw [hbits j hj]
      exact isBits_natBits 256 v j hj
    rw [(hlib.bits2Num _ _ _).mp (h.b2n i hi), weighted_window hIs (by omega),
      bitsNat_congr hbits, bitsNat_natBits hv, pow_add, ← Nat.div_div_eq_div_mul,
      Nat.mul_comm i 8, pow_mul]
    rfl
  have hbytes : ∀ i < N, s.bytes i
      = ((v / 2 ^ lo / 256 ^ (N - 1 - i) % 256 : ℕ) : F) := by
    intro i hi
    rw [← hbyte (N - 1 - i) (by omega), ← hh.bytes (N - 1 - i) (by omega)]
    congr 1
    omega
  have hsum := asciiToNum_natCast N (fun i => v / 2 ^ lo / 256 ^ (N - 1 - i) % 256)
    (fun i _ => Nat.mod_lt _ (by omega))
  rw [hh.out]
  refine Eq.trans ?_ hsum
  rw [asciiToNum]
  refine List.foldl_ext _ _ _ ?_
  intro temp i hi
  rw [hbytes i (List.mem_range.mp hi)]

/-- The signals of an honest prover. -/
def honest (lo N : ℕ) (bits : ℕ → F) : Signals :=
  let b2n := fun i => weighted 8 (fun j => bits (lo + i * 8 + j))
  let bytes := fun i => b2n (N - 1 - i)
  { b2n, bytes, out := asciiToNum N bytes }

theorem honest_constraints {lib : Circomlib} (hlib : lib.Arithmetic) (lo N : ℕ)
    (bits : ℕ → F) : Constraints lib lo N bits (honest lo N bits) := by
  constructor
  intro i _
  exact (hlib.bits2Num _ _ _).mpr rfl

theorem honest_hints (lo N : ℕ) (bits : ℕ → F) : Hints N (honest lo N bits) := by
  constructor
  · intro i hi
    show (honest lo N bits).b2n (N - 1 - (N - 1 - i)) = (honest lo N bits).b2n i
    congr 1
    omega
  · rfl

end BitsToAscii

/-! ## Str2Timestamp -/

namespace Str2Timestamp

structure Signals where
  bits : ℕ → F
  ascii : BitsToAscii.Signals

/-- `Str2Timestamp()`; its output is the one of `BitsToAscii`. -/
structure Constraints (lib : Circomlib) (x : F) (s : Signals) : Prop where
  bits : lib.num2Bits 256 x s.bits
  ascii : BitsToAscii.Constraints lib 0 10 s.bits s.ascii

structure Hints (x : F) (s : Signals) : Prop where
  bits : CanonicalBits x s.bits
  ascii : BitsToAscii.Hints 10 s.ascii

/-- **HONEST PARSING** of a decimal string of at most ten digits. -/
theorem Constraints.out_eq {lib : Circomlib} (hlib : lib.Arithmetic) {digits : List UInt8}
    (hlen : digits.length ≤ 10) (hdigits : ∀ b ∈ digits, IsDigit b) {s : Signals}
    (h : Constraints lib (beNat digits : F) s) (hh : Hints (beNat digits : F) s) :
    s.ascii.out = (decimal digits : F) := by
  have hlt : beNat digits < 2 ^ 80 := lt_of_lt_of_le (beNat_lt digits) (by
    calc 256 ^ digits.length ≤ 256 ^ 10 := Nat.pow_le_pow_right (by norm_num) hlen
      _ = 2 ^ 80 := by norm_num)
  have hval : ((beNat digits : ℕ) : F).val = beNat digits := ZMod.val_natCast_of_lt
    (lt_trans hlt (lt_trans (by norm_num) two_pow_252_lt))
  rw [h.ascii.out_eq hlib (by norm_num) (val_lt_two_pow _) hh.bits hh.ascii, hval,
    pow_zero, Nat.div_one, asciiNat_beNat hlen, foldl_asciiStep hdigits]

/-- The signals of an honest prover. -/
def honest (x : F) : Signals :=
  ⟨natBits x.val, BitsToAscii.honest 0 10 (natBits x.val)⟩

theorem honest_constraints {lib : Circomlib} (hlib : lib.Arithmetic) (x : F) :
    Constraints lib x (honest x) :=
  ⟨num2Bits_natBits hlib x, BitsToAscii.honest_constraints hlib 0 10 _⟩

theorem honest_hints (x : F) : Hints x (honest x) :=
  ⟨fun _ _ => rfl, BitsToAscii.honest_hints 0 10 _⟩

end Str2Timestamp

end Albus.Circuits
