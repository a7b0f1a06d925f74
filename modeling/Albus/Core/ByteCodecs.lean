import Albus.Lib.LittleEndian
import Mathlib.Data.Nat.Digits.Lemmas
import Mathlib.Data.Nat.Size

/-! # BigInts and byte buffers

    `crypto/ff/utils.ts`, `crypto/utils.ts` and `crypto/ff/scalar.ts`.  The first goes
    through a `DataView` in words of four, two and one bytes, the second through a
    base-16 text, the third through both.  A `BigInt` is an integer: `&` with a mask and
    `>>` are the remainder and the quotient rounded down. -/

namespace Albus.Core

open Albus.Lib

namespace FfUtils

/-- The loop of `leBuff2int` at offset `i`, on what is left of the buffer. -/
def leBuff2intLoop (res : ℕ) (i : ℕ) : List UInt8 → ℕ
  | a :: b :: c :: d :: rest =>
      leBuff2intLoop (res + leNat [a, b, c, d] <<< (i * 8)) (i + 4) rest
  | a :: b :: rest => leBuff2intLoop (res + leNat [a, b] <<< (i * 8)) (i + 2) rest
  | a :: rest => leBuff2intLoop (res + a.toNat <<< (i * 8)) (i + 1) rest
  | [] => res

def leBuff2int (buff : List UInt8) : ℤ := leBuff2intLoop 0 0 buff

/-- The loop of `beBuff2int` at offset `i`, on what is left of the buffer, last byte
    first. -/
def beBuff2intLoop (res : ℕ) (i : ℕ) : List UInt8 → ℕ
  | d :: c :: b :: a :: rest =>
      beBuff2intLoop (res + beNat [a, b, c, d] <<< (i * 8)) (i + 4) rest
  | b :: a :: rest => beBuff2intLoop (res + beNat [a, b] <<< (i * 8)) (i + 2) rest
  | a :: rest => beBuff2intLoop (res + a.toNat <<< (i * 8)) (i + 1) rest
  | [] => res

def beBuff2int (buff : List UInt8) : ℤ := beBuff2intLoop 0 0 buff.reverse

/-- The loop of `leInt2Buff` with `len` bytes to go: the bytes written, and what is
    left of the number. -/
def leInt2BuffLoop : ℕ → ℤ → List UInt8 × ℤ
  | len + 4, r =>
      let rest := leInt2BuffLoop len (r / 2 ^ 32)
      (leBytes 4 (r % 2 ^ 32).toNat ++ rest.1, rest.2)
  | len + 2, r =>
      let rest := leInt2BuffLoop len (r / 2 ^ 16)
      (leBytes 2 (r % 2 ^ 16).toNat ++ rest.1, rest.2)
  | len + 1, r =>
      let rest := leInt2BuffLoop len (r / 2 ^ 8)
      (leBytes 1 (r % 2 ^ 8).toNat ++ rest.1, rest.2)
  | 0, r => ([], r)

/-- `leInt2Buff` with its length given. -/
def leInt2Buff (n : ℤ) (len : ℕ) : Except String (List UInt8) :=
  let written := leInt2BuffLoop len n
  if written.2 ≠ 0 then .error "Number does not fit in this length" else .ok written.1

theorem leBuff2intLoop_eq (res i : ℕ) (buff : List UInt8) :
    leBuff2intLoop res i buff = res + leNat buff * 256 ^ i := by
  have hpow : ∀ k, (2 : ℕ) ^ (k * 8) = 256 ^ k := by
    intro k
    rw [mul_comm, pow_mul]
    norm_num
  fun_induction leBuff2intLoop res i buff with
  | case1 res i a b c d rest ih =>
      have hsplit : leNat (a :: b :: c :: d :: rest)
          = leNat [a, b, c, d] + 256 ^ 4 * leNat rest := leNat_append [a, b, c, d] rest
      rw [ih, hsplit, Nat.shiftLeft_eq, hpow, pow_add]
      ring
  | case2 res i a b rest _ ih =>
      have hsplit : leNat (a :: b :: rest) = leNat [a, b] + 256 ^ 2 * leNat rest :=
        leNat_append [a, b] rest
      rw [ih, hsplit, Nat.shiftLeft_eq, hpow, pow_add]
      ring
  | case3 res i a rest _ _ ih =>
      rw [ih, leNat_cons, Nat.shiftLeft_eq, hpow, pow_succ]
      ring
  | case4 res i => simp

/-- **`leBuff2int` READS THE BUFFER**, whatever its length. -/
theorem leBuff2int_eq (buff : List UInt8) : leBuff2int buff = leNat buff := by
  rw [leBuff2int, leBuff2intLoop_eq]
  simp

/-- Read from its end, a buffer is read like its mirror image. -/
theorem beBuff2intLoop_eq (res i : ℕ) (buff : List UInt8) :
    beBuff2intLoop res i buff = leBuff2intLoop res i buff := by
  fun_induction beBuff2intLoop res i buff with
  | case1 res i d c b a rest ih =>
      rw [ih, ← leNat_reverse]
      rfl
  | case2 res i b a rest hne ih =>
      rw [ih, ← leNat_reverse]
      cases rest with
      | nil => rfl
      | cons c rest =>
          cases rest with
          | nil => rfl
          | cons d rest => exact absurd rfl (hne c d rest)
  | case3 res i a rest hne hne' ih =>
      rw [ih]
      cases rest with
      | nil => rfl
      | cons b rest => exact absurd rfl (hne' b rest)
  | case4 res i => rfl

/-- **`beBuff2int` READS THE BUFFER**, whatever its length. -/
theorem beBuff2int_eq (buff : List UInt8) : beBuff2int buff = beNat buff := by
  rw [beBuff2int, beBuff2intLoop_eq, leBuff2intLoop_eq, leNat_reverse]
  simp

/-- One turn of the writing loop: `k` bytes now, the rest later. -/
private theorem write_word {k len : ℕ} {r m : ℤ} (hm : m = 256 ^ k)
    (ih : leInt2BuffLoop len (r / m) = (lowBytes len (r / m), r / m / 256 ^ len)) :
    (leBytes k (r % m).toNat ++ (leInt2BuffLoop len (r / m)).1,
      (leInt2BuffLoop len (r / m)).2) = (lowBytes (len + k) r, r / 256 ^ (len + k)) := by
  rw [ih, hm, Nat.add_comm len k, lowBytes_add, pow_add,
    Int.ediv_ediv_of_nonneg (by positivity)]
  rfl

theorem leInt2BuffLoop_eq (len : ℕ) (r : ℤ) :
    leInt2BuffLoop len r = (lowBytes len r, r / 256 ^ len) := by
  fun_induction leInt2BuffLoop len r with
  | case1 len r rest ih => exact write_word (k := 4) (by norm_num) ih
  | case2 len r _ rest ih => exact write_word (k := 2) (by norm_num) ih
  | case3 len r _ _ rest ih => exact write_word (k := 1) (by norm_num) ih
  | case4 r => simp [lowBytes]

/-- **`leInt2Buff` WRITES A NUMBER THAT FITS.** -/
theorem leInt2Buff_of_lt {n len : ℕ} (h : n < 256 ^ len) :
    leInt2Buff n len = .ok (leBytes len n) := by
  have hrest : (n : ℤ) / 256 ^ len = 0 :=
    Int.ediv_eq_zero_of_lt (Int.natCast_nonneg n) (by exact_mod_cast h)
  rw [leInt2Buff, leInt2BuffLoop_eq, lowBytes_natCast]
  exact if_neg (not_not.mpr hrest)
end FfUtils

namespace Utils

/-- The digits of `n.toString(16)`, for `n` not negative. -/
def toHex (n : ℕ) : List ℕ := if n = 0 then [0] else (Nat.digits 16 n).reverse

/-- The number a base-16 text denotes. -/
def ofHex (hex : List ℕ) : ℕ := hex.foldl (fun acc d => acc * 16 + d) 0

/-- `fromString(.., 'base16')`: two digits a byte. -/
def ofHexPairs : List ℕ → List UInt8
  | a :: b :: rest => UInt8.ofNat (16 * a + b) :: ofHexPairs rest
  | _ => []

def hexToBytes (hex : List ℕ) (minLength : ℕ) : List UInt8 :=
  let input := if hex.length % 2 ≠ 0 then 0 :: hex else hex
  let paddedLength := max input.length (minLength * 2)
  ofHexPairs (List.replicate (paddedLength - input.length) 0 ++ input)

def bytesToHex (b : List UInt8) : List ℕ := b.flatMap fun x => [x.toNat / 16, x.toNat % 16]

/-- `BigInt` does not read the text `0x` of an empty buffer. -/
def bytesToBigInt (b : List UInt8) : Except String ℤ :=
  if b = [] then .error "Cannot convert 0x to a BigInt" else .ok (ofHex (bytesToHex b))

/-- The text of a negative number starts with a minus sign. -/
def bigintToBytes (n : ℤ) (minLength : ℕ) : Except String (List UInt8) :=
  if n < 0 then .error "Non-base16 character" else .ok (hexToBytes (toHex n.toNat) minLength)

private theorem foldl_bytesToHex (b : List UInt8) (acc : ℕ) :
    (bytesToHex b).foldl (fun acc d => acc * 16 + d) acc
      = b.foldl (fun acc x => acc * 256 + x.toNat) acc := by
  induction b generalizing acc with
  | nil => rfl
  | cons x b ih =>
      have hstep : (acc * 16 + x.toNat / 16) * 16 + x.toNat % 16 = acc * 256 + x.toNat := by
        omega
      show (bytesToHex b).foldl _ ((acc * 16 + x.toNat / 16) * 16 + x.toNat % 16) = _
      rw [ih, hstep, List.foldl_cons]

theorem bytesToBigInt_eq {b : List UInt8} (h : b ≠ []) :
    bytesToBigInt b = .ok (beNat b : ℤ) := by
  rw [bytesToBigInt, if_neg h, ofHex, foldl_bytesToHex, beNat]

private theorem foldl_ofHexPairs (hex : List ℕ) (heven : hex.length % 2 = 0)
    (hdigits : ∀ d ∈ hex, d < 16) (acc : ℕ) :
    (ofHexPairs hex).foldl (fun acc x => acc * 256 + x.toNat) acc
      = hex.foldl (fun acc d => acc * 16 + d) acc := by
  fun_induction ofHexPairs hex generalizing acc with
  | case1 a b rest ih =>
      have ha : a < 16 := hdigits a List.mem_cons_self
      have hb : b < 16 := hdigits b (List.mem_cons_of_mem _ List.mem_cons_self)
      have hbyte : (UInt8.ofNat (16 * a + b)).toNat = 16 * a + b := by
        rw [UInt8.toNat_ofNat']
        omega
      have hstep : acc * 256 + (16 * a + b) = (acc * 16 + a) * 16 + b := by ring
      have hrest : rest.length % 2 = 0 := by
        rw [List.length_cons, List.length_cons] at heven
        omega
      rw [List.foldl_cons, hbyte, hstep, ih hrest (fun d hd => hdigits d (by simp [hd]))]
      rfl
  | case2 hex hne =>
      cases hex with
      | nil => rfl
      | cons a rest =>
          cases rest with
          | nil => exact absurd heven (by simp)
          | cons b rest => exact absurd rfl (hne a b rest)

theorem length_ofHexPairs (hex : List ℕ) : (ofHexPairs hex).length = hex.length / 2 := by
  fun_induction ofHexPairs hex with
  | case1 a b rest ih =>
      rw [List.length_cons, ih, List.length_cons, List.length_cons]
      omega
  | case2 hex hne =>
      cases hex with
      | nil => rfl
      | cons a rest =>
          cases rest with
          | nil => simp
          | cons b rest => exact absurd rfl (hne a b rest)

theorem ofHex_toHex (n : ℕ) : ofHex (toHex n) = n := by
  rw [toHex]
  split
  · next h => rw [h]; rfl
  · rw [ofHex, List.foldl_reverse]
    conv_rhs => rw [← Nat.ofDigits_digits 16 n, Nat.ofDigits_eq_foldr]
    congr 1
    funext d acc
    simp only [Nat.cast_id]
    ring

theorem toHex_lt (n : ℕ) : ∀ d ∈ toHex n, d < 16 := by
  intro d hd
  rw [toHex] at hd
  split at hd
  · rw [List.mem_singleton.mp hd]
    norm_num
  · exact Nat.digits_lt_base (by norm_num) (List.mem_reverse.mp hd)

/-- The text of a number other than zero has no zero in front. -/
theorem toHex_eq_cons {n : ℕ} (h : 0 < n) : ∃ d t, toHex n = d :: t ∧ d ≠ 0 := by
  have hdigits : Nat.digits 16 n ≠ [] := Nat.digits_ne_nil_iff_ne_zero.mpr h.ne'
  have hreverse := congrArg List.reverse (List.dropLast_append_getLast hdigits)
  rw [List.reverse_append] at hreverse
  refine ⟨(Nat.digits 16 n).getLast hdigits, (Nat.digits 16 n).dropLast.reverse, ?_,
    Nat.getLast_digit_ne_zero 16 h.ne'⟩
  rw [toHex, if_neg h.ne']
  exact hreverse.symm

theorem length_toHex_pos (n : ℕ) : 0 < (toHex n).length := by
  rw [toHex]
  split
  · exact Nat.one_pos
  · next h => rwa [List.length_reverse, List.length_pos_iff, Ne, Nat.digits_eq_nil_iff_eq_zero]

theorem length_toHex_le {n k : ℕ} (hk : 0 < k) (h : n < 16 ^ k) : (toHex n).length ≤ k := by
  rw [toHex]
  split
  · exact hk
  · rw [List.length_reverse]
    exact (Nat.digits_length_le_iff (by norm_num) n).mpr h

/-- Leading zeros keep the number. -/
theorem ofHex_replicate_append (k : ℕ) (hex : List ℕ) :
    ofHex (List.replicate k 0 ++ hex) = ofHex hex := by
  induction k with
  | zero => rfl
  | succ k ih => exact ih

/-- **`bigintToBytes` WRITES A NUMBER THAT FITS**, padded to the length. -/
theorem bigintToBytes_of_lt {n len : ℕ} (hlen : 0 < len) (h : n < 256 ^ len) :
    bigintToBytes n len = .ok (beBytes len n) := by
  have hdigits : (toHex n).length ≤ len * 2 := by
    apply length_toHex_le (by omega)
    rw [mul_comm, pow_mul]
    exact h
  obtain ⟨input, hinput⟩ : ∃ input,
      (if (toHex n).length % 2 ≠ 0 then 0 :: toHex n else toHex n) = input := ⟨_, rfl⟩
  -- the text made even: at most as long, with the same digits and the same number
  have heven : input.length % 2 = 0 ∧ input.length ≤ len * 2 ∧ ofHex input = n ∧
      ∀ d ∈ input, d < 16 := by
    rw [← hinput]
    split
    · next hodd =>
        rw [List.length_cons]
        refine ⟨by omega, by omega, ?_, ?_⟩
        · exact (ofHex_replicate_append 1 (toHex n)).trans (ofHex_toHex n)
        · intro d hd
          rcases List.mem_cons.mp hd with rfl | hmem
          · norm_num
          · exact toHex_lt n d hmem
    · next hodd => exact ⟨by omega, hdigits, ofHex_toHex n, toHex_lt n⟩
  obtain ⟨hparity, hle, hval, hlt⟩ := heven
  have hpad : (List.replicate (max input.length (len * 2) - input.length) 0 ++ input).length
      = len * 2 := by
    rw [List.length_append, List.length_replicate]
    omega
  have hneg : ¬ (n : ℤ) < 0 := by omega
  rw [bigintToBytes, if_neg hneg, Int.toNat_natCast, hexToBytes, hinput]
  refine congrArg Except.ok (beNat_inj ?_ ?_)
  · rw [length_ofHexPairs, hpad, length_beBytes]
    omega
  · rw [beNat_beBytes_of_lt h, beNat, foldl_ofHexPairs _ (by rw [hpad]; omega) ?_]
    · exact (ofHex_replicate_append _ input).trans hval
    · intro d hd
      rcases List.mem_append.mp hd with hmem | hmem
      · rw [List.eq_of_mem_replicate hmem]
        norm_num
      · exact hlt d hmem

/-! ### Cutting a text -/

theorem ofHex_append (a b : List ℕ) :
    ofHex (a ++ b) = ofHex a * 16 ^ b.length + ofHex b := by
  induction b using List.reverseRecOn with
  | nil => simp [ofHex]
  | append_singleton b d ih =>
      have hlast : ∀ l : List ℕ, ofHex (l ++ [d]) = ofHex l * 16 + d := by
        intro l
        rw [ofHex, List.foldl_append]
        rfl
      rw [← List.append_assoc, hlast, hlast, ih, List.length_append, List.length_singleton,
        pow_succ]
      ring

theorem ofHex_lt {hex : List ℕ} (h : ∀ d ∈ hex, d < 16) : ofHex hex < 16 ^ hex.length := by
  induction hex with
  | nil => exact Nat.one_pos
  | cons d hex ih =>
      have hd := h d List.mem_cons_self
      have hrest := ih fun d hd => h d (List.mem_cons_of_mem _ hd)
      have hcons := ofHex_append [d] hex
      rw [List.singleton_append, show ofHex [d] = d from Nat.zero_add d] at hcons
      rw [hcons, List.length_cons, pow_succ']
      have hmul : d * 16 ^ hex.length ≤ 15 * 16 ^ hex.length :=
        Nat.mul_le_mul_right _ (by omega)
      omega

/-- The digits from `m` on and the digits before it. -/
theorem ofHex_cut {hex : List ℕ} (h : ∀ d ∈ hex, d < 16) {m k : ℕ}
    (hk : hex.length - m = k) :
    ofHex (hex.take m) = ofHex hex / 16 ^ k ∧ ofHex (hex.drop m) = ofHex hex % 16 ^ k := by
  have hlt : ofHex (hex.drop m) < 16 ^ (hex.drop m).length :=
    ofHex_lt fun d hd => h d (List.mem_of_mem_drop hd)
  have hcut := ofHex_append (hex.take m) (hex.drop m)
  rw [List.take_append_drop, List.length_drop, hk] at hcut
  rw [List.length_drop, hk] at hlt
  rw [hcut, mul_comm]
  refine ⟨?_, ?_⟩
  · rw [Nat.mul_add_div (Nat.pow_pos (by omega)), Nat.div_eq_of_lt hlt, add_zero]
  · rw [Nat.mul_add_mod, Nat.mod_eq_of_lt hlt]

end Utils

namespace Scalar

/-- `toRprLE` into `n8` bytes: each word is eight digits of the text, and `v` keeps the
    words that it has room for. -/
def toRprLE (e n8 : ℕ) : List UInt8 :=
  let s := List.replicate 7 0 ++ Utils.toHex e
  let l := ((s.length - 7) * 4 - 1) / 32 + 1
  let v := (List.range (n8 / 4)).map fun i =>
    if i < l then
      Utils.ofHex ((s.take (s.length - 8 * i)).drop (s.length - 8 * i - 8))
    else 0
  let rest := (List.range (n8 - n8 / 4 * 4)).map fun i =>
    UInt8.ofNat (e / 256 ^ (n8 / 4 * 4 + i) % 256)
  v.flatMap (leBytes 4) ++ rest

/-- `padStart` with the digit zero. -/
def padStart (hex : List ℕ) (len : ℕ) : List ℕ :=
  List.replicate (len - hex.length) 0 ++ hex

/-- `fromRprLE` of the first `n8` bytes, word after word. -/
def fromRprLE (buff : List UInt8) (n8 : ℕ) : ℕ :=
  let v := (List.range (n8 / 4)).map fun i => leNat ((buff.drop (4 * i)).take 4)
  Utils.ofHex (v.reverse.flatMap fun ch => padStart (Utils.toHex ch) 8)

/-- The digits of one word. -/
theorem word_eq (e i : ℕ) :
    (let s := List.replicate 7 0 ++ Utils.toHex e
      if i < ((s.length - 7) * 4 - 1) / 32 + 1 then
        Utils.ofHex ((s.take (s.length - 8 * i)).drop (s.length - 8 * i - 8))
      else 0) = e / 256 ^ (4 * i) % 256 ^ 4 := by
  obtain ⟨s, hs⟩ : ∃ s, s = List.replicate 7 0 ++ Utils.toHex e := ⟨_, rfl⟩
  have hdigits : ∀ d ∈ s, d < 16 := by
    intro d hd
    rw [hs] at hd
    rcases List.mem_append.mp hd with hmem | hmem
    · rw [List.eq_of_mem_replicate hmem]
      norm_num
    · exact Utils.toHex_lt e d hmem
  have hval : Utils.ofHex s = e := by
    rw [hs, Utils.ofHex_replicate_append, Utils.ofHex_toHex]
  have hlen : s.length = 7 + (Utils.toHex e).length := by
    rw [hs, List.length_append, List.length_replicate]
  have hpos := Utils.length_toHex_pos e
  have hlt : e < 16 ^ (Utils.toHex e).length := by
    have hbound := Utils.ofHex_lt (Utils.toHex_lt e)
    rwa [Utils.ofHex_toHex] at hbound
  have hpow : (256 : ℕ) ^ (4 * i) = 16 ^ (8 * i) := by
    rw [show (256 : ℕ) = 16 ^ 2 by norm_num, ← pow_mul]
    congr 1
    omega
  rw [← hs, hpow]
  show (if i < ((s.length - 7) * 4 - 1) / 32 + 1 then _ else 0) = _
  by_cases hi : i < ((s.length - 7) * 4 - 1) / 32 + 1
  · have htake : ∀ d ∈ s.take (s.length - 8 * i), d < 16 :=
      fun d hd => hdigits d (List.mem_of_mem_take hd)
    have hcut : (s.take (s.length - 8 * i)).length - (s.length - 8 * i - 8) = 8 := by
      rw [List.length_take]
      omega
    rw [if_pos hi, (Utils.ofHex_cut htake hcut).2,
      (Utils.ofHex_cut hdigits (k := 8 * i) (by omega)).1, hval,
      show (256 : ℕ) ^ 4 = 16 ^ 8 by norm_num]
  · -- the text has no digit there
    have hzero : e < 16 ^ (8 * i) := hlt.trans_le (Nat.pow_le_pow_right (by omega) (by omega))
    rw [if_neg hi, Nat.div_eq_of_lt hzero, Nat.zero_mod]

theorem flatMap_words (e k : ℕ) :
    ((List.range k).map fun i => e / 256 ^ (4 * i) % 256 ^ 4).flatMap (leBytes 4)
      = leBytes (4 * k) e := by
  induction k with
  | zero => rfl
  | succ k ih =>
      rw [List.range_succ, List.map_append, List.flatMap_append, ih, Nat.mul_succ,
        leBytes_add, List.map_singleton, List.flatMap_singleton, leBytes_mod]

/-- **`toRprLE` WRITES THE BYTES**, the lowest first. -/
theorem toRprLE_eq (e k : ℕ) : toRprLE e (4 * k) = leBytes (4 * k) e := by
  have hk : 4 * k / 4 = k := Nat.mul_div_cancel_left k (by omega)
  have hrest : 4 * k - k * 4 = 0 := by omega
  simp only [toRprLE, hk, hrest, List.range_zero, List.map_nil, List.append_nil]
  rw [← flatMap_words]
  congr 1
  exact List.map_congr_left fun i _ => word_eq e i

theorem ofHex_padStart (ch len : ℕ) : Utils.ofHex (padStart (Utils.toHex ch) len) = ch := by
  rw [padStart, Utils.ofHex_replicate_append, Utils.ofHex_toHex]

theorem length_padStart {ch len : ℕ} (hlen : 0 < len) (h : ch < 16 ^ len) :
    (padStart (Utils.toHex ch) len).length = len := by
  have hle := Utils.length_toHex_le hlen h
  rw [padStart, List.length_append, List.length_replicate]
  omega

/-- **`fromRprLE` READS THEM.** -/
theorem fromRprLE_eq (buff : List UInt8) {k : ℕ} (h : 4 * k ≤ buff.length) :
    fromRprLE buff (4 * k) = leNat (buff.take (4 * k)) := by
  have hk : 4 * k / 4 = k := Nat.mul_div_cancel_left k (by omega)
  rw [fromRprLE, hk]
  have hwords : ∀ n ≤ k,
      (((List.range n).map fun i => leNat ((buff.drop (4 * i)).take 4)).reverse.flatMap
        fun ch => padStart (Utils.toHex ch) 8).length = 8 * n ∧
      Utils.ofHex (((List.range n).map fun i =>
        leNat ((buff.drop (4 * i)).take 4)).reverse.flatMap
          fun ch => padStart (Utils.toHex ch) 8) = leNat (buff.take (4 * n)) := by
    intro n
    induction n with
    | zero => exact fun _ => ⟨rfl, rfl⟩
    | succ n ih =>
        intro hn
        obtain ⟨hlen, hval⟩ := ih (by omega)
        have hword : leNat ((buff.drop (4 * n)).take 4) < 16 ^ 8 :=
          (leNat_lt _).trans_le (Nat.pow_le_pow_right (by omega) (List.length_take_le _ _))
        rw [List.range_succ, List.map_append, List.reverse_append, List.map_singleton,
          List.reverse_singleton, List.singleton_append, List.flatMap_cons]
        refine ⟨?_, ?_⟩
        · rw [List.length_append, hlen, length_padStart (by omega) hword]
          omega
        · rw [Utils.ofHex_append, hlen, hval, ofHex_padStart, Nat.mul_succ, List.take_add,
            leNat_append, List.length_take, Nat.min_eq_left (by omega)]
          have hpow : (256 : ℕ) ^ (4 * n) = 16 ^ (8 * n) := by
            rw [show (256 : ℕ) = 16 ^ 2 by norm_num, ← pow_mul]
            congr 1
            omega
          rw [hpow, mul_comm, add_comm]
  exact (hwords k le_rfl).2

/-- The bits of a base-16 digit. -/
def hexLen : List ℕ := [0, 1, 2, 2, 3, 3, 3, 3, 4, 4, 4, 4, 4, 4, 4, 4]

/-- The text of a negative number starts with a minus sign, which is no digit: `none` is
    `NaN`. -/
def bitLength (a : ℤ) : Option ℕ :=
  if a < 0 then none
  else
    let aS := Utils.toHex a.toNat
    some ((aS.length - 1) * 4 + hexLen.getD (aS.headD 0) 0)

/-- **`bitLength` COUNTS THE BITS.** -/
theorem bitLength_natCast (n : ℕ) : bitLength n = some n.size := by
  have hneg : ¬ (n : ℤ) < 0 := by omega
  rw [bitLength, if_neg hneg, Int.toNat_natCast]
  rcases Nat.eq_zero_or_pos n with rfl | hpos
  · rfl
  obtain ⟨d, t, hdt, hd⟩ := Utils.toHex_eq_cons hpos
  have hlt := Utils.toHex_lt n
  rw [hdt] at hlt
  have hd16 : d < 16 := hlt d List.mem_cons_self
  have ht : Utils.ofHex t < 16 ^ t.length :=
    Utils.ofHex_lt fun x hx => hlt x (List.mem_cons_of_mem _ hx)
  have hn : n = d * 16 ^ t.length + Utils.ofHex t := by
    rw [← Utils.ofHex_toHex n, hdt, ← List.singleton_append, Utils.ofHex_append]
    simp [Utils.ofHex]
  have hbits : ∀ d < 16, d ≠ 0 → 0 < hexLen.getD d 0 ∧ d < 2 ^ hexLen.getD d 0 ∧
      2 ^ (hexLen.getD d 0 - 1) ≤ d := by decide
  obtain ⟨hfirst, hupper, hlower⟩ := hbits d hd16 hd
  have hpow : (16 : ℕ) ^ t.length = 2 ^ (t.length * 4) := by
    rw [mul_comm, pow_mul]
    norm_num
  rw [hdt]
  refine congrArg some (le_antisymm ?_ ?_)
  · show t.length * 4 + hexLen.getD d 0 ≤ n.size
    rw [show t.length * 4 + hexLen.getD d 0 = t.length * 4 + (hexLen.getD d 0 - 1) + 1 by omega]
    refine Nat.lt_size.mpr ?_
    calc 2 ^ (t.length * 4 + (hexLen.getD d 0 - 1))
        = 2 ^ (hexLen.getD d 0 - 1) * 16 ^ t.length := by rw [hpow, pow_add, mul_comm]
      _ ≤ d * 16 ^ t.length := Nat.mul_le_mul_right _ hlower
      _ ≤ n := by omega
  · show n.size ≤ t.length * 4 + hexLen.getD d 0
    refine Nat.size_le.mpr ?_
    calc n < (d + 1) * 16 ^ t.length := by rw [Nat.succ_mul]; omega
      _ ≤ 2 ^ hexLen.getD d 0 * 16 ^ t.length := Nat.mul_le_mul_right _ hupper
      _ = 2 ^ (t.length * 4 + hexLen.getD d 0) := by rw [hpow, pow_add, mul_comm]

end Scalar

end Albus.Core
