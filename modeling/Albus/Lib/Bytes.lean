import Mathlib.Data.List.Induction
import Mathlib.Tactic.Ring
import Mathlib.Tactic.Linarith

/-! # Byte strings and the numbers they denote

    Fixed-size byte arrays and the big-endian reading of a byte string, with the
    facts the program's two decoders of one 32-byte word need: how the reading
    splits at a position, and what its low part is. -/

namespace Albus.Lib

/-- A byte array of fixed size. -/
abbrev Bytes (n : Nat) := Vector UInt8 n

/-- The number a byte string denotes, most significant byte first. -/
def beNat (bs : List UInt8) : Nat :=
  bs.foldl (fun acc b => acc * 256 + b.toNat) 0

@[simp] theorem beNat_nil : beNat [] = 0 := rfl

theorem beNat_concat (bs : List UInt8) (b : UInt8) :
    beNat (bs ++ [b]) = beNat bs * 256 + b.toNat := by
  simp [beNat]

/-- A byte string's number, split at a position. -/
theorem beNat_append (as bs : List UInt8) :
    beNat (as ++ bs) = beNat as * 256 ^ bs.length + beNat bs := by
  induction bs using List.reverseRecOn with
  | nil => simp
  | append_singleton bs b ih =>
      rw [← List.append_assoc, beNat_concat, beNat_concat, ih]
      rw [List.length_append, List.length_singleton, pow_succ]
      ring

theorem beNat_lt (bs : List UInt8) : beNat bs < 256 ^ bs.length := by
  induction bs using List.reverseRecOn with
  | nil => simp
  | append_singleton bs b ih =>
      have hb : b.toNat < 256 := b.toNat_lt
      rw [beNat_concat, List.length_append, List.length_singleton, pow_succ]
      omega

/-- The leading bytes are the number shifted. -/
theorem beNat_append_div (as bs : List UInt8) :
    beNat (as ++ bs) / 256 ^ bs.length = beNat as := by
  have hlt := beNat_lt bs
  rw [beNat_append, Nat.mul_comm, Nat.mul_add_div (Nat.pow_pos (by omega)),
    Nat.div_eq_of_lt hlt, Nat.add_zero]

/-- The last `k` bytes are the number modulo `256 ^ k`. -/
theorem beNat_drop (bs : List UInt8) {k : Nat} (hk : k ≤ bs.length) :
    beNat (bs.drop (bs.length - k)) = beNat bs % 256 ^ k := by
  have hsplit := beNat_append (bs.take (bs.length - k)) (bs.drop (bs.length - k))
  have hlen : (bs.drop (bs.length - k)).length = k := by
    rw [List.length_drop]
    omega
  rw [List.take_append_drop, hlen] at hsplit
  have hlt : beNat (bs.drop (bs.length - k)) < 256 ^ k := by
    have h0 := beNat_lt (bs.drop (bs.length - k))
    rwa [hlen] at h0
  rw [hsplit, Nat.mul_add_mod_self_right, Nat.mod_eq_of_lt hlt]

/-- The number a fixed-size array denotes. -/
def Bytes.toNum {n : Nat} (b : Bytes n) : Nat := beNat b.toList

theorem Bytes.toNum_lt {n : Nat} (b : Bytes n) : b.toNum < 256 ^ n := by
  have h0 := beNat_lt b.toList
  rwa [Vector.length_toList] at h0

/-- The fixed-size array denoting a number, its high part cut off. -/
def Bytes.ofNum (k n : Nat) : Bytes k :=
  Vector.ofFn (fun i => UInt8.ofNat (n / 256 ^ (k - 1 - i.val)))

example : (Bytes.ofNum 4 0x01020304).toList = [1, 2, 3, 4] := by decide

end Albus.Lib
