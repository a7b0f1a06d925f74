import Mathlib.Data.Nat.Log
import Mathlib.Tactic.Linarith

/-! # The number of a big integer

    `Number(x)` of an integer: the nearest value with a mantissa of 53 bits, the
    even one of two.  Against a value that has such a mantissa anyway, an integer
    and its number compare alike. -/

namespace Albus.Lib.JsNumber

/-- Every integer up to here is a number. -/
def maxExact : ℕ := 2 ^ 53

/-- `Number.MAX_SAFE_INTEGER` -/
def maxSafeInteger : ℕ := maxExact - 1

/-- `Number.isSafeInteger` -/
def IsSafe (t : ℤ) : Prop := t.natAbs ≤ maxSafeInteger

instance (t : ℤ) : Decidable (IsSafe t) :=
  inferInstanceAs (Decidable (t.natAbs ≤ maxSafeInteger))

/-- The nearest multiple of `unit`, the even one of two. -/
def roundToEven (unit n : ℕ) : ℕ :=
  let q := n / unit
  let r := n % unit
  if unit < 2 * r ∨ (unit = 2 * r ∧ q % 2 = 1) then (q + 1) * unit else q * unit

def ofNat (n : ℕ) : ℕ :=
  if n < maxExact then n else roundToEven (2 ^ (Nat.log 2 n - 52)) n

/-- `Number(x)`. -/
def ofInt (z : ℤ) : ℤ := if 0 ≤ z then ofNat z.natAbs else -ofNat z.natAbs

theorem roundToEven_ge (unit n : ℕ) : n / unit * unit ≤ roundToEven unit n := by
  rw [roundToEven]
  split
  · exact Nat.mul_le_mul_right unit (Nat.le_succ _)
  · exact Nat.le_refl _

theorem ofNat_of_lt {n : ℕ} (h : n < maxExact) : ofNat n = n := if_pos h

/-- A large integer stays large. -/
theorem maxExact_le_ofNat {n : ℕ} (h : maxExact ≤ n) : maxExact ≤ ofNat n := by
  have hlog : 53 ≤ Nat.log 2 n := Nat.le_log_of_pow_le (by decide) h
  have hpow : 2 ^ Nat.log 2 n ≤ n := Nat.pow_log_le_self 2 (by
    rintro rfl
    exact absurd h (by decide))
  have hsplit : 2 ^ 52 * 2 ^ (Nat.log 2 n - 52) = 2 ^ Nat.log 2 n := by
    rw [← pow_add]
    congr 1
    omega
  -- what is left of the mantissa is still a power of two at least
  have hquot : 2 ^ 52 ≤ n / 2 ^ (Nat.log 2 n - 52) := by
    rw [Nat.le_div_iff_mul_le (Nat.pow_pos (by decide)), hsplit]
    exact hpow
  rw [ofNat, if_neg (Nat.not_lt.mpr h)]
  calc maxExact = 2 ^ 53 := rfl
    _ ≤ 2 ^ Nat.log 2 n := Nat.pow_le_pow_right (by decide) hlog
    _ = 2 ^ 52 * 2 ^ (Nat.log 2 n - 52) := hsplit.symm
    _ ≤ n / 2 ^ (Nat.log 2 n - 52) * 2 ^ (Nat.log 2 n - 52) := Nat.mul_le_mul_right _ hquot
    _ ≤ roundToEven (2 ^ (Nat.log 2 n - 52)) n := roundToEven_ge _ _

/-- **COMPARING THE NUMBER** with a safe integer is comparing the integer. -/
theorem ofInt_lt_iff {z t : ℤ} (ht : IsSafe t) : ofInt z < t ↔ z < t := by
  rw [IsSafe, maxSafeInteger] at ht
  have hpos : 0 < maxExact := by decide
  rw [ofInt]
  by_cases hexact : z.natAbs < maxExact
  · rw [ofNat_of_lt hexact]
    split <;> omega
  · have hlarge := maxExact_le_ofNat (Nat.not_lt.mp hexact)
    split <;> omega

theorem ofInt_pos_iff (z : ℤ) : 0 < ofInt z ↔ 0 < z := by
  rw [ofInt]
  by_cases hexact : z.natAbs < maxExact
  · rw [ofNat_of_lt hexact]
    split <;> omega
  · have hlarge := maxExact_le_ofNat (Nat.not_lt.mp hexact)
    have hpos : 0 < maxExact := by decide
    split <;> omega

/-- One more than the exact range falls back to its even neighbour. -/
example : ofInt (2 ^ 53 + 1) = 2 ^ 53 := by decide

end Albus.Lib.JsNumber
