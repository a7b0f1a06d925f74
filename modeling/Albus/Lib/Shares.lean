import Mathlib.Algebra.Order.Floor.Div
import Mathlib.Analysis.Real.Sqrt
import Mathlib.Data.Nat.Sqrt
import Mathlib.Tactic.Linarith

/-! # Shares of a total

    A total `v` is held in `s` shares.  What a share is worth is compared by cross
    products, so that nothing is divided: the price has not fallen from `v / s` to
    `v' / s'` when `v * s' ≤ v' * s`.  A deposit keeps the price if the shares it
    mints are rounded down, a withdrawal if those it burns are rounded up.

    A total of two factors has the square of the shares against it; a part of one
    factor is then worth a root, and its rounding is exact on natural numbers. -/

namespace Albus.Lib

/-- The price of a share has not fallen. -/
def PriceKept (v s v' s' : ℕ) : Prop := v * s' ≤ v' * s

instance (v s v' s' : ℕ) : Decidable (PriceKept v s v' s') := inferInstanceAs (Decidable (_ ≤ _))

theorem PriceKept.refl (v s : ℕ) : PriceKept v s v s := le_refl _

theorem PriceKept.trans {v s v' s' v'' s'' : ℕ} (h : PriceKept v s v' s')
    (h' : PriceKept v' s' v'' s'') (hs' : 0 < s') : PriceKept v s v'' s'' := by
  refine Nat.le_of_mul_le_mul_right ?_ hs'
  calc v * s'' * s' = v * s' * s'' := by ring
    _ ≤ v' * s * s'' := Nat.mul_le_mul_right s'' h
    _ = v' * s'' * s := by ring
    _ ≤ v'' * s' * s := Nat.mul_le_mul_right s h'
    _ = v'' * s * s' := by ring

theorem PriceKept.mono {v s v' w' s' : ℕ} (h : PriceKept v s v' s') (hle : v' ≤ w') :
    PriceKept v s w' s' :=
  le_trans h (Nat.mul_le_mul_right s hle)

/-- A deposit of `x` for `t` shares keeps the price exactly if they are worth no more. -/
theorem priceKept_deposit_iff {v s x t : ℕ} :
    PriceKept v s (v + x) (s + t) ↔ v * t ≤ x * s := by
  rw [PriceKept, Nat.mul_add, Nat.add_mul]
  exact Nat.add_le_add_iff_left

/-- A withdrawal of `x` for `t` shares keeps the price exactly if they are worth no less. -/
theorem priceKept_withdraw_iff {v s x t : ℕ} (hx : x ≤ v) (ht : t ≤ s) :
    PriceKept v s (v - x) (s - t) ↔ x * s ≤ v * t := by
  have hvt : v * t ≤ v * s := Nat.mul_le_mul_left v ht
  have hxs : x * s ≤ v * s := Nat.mul_le_mul_right s hx
  rw [PriceKept, Nat.mul_sub, Nat.sub_mul]
  omega

/-- A reward `r` keeps the price if a part `f` of it is paid out in new shares: `t` of them, worth
    no more than `f` at the price that the rest leaves. -/
theorem priceKept_reward {v s r f t : ℕ} (hf : f ≤ r) (ht : t * (v + r - f) ≤ s * f) :
    PriceKept v s (v + r) (s + t) := by
  rw [priceKept_deposit_iff]
  calc v * t ≤ (v + r - f) * t := Nat.mul_le_mul_right t (by omega)
    _ = t * (v + r - f) := Nat.mul_comm _ _
    _ ≤ s * f := ht
    _ ≤ s * r := Nat.mul_le_mul_left s hf
    _ = r * s := Nat.mul_comm _ _

/-- Fewer shares of the same total are worth more. -/
theorem PriceKept.of_le {v s v' s' t' : ℕ} (h : PriceKept v s v' s') (hle : t' ≤ s') :
    PriceKept v s v' t' :=
  le_trans (Nat.mul_le_mul_left v hle) h

/-- Two totals held in the same shares, as one total of two factors. -/
theorem PriceKept.mul {a b s a' b' s' : ℕ} (ha : PriceKept a s a' s') (hb : PriceKept b s b' s') :
    PriceKept (a * b) (s ^ 2) (a' * b') (s' ^ 2) := by
  have hab := Nat.mul_le_mul ha hb
  rw [PriceKept]
  calc a * b * s' ^ 2 = a * s' * (b * s') := by ring
    _ ≤ a' * s * (b' * s) := hab
    _ = a' * b' * s ^ 2 := by ring

/-! ## Rounding up -/

/-- What rounding `n` up to a multiple of `d` adds. -/
def roundUpGap (n d : ℕ) : ℕ := (d - n % d) % d

theorem mul_ceilDiv {n d : ℕ} (hd : 0 < d) : d * (n ⌈/⌉ d) = n + roundUpGap n d := by
  have hdiv := Nat.div_add_mod n d
  have hmod := Nat.mod_lt n hd
  have hcover : n ≤ d * (n ⌈/⌉ d) := (ceilDiv_le_iff_le_mul hd).mp (le_refl _)
  have hleast : ∀ k, n ≤ d * k → d * (n ⌈/⌉ d) ≤ d * k := by
    intro k hk
    exact Nat.mul_le_mul_left d ((ceilDiv_le_iff_le_mul hd).mpr hk)
  unfold roundUpGap
  rcases Nat.eq_zero_or_pos (n % d) with hzero | hpos
  · have hle := hleast (n / d) (by omega)
    rw [hzero, Nat.sub_zero, Nat.mod_self]
    omega
  · -- the multiple below falls short of `n`
    have hle := hleast (n / d + 1) (by rw [Nat.mul_add]; omega)
    have hlt : n / d < n ⌈/⌉ d := by
      refine lt_of_not_ge ?_
      intro hge
      have hmul := Nat.mul_le_mul_left d hge
      omega
    have hge := Nat.mul_le_mul_left d (Nat.succ_le_of_lt hlt)
    rw [Nat.mod_eq_of_lt (by omega)]
    rw [Nat.succ_eq_add_one, Nat.mul_add] at hge
    rw [Nat.mul_add] at hle
    omega

/-- Rounding up twice is rounding up once. -/
theorem ceilDiv_ceilDiv (n : ℕ) {c d : ℕ} (hc : 0 < c) (hd : 0 < d) :
    (n ⌈/⌉ c) ⌈/⌉ d = n ⌈/⌉ (c * d) := by
  refine eq_of_forall_ge_iff ?_
  intro k
  rw [ceilDiv_le_iff_le_mul hd, ceilDiv_le_iff_le_mul hc, ceilDiv_le_iff_le_mul (Nat.mul_pos hc hd),
    Nat.mul_assoc]

/-! ## Roots -/

/-- `⌈√n⌉` -/
def ceilSqrt (n : ℕ) : ℕ := if n.sqrt * n.sqrt = n then n.sqrt else n.sqrt + 1

theorem ceilSqrt_le_iff {n k : ℕ} : ceilSqrt n ≤ k ↔ n ≤ k * k := by
  have hlow := Nat.sqrt_le n
  unfold ceilSqrt
  split
  · rename_i hsq
    constructor
    · intro hk
      calc n = n.sqrt * n.sqrt := hsq.symm
        _ ≤ k * k := Nat.mul_le_mul hk hk
    · intro hn
      rw [← Nat.sqrt_eq k]
      exact Nat.sqrt_le_sqrt hn
  · rename_i hsq
    constructor
    · intro hk
      exact le_trans (Nat.le_of_lt (Nat.lt_succ_sqrt n)) (Nat.mul_le_mul hk hk)
    · intro hn
      refine Nat.succ_le_of_lt (lt_of_not_ge ?_)
      intro hk
      exact hsq (le_antisymm hlow (le_trans hn (Nat.mul_le_mul hk hk)))

theorem le_ceilSqrt_sq (n : ℕ) : n ≤ ceilSqrt n * ceilSqrt n := ceilSqrt_le_iff.mp (le_refl _)

/-- The shares that the part `f` of a factor `x` is worth, rounded down:
    `⌊s * (1 - √(1 - f / x))⌋`. -/
def rootShares (s x f : ℕ) : ℕ := s - ceilSqrt (s * s * (x - f) ⌈/⌉ x)

/-- The same, rounded up. -/
def rootSharesCeil (s x f : ℕ) : ℕ := s - (s * s * (x - f) / x).sqrt

/-- The shares to mint for a part `f` added to a factor `x`, rounded down:
    `⌊s * (√(1 + f / x) - 1)⌋`. -/
def rootSharesIn (s x f : ℕ) : ℕ := (s * s * (x + f) / x).sqrt - s

theorem ceilSqrt_rootShares_le (s : ℕ) {x : ℕ} (f : ℕ) (hx : 0 < x) :
    ceilSqrt (s * s * (x - f) ⌈/⌉ x) ≤ s := by
  rw [ceilSqrt_le_iff, ceilDiv_le_iff_le_mul hx, Nat.mul_comm x]
  exact Nat.mul_le_mul_left _ (Nat.sub_le x f)

theorem rootShares_le (s x f : ℕ) : rootShares s x f ≤ s := Nat.sub_le _ _

/-- What is left of the shares still covers what is left of the factor. -/
theorem rootShares_spec (s : ℕ) {x : ℕ} (f : ℕ) (hx : 0 < x) :
    s * s * (x - f) ≤ x * ((s - rootShares s x f) * (s - rootShares s x f)) := by
  have hle := ceilSqrt_rootShares_le s f hx
  have hroot : s - rootShares s x f = ceilSqrt (s * s * (x - f) ⌈/⌉ x) := by
    unfold rootShares
    omega
  rw [hroot]
  exact (ceilDiv_le_iff_le_mul hx).mp (le_ceilSqrt_sq _)

/-- `s √r` is the root of `s² r`. -/
theorem mul_sqrt_div (s n x : ℕ) :
    (s : ℝ) * √((n : ℝ) / x) = √((s * s * n : ℕ) / (x : ℝ)) := by
  rw [Nat.cast_mul, mul_div_assoc, Real.sqrt_mul (Nat.cast_nonneg _), Nat.cast_mul,
    Real.sqrt_mul_self (Nat.cast_nonneg _)]

theorem ceil_sqrt_div (n : ℕ) {x : ℕ} (hx : 0 < x) :
    ⌈√((n : ℝ) / x)⌉ = (ceilSqrt (n ⌈/⌉ x) : ℤ) := by
  have hxr : (0 : ℝ) < x := Nat.cast_pos.mpr hx
  rw [← Int.natCast_ceil_eq_ceil (Real.sqrt_nonneg _), Nat.cast_inj]
  refine eq_of_forall_ge_iff ?_
  intro k
  rw [Nat.ceil_le, Real.sqrt_le_left (Nat.cast_nonneg k), div_le_iff₀ hxr, ceilSqrt_le_iff,
    ceilDiv_le_iff_le_mul hx, ← Nat.cast_pow, ← Nat.cast_mul, Nat.cast_le, Nat.pow_two,
    Nat.mul_comm x]

theorem floor_sqrt_div (n : ℕ) {x : ℕ} (hx : 0 < x) :
    ⌊√((n : ℝ) / x)⌋ = ((n / x).sqrt : ℤ) := by
  have hxr : (0 : ℝ) < x := Nat.cast_pos.mpr hx
  rw [← Int.natCast_floor_eq_floor (Real.sqrt_nonneg _), Nat.cast_inj]
  refine eq_of_forall_le_iff ?_
  intro k
  rw [Nat.le_floor_iff (Real.sqrt_nonneg _), Real.le_sqrt (Nat.cast_nonneg k) (by positivity),
    le_div_iff₀ hxr,
    Nat.le_sqrt, Nat.le_div_iff_mul_le hx, ← Nat.cast_pow, ← Nat.cast_mul, Nat.cast_le,
    Nat.pow_two]

/-- `rootShares` is the floor of the real formula. -/
theorem rootShares_eq_floor (s : ℕ) {x : ℕ} (f : ℕ) (hx : 0 < x) :
    (rootShares s x f : ℤ) = ⌊(s : ℝ) * (1 - √(((x - f : ℕ) : ℝ) / x))⌋ := by
  have hle := ceilSqrt_rootShares_le s f hx
  rw [mul_sub, mul_one, mul_sqrt_div, sub_eq_add_neg, Int.floor_natCast_add, Int.floor_neg,
    ceil_sqrt_div _ hx]
  unfold rootShares
  omega

theorem sqrt_rootSharesCeil_le (s x f : ℕ) :
    (s * s * (x - f) / x).sqrt ≤ s := by
  rw [← Nat.sqrt_eq s]
  refine Nat.sqrt_le_sqrt ?_
  rw [Nat.sqrt_eq]
  exact Nat.div_le_of_le_mul (by
    rw [Nat.mul_comm x]
    exact Nat.mul_le_mul_left _ (Nat.sub_le x f))

theorem rootSharesCeil_eq_ceil (s : ℕ) {x : ℕ} (f : ℕ) (hx : 0 < x) :
    (rootSharesCeil s x f : ℤ) = ⌈(s : ℝ) * (1 - √(((x - f : ℕ) : ℝ) / x))⌉ := by
  have hle := sqrt_rootSharesCeil_le s x f
  rw [mul_sub, mul_one, mul_sqrt_div, sub_eq_add_neg, Int.ceil_natCast_add, Int.ceil_neg,
    floor_sqrt_div _ hx]
  unfold rootSharesCeil
  omega

theorem le_sqrt_rootSharesIn (s : ℕ) {x : ℕ} (f : ℕ) (hx : 0 < x) :
    s ≤ (s * s * (x + f) / x).sqrt := by
  rw [Nat.le_sqrt, Nat.le_div_iff_mul_le hx]
  exact Nat.mul_le_mul_left _ (Nat.le_add_right x f)

theorem rootSharesIn_eq_floor (s : ℕ) {x : ℕ} (f : ℕ) (hx : 0 < x) :
    (rootSharesIn s x f : ℤ) = ⌊(s : ℝ) * (√(((x + f : ℕ) : ℝ) / x) - 1)⌋ := by
  have hle := le_sqrt_rootSharesIn s f hx
  rw [mul_sub, mul_one, mul_sqrt_div, Int.floor_sub_natCast, floor_sqrt_div _ hx]
  unfold rootSharesIn
  omega

/-- Shares minted for a part of one factor keep the price, if the product of the other factor
    with the rest of this one has not fallen. -/
theorem priceKept_rootShares {p s x y f : ℕ} (hf : f < x) (hp : p ≤ (x - f) * y) :
    PriceKept p (s ^ 2) (x * y) ((s + rootShares s x f) ^ 2) := by
  have hx : 0 < x := Nat.lt_of_le_of_lt (Nat.zero_le f) hf
  have hspec := rootShares_spec s f hx
  have hle := rootShares_le s x f
  set t := rootShares s x f
  rcases Nat.eq_zero_or_pos s with hs | hs
  · have ht : t = 0 := by omega
    rw [ht, hs, PriceKept]
    simp
  · -- `(s - t)(s + t) ≤ s²` turns the root's bound around
    have hsq : (s - t) * (s + t) ≤ s * s := by
      obtain ⟨r, hr⟩ := Nat.exists_eq_add_of_le hle
      rw [hr, Nat.add_sub_cancel_left]
      nlinarith
    have hturn : (x - f) * ((s + t) * (s + t)) ≤ x * (s * s) := by
      refine Nat.le_of_mul_le_mul_left ?_ (Nat.mul_pos hs hs)
      calc s * s * ((x - f) * ((s + t) * (s + t)))
          = s * s * (x - f) * ((s + t) * (s + t)) := by ring
        _ ≤ x * ((s - t) * (s - t)) * ((s + t) * (s + t)) := Nat.mul_le_mul_right _ hspec
        _ = x * (((s - t) * (s + t)) * ((s - t) * (s + t))) := by ring
        _ ≤ x * (s * s * (s * s)) := Nat.mul_le_mul_left x (Nat.mul_le_mul hsq hsq)
        _ = s * s * (x * (s * s)) := by ring
    rw [PriceKept]
    calc p * (s + t) ^ 2 ≤ (x - f) * y * (s + t) ^ 2 := Nat.mul_le_mul_right _ hp
      _ = (x - f) * ((s + t) * (s + t)) * y := by ring
      _ ≤ x * (s * s) * y := Nat.mul_le_mul_right y hturn
      _ = x * y * s ^ 2 := by ring

end Albus.Lib
