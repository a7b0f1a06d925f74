import Albus.Integration.ConstantPriceShares
import Albus.Integration.ConstantProductShares

/-! # The trading fees and their inverse

    `curve/fees.rs` takes each of the two fees from the amount, rounded down but never
    below one token; `pre_trading_fee_amount` inverts the two as one fraction, rounded
    up, and knows of no least fee.  For one fee that is enough.  For two it is not where
    the fraction of `y + 1` does not reach one token (`preTradingFeeAmount_covers_iff`),
    nor where the two take everything: then the inverse is zero, and a withdrawal of one
    token is charged for half of it (`withdrawSingle_covers_iff`). -/

namespace Albus.Integration

open Albus.Lib Albus.Program

/-! ## Fees of a number

    A fee is the fraction `n / d` of `x`, rounded down, and at least one. -/

/-- One fee: what is paid for `y` before the fee covers it after. -/
theorem covers_one {x y n d : ℕ} (hn : 0 < n) (hnd : n < d) (hy : 1 ≤ y)
    (h : y * d ≤ x * (d - n)) : y + max 1 (x * n / d) ≤ x := by
  have hd : 0 < d := by omega
  obtain ⟨r, rfl⟩ : ∃ r, d = n + r := Nat.exists_eq_add_of_le hnd.le
  rw [Nat.add_sub_cancel_left] at h
  have hfloor := Nat.div_mul_le_self (x * n) (n + r)
  have hrest : (y + x * n / (n + r)) * (n + r) ≤ x * (n + r) := by
    rw [Nat.add_mul, Nat.mul_add x]
    omega
  have hle : y + x * n / (n + r) ≤ x := Nat.le_of_mul_le_mul_right hrest hd
  have hlt : y < x := by
    by_contra hge
    have hxy : x * r ≤ y * r := Nat.mul_le_mul_right r (by omega)
    have hpos : 0 < y * n := Nat.mul_pos hy hn
    rw [Nat.mul_add] at h
    omega
  omega

/-- What a fee rounded down takes, in parts of a common denominator. -/
theorem floor_mul_le (x a b e : ℕ) : x * a / b * (b * e) ≤ x * (a * e) := by
  rw [← Nat.mul_assoc, ← Nat.mul_assoc]
  exact Nat.mul_le_mul_right e (Nat.div_mul_le_self (x * a) b)

/-- Two fees `p` and `q` rounded down, of `A` and of `C` parts in `D`, and the least `x` for
    both as one fraction: with a least fee of one each they leave `y` exactly where the
    fraction of `y + 1` is above one. -/
theorem covers_parts_iff {x y p q A C D : ℕ} (hA : 0 < A) (hC : 0 < C) (hlt : A + C < D)
    (hy : 1 ≤ y) (hx : ∀ k, x ≤ k ↔ y * D ≤ k * (D - (A + C))) (hp : p * D ≤ x * A)
    (hq : q * D ≤ x * C) :
    y + max 1 p + max 1 q ≤ x ↔ D < (y + 1) * (A + C) := by
  obtain ⟨R, rfl⟩ : ∃ R, D = A + C + R := Nat.exists_eq_add_of_le hlt.le
  rw [Nat.add_sub_cancel_left] at hx
  have hD : 0 < A + C + R := by omega
  have hcover := (hx x).mp le_rfl
  have hpos : 0 < x := by
    rcases Nat.eq_zero_or_pos x with rfl | hpos
    · have hyD : 0 < y * (A + C + R) := Nat.mul_pos hy hD
      omega
    · exact hpos
  have hsplit : x * (A + C + R) = x * A + x * C + x * R := by ring
  have hxA : 0 < x * A := Nat.mul_pos hpos hA
  have hxC : 0 < x * C := Nat.mul_pos hpos hC
  -- the least `x` is `y + 1` where the fraction of `y + 1` is at most one
  have hleast : x ≤ y + 1 ↔ (y + 1) * (A + C) ≤ A + C + R := by
    have hone : (y + 1) * R = (y + 1) * (A + C + R) - (y + 1) * (A + C) := by
      rw [← Nat.mul_sub, Nat.add_sub_cancel_left]
    have hle : (y + 1) * (A + C) ≤ (y + 1) * (A + C + R) :=
      Nat.mul_le_mul_left _ (Nat.le_add_right _ _)
    have hsucc : (y + 1) * (A + C + R) = y * (A + C + R) + (A + C + R) := Nat.succ_mul _ _
    rw [hx, hone]
    omega
  rcases Nat.eq_zero_or_pos p with rfl | hp1
  · rcases Nat.eq_zero_or_pos q with rfl | hq1
    · rw [← Nat.not_le, ← hleast]
      omega
    · have hrest : (y + q) * (A + C + R) < x * (A + C + R) := by
        rw [Nat.add_mul]
        omega
      have hlarge := Nat.lt_of_mul_lt_mul_right hrest
      refine iff_of_true (by omega) ?_
      rw [← Nat.not_le, ← hleast]
      omega
  · have hrest : (y + p) * (A + C + R) < x * (A + C + R) := by
      rw [Nat.add_mul]
      omega
    have hlarge := Nat.lt_of_mul_lt_mul_right hrest
    have hboth : (y + p + q) * (A + C + R) ≤ x * (A + C + R) := by
      rw [Nat.add_mul, Nat.add_mul]
      omega
    have hle := Nat.le_of_mul_le_mul_right hboth hD
    refine iff_of_true (by omega) ?_
    rw [← Nat.not_le, ← hleast]
    omega

/-! ## The fees of the code -/

theorem calculateFee_eq_some_iff {x n d fee : Nat} (hn : n ≠ 0) (hx : x ≠ 0) (hd : d ≠ 0) :
    calculateFee x n d = some fee ↔ x * n < 2 ^ 128 ∧ fee = max 1 (x * n / d) := by
  rw [calculateFee, if_neg (by tauto), checkedMul]
  by_cases hfits : x * n < 2 ^ 128
  · rw [if_pos hfits]
    simp only [Option.bind_eq_bind, Option.bind_some, checkedDiv, if_neg hd]
    by_cases hzero : x * n / d = 0
    · rw [if_pos hzero, hzero]
      exact ⟨fun h => ⟨hfits, (Option.some.inj h).symm⟩, fun h => by rw [h.2]; rfl⟩
    · rw [if_neg hzero, Nat.max_eq_right (Nat.pos_of_ne_zero hzero)]
      exact ⟨fun h => ⟨hfits, (Option.some.inj h).symm⟩, fun h => by rw [h.2]⟩
  · rw [if_neg hfits]
    refine iff_of_false ?_ fun h => hfits h.1
    intro h
    cases h

theorem calculateFee_of_zero {x n d : Nat} (h : n = 0 ∨ x = 0) :
    calculateFee x n d = some 0 := if_pos h

/-- What `pre_fee_amount` computes where a part of the amount is the fee. -/
theorem preFeeAmount_eq_some {y n d x : Nat} (h : preFeeAmount y n d = some x) (hn : n ≠ 0)
    (hd : d ≠ 0) (hy : y ≠ 0) (hne : n ≠ d) :
    n < d ∧ ∀ k, x ≤ k ↔ y * d ≤ k * (d - n) := by
  rw [preFeeAmount, if_neg (by tauto), if_neg (by tauto)] at h
  obtain ⟨product, hproduct, h⟩ := Option.bind_eq_some_iff.mp h
  obtain ⟨rest, hrest, h⟩ := Option.bind_eq_some_iff.mp h
  obtain ⟨sum, hsum, h⟩ := Option.bind_eq_some_iff.mp h
  obtain ⟨dividend, hdividend, h⟩ := Option.bind_eq_some_iff.mp h
  obtain ⟨hpos, rfl⟩ := checkedDiv_eq_some h
  obtain ⟨hle, rfl⟩ := checkedSub_eq_some hrest
  obtain ⟨-, rfl⟩ := checkedSub_eq_some hdividend
  rw [checkedAdd_eq_some hsum, checkedMul_eq_some hproduct]
  refine ⟨by omega, fun k => ?_⟩
  rw [← Nat.lt_succ_iff, Nat.div_lt_iff_lt_mul hpos, Nat.succ_mul]
  omega

namespace Fees

/-- The fraction that `pre_trading_fee_amount` inverts. -/
def combined (f : Fees) : Nat × Nat :=
  if f.tradeFeeNumerator = 0 ∨ f.tradeFeeDenominator = 0 then
    (f.ownerTradeFeeNumerator, f.ownerTradeFeeDenominator)
  else if f.ownerTradeFeeNumerator = 0 ∨ f.ownerTradeFeeDenominator = 0 then
    (f.tradeFeeNumerator, f.tradeFeeDenominator)
  else
    (f.tradeFeeNumerator * f.ownerTradeFeeDenominator
        + f.ownerTradeFeeNumerator * f.tradeFeeDenominator,
      f.tradeFeeDenominator * f.ownerTradeFeeDenominator)

theorem preTradingFeeAmount_combined {f : Fees} {y x : Nat}
    (h : f.preTradingFeeAmount y = some x) :
    preFeeAmount y f.combined.1 f.combined.2 = some x := by
  unfold preTradingFeeAmount at h
  unfold combined
  split_ifs at h ⊢ with htrade howner
  · exact h
  · exact h
  · obtain ⟨trade, htrade, h⟩ := Option.bind_eq_some_iff.mp h
    obtain ⟨owner, howner, h⟩ := Option.bind_eq_some_iff.mp h
    obtain ⟨numerator, hnumerator, h⟩ := Option.bind_eq_some_iff.mp h
    obtain ⟨denominator, hdenominator, h⟩ := Option.bind_eq_some_iff.mp h
    rw [checkedAdd_eq_some hnumerator, checkedMul_eq_some hdenominator,
      checkedMul_eq_some htrade, checkedMul_eq_some howner] at h
    exact h

/-- One of the fees is not charged; or the two are not everything, and the fraction of
    `y + 1` is above one token. -/
def Covers (f : Fees) (y : Nat) : Prop :=
  f.tradeFeeNumerator = 0 ∨ f.ownerTradeFeeNumerator = 0 ∨
    f.combined.1 ≠ f.combined.2 ∧ f.combined.2 < (y + 1) * f.combined.1

instance (f : Fees) (y : Nat) : Decidable (f.Covers y) :=
  inferInstanceAs (Decidable (_ ∨ _ ∨ _))

/-- The products of the two fees of the inverse fit a word of 128 bits. -/
def FeesFit (f : Fees) (y : Nat) : Prop :=
  ∀ n ∈ [f.tradeFeeNumerator, f.ownerTradeFeeNumerator], n ≠ 0 →
    y * f.combined.2 ≤ (2 ^ 128 - 1) / n * (f.combined.2 - f.combined.1)

instance (f : Fees) (y : Nat) : Decidable (f.FeesFit y) :=
  inferInstanceAs (Decidable (∀ n ∈ _, _))

end Fees

/-- The product of a fee fits where the bound on the inverse says so. -/
theorem product_fits_iff {x y n d m : Nat} (hm : m ≠ 0)
    (hx : ∀ k, x ≤ k ↔ y * d ≤ k * (d - n)) :
    x * m < 2 ^ 128 ↔ y * d ≤ (2 ^ 128 - 1) / m * (d - n) := by
  rw [← hx, Nat.le_div_iff_mul_le (Nat.pos_of_ne_zero hm)]
  omega

/-- One fee covers, if its product fits. -/
theorem preFeeAmount_covers_iff {y n d x : Nat} (h : preFeeAmount y n d = some x) (hn : n ≠ 0)
    (hnd : n < d) (hy : 1 ≤ y) :
    (∃ fee, calculateFee x n d = some fee ∧ y + fee ≤ x) ↔
      y * d ≤ (2 ^ 128 - 1) / n * (d - n) := by
  obtain ⟨-, hx⟩ := preFeeAmount_eq_some h hn (by omega) (by omega) (by omega)
  have hcovers := covers_one (Nat.pos_of_ne_zero hn) hnd hy ((hx x).mp le_rfl)
  rw [← product_fits_iff hn hx]
  constructor
  · rintro ⟨fee, hfee, -⟩
    exact ((calculateFee_eq_some_iff hn (by omega) (by omega)).mp hfee).1
  · intro hfits
    exact ⟨_, (calculateFee_eq_some_iff hn (by omega) (by omega)).mpr ⟨hfits, rfl⟩, hcovers⟩

/-- Two fees cover, if their products fit and `y` is large enough for the least fees. -/
theorem preFeeAmount_covers_two_iff {y a b c e x : Nat}
    (h : preFeeAmount y (a * e + c * b) (b * e) = some x) (ha : a ≠ 0) (hab : a < b)
    (hc : c ≠ 0) (hce : c < e) (hy : 1 ≤ y) (hne : a * e + c * b ≠ b * e) :
    (∃ trade owner, calculateFee x a b = some trade ∧ calculateFee x c e = some owner ∧
      y + trade + owner ≤ x) ↔
      b * e < (y + 1) * (a * e + c * b) ∧
        y * (b * e) ≤ (2 ^ 128 - 1) / a * (b * e - (a * e + c * b)) ∧
        y * (b * e) ≤ (2 ^ 128 - 1) / c * (b * e - (a * e + c * b)) := by
  have hA : 0 < a * e := Nat.mul_pos (Nat.pos_of_ne_zero ha) (by omega)
  have hC : 0 < c * b := Nat.mul_pos (Nat.pos_of_ne_zero hc) (by omega)
  have hD : 0 < b * e := Nat.mul_pos (by omega) (by omega)
  obtain ⟨hlt, hx⟩ := preFeeAmount_eq_some h (by omega) (by omega) (by omega) hne
  have hxne : x ≠ 0 := by
    rintro rfl
    have hle := (hx 0).mp le_rfl
    have hpos : 0 < y * (b * e) := Nat.mul_pos hy hD
    omega
  have hq : x * c / e * (b * e) ≤ x * (c * b) := by
    rw [Nat.mul_comm b e]
    exact floor_mul_le x c e b
  rw [← covers_parts_iff hA hC hlt hy hx (floor_mul_le x a b e) hq, ← product_fits_iff ha hx,
    ← product_fits_iff hc hx]
  simp only [calculateFee_eq_some_iff ha hxne (by omega : b ≠ 0),
    calculateFee_eq_some_iff hc hxne (by omega : e ≠ 0)]
  constructor
  · rintro ⟨trade, owner, ⟨htrade, rfl⟩, ⟨howner, rfl⟩, hle⟩
    exact ⟨hle, htrade, howner⟩
  · rintro ⟨hle, htrade, howner⟩
    exact ⟨_, _, ⟨htrade, rfl⟩, ⟨howner, rfl⟩, hle⟩

namespace Fees

/-- **THE INVERSE COVERS THE FEES EXACTLY WHERE NO LEAST FEE GETS IN ITS WAY.**  Whenever
    `pre_trading_fee_amount` of an amount `y` gives an `x`, the two fees of `x` can be
    computed and leave `y` if and only if `f.Covers y` and their products fit. -/
theorem preTradingFeeAmount_covers_iff {f : Fees} (hvalid : f.validate = .ok ()) {y x : Nat}
    (hy : 1 ≤ y) (h : f.preTradingFeeAmount y = some x) :
    (∃ trade owner, f.tradingFee x = some trade ∧ f.ownerTradingFee x = some owner ∧
      (y : Int) ≤ x - trade - owner) ↔ f.Covers y ∧ f.FeesFit y := by
  obtain ⟨htrade, howner⟩ := validate_ok hvalid
  have hint : ∀ trade owner : Nat, (y : Int) ≤ x - trade - owner ↔ y + trade + owner ≤ x := by
    intro trade owner
    omega
  simp only [hint, FeesInfo.tradingFee, FeesInfo.ownerTradingFee]
  have hpre := preTradingFeeAmount_combined h
  have hfits : f.FeesFit y ↔
      (f.tradeFeeNumerator ≠ 0 → y * f.combined.2
        ≤ (2 ^ 128 - 1) / f.tradeFeeNumerator * (f.combined.2 - f.combined.1)) ∧
      (f.ownerTradeFeeNumerator ≠ 0 → y * f.combined.2
        ≤ (2 ^ 128 - 1) / f.ownerTradeFeeNumerator * (f.combined.2 - f.combined.1)) := by
    rw [FeesFit, List.forall_mem_cons, List.forall_mem_singleton]
  rw [hfits, Covers]
  by_cases htn : f.tradeFeeNumerator = 0
  · -- no trading fee: the inverse is that of the owner's fee
    have hcombined : f.combined = (f.ownerTradeFeeNumerator, f.ownerTradeFeeDenominator) :=
      if_pos (Or.inl htn)
    have hnone : ∀ x, calculateFee x f.tradeFeeNumerator f.tradeFeeDenominator = some 0 :=
      fun x => calculateFee_of_zero (Or.inl htn)
    rw [hcombined] at hpre ⊢
    by_cases hon : f.ownerTradeFeeNumerator = 0
    · have hx : y = x := Option.some.inj ((if_pos (Or.inl hon)).symm.trans hpre)
      refine iff_of_true ⟨0, 0, hnone x, calculateFee_of_zero (Or.inl hon), by omega⟩ ?_
      exact ⟨Or.inl htn, fun h => absurd htn h, fun h => absurd hon h⟩
    · have hiff := preFeeAmount_covers_iff hpre hon (by omega) hy
      constructor
      · rintro ⟨trade, owner, htrade, howner, hle⟩
        exact ⟨Or.inl htn, fun h => absurd htn h, fun _ => hiff.mp ⟨owner, howner, by omega⟩⟩
      · rintro ⟨-, -, hle⟩
        obtain ⟨owner, howner, hle⟩ := hiff.mpr (hle hon)
        exact ⟨0, owner, hnone x, howner, by omega⟩
  · have htd : ¬(f.tradeFeeNumerator = 0 ∨ f.tradeFeeDenominator = 0) := by omega
    by_cases hon : f.ownerTradeFeeNumerator = 0
    · -- no owner's fee: the inverse is that of the trading fee
      have hcombined : f.combined = (f.tradeFeeNumerator, f.tradeFeeDenominator) :=
        (if_neg htd).trans (if_pos (Or.inl hon))
      have hnone : ∀ x,
          calculateFee x f.ownerTradeFeeNumerator f.ownerTradeFeeDenominator = some 0 :=
        fun x => calculateFee_of_zero (Or.inl hon)
      rw [hcombined] at hpre ⊢
      have hiff := preFeeAmount_covers_iff hpre htn (by omega) hy
      constructor
      · rintro ⟨trade, owner, htrade, howner, hle⟩
        exact ⟨Or.inr (Or.inl hon), fun _ => hiff.mp ⟨trade, htrade, by omega⟩,
          fun h => absurd hon h⟩
      · rintro ⟨-, hle, -⟩
        obtain ⟨trade, htrade, hle⟩ := hiff.mpr (hle htn)
        exact ⟨trade, 0, htrade, hnone x, by omega⟩
    · have hcombined : f.combined = (_, _) := (if_neg htd).trans (if_neg (by omega))
      rw [hcombined] at hpre ⊢
      by_cases hne : f.tradeFeeNumerator * f.ownerTradeFeeDenominator
          + f.ownerTradeFeeNumerator * f.tradeFeeDenominator
          = f.tradeFeeDenominator * f.ownerTradeFeeDenominator
      · -- the two are everything, and the inverse is zero
        have hx : x = 0 := preTradingFeeAmount_of_takeAll hvalid ⟨htn, hon, hne⟩ h
        refine iff_of_false ?_ ?_
        · rintro ⟨trade, owner, -, -, hle⟩
          omega
        · rintro ⟨hcovers, -⟩
          rcases hcovers with hzero | hzero | ⟨hdiffer, -⟩
          · exact htn hzero
          · exact hon hzero
          · exact hdiffer hne
      · rw [preFeeAmount_covers_two_iff hpre htn (by omega) hon (by omega) hy hne]
        constructor
        · rintro ⟨hlarge, htrade, howner⟩
          exact ⟨Or.inr (Or.inr ⟨hne, hlarge⟩), fun _ => htrade, fun _ => howner⟩
        · rintro ⟨hcovers, htrade, howner⟩
          refine ⟨?_, htrade htn, howner hon⟩
          rcases hcovers with hzero | hzero | ⟨-, hlarge⟩
          · exact absurd hzero htn
          · exact absurd hzero hon
          · exact hlarge

end Fees

/-! ## Withdrawing one token

    More of a token asks for no fewer pool tokens. -/

theorem checkedAdd_of_lt {w a b : Nat} (h : a + b < 2 ^ w) : checkedAdd w a b = some (a + b) :=
  if_pos h

theorem checkedDiv_of_pos {a b : Nat} (h : 0 < b) : checkedDiv a b = some (a / b) :=
  if_neg (by omega)

/-- `checked_ceil_div` fails on no word, but for the double of a small one. -/
theorem checkedCeilDiv_isSome {w a b : Nat} (hb : 0 < b) (ha : a < 2 ^ w)
    (hsmall : a < b → a * 2 < 2 ^ w) : ∃ q r, checkedCeilDiv w a b = some (q, r) := by
  rw [checkedCeilDiv, checkedDiv_of_pos hb]
  simp only [Option.bind_eq_bind, Option.bind_some]
  by_cases hzero : a / b = 0
  · have htwice := hsmall ((Nat.div_eq_zero_iff_lt hb).mp hzero)
    rw [if_pos hzero, checkedMul, if_pos htwice]
    exact ⟨_, _, rfl⟩
  · rw [if_neg hzero]
    by_cases hrem : 0 < a % b
    · -- the quotient and its successor are below the dividend
      have hdiv := Nat.div_add_mod a b
      have hmodlt := Nat.mod_lt a hb
      have hone : 1 ≤ a / b := Nat.one_le_iff_ne_zero.mpr hzero
      have hle : 2 * (a / b) ≤ b * (a / b) := Nat.mul_le_mul_right _ (by omega)
      have hquotient : a / b + 1 < 2 ^ w := by omega
      have hrhs : a / (a / b + 1) + 1 < 2 ^ w := by
        have hhalf : a / (a / b + 1) ≤ a / 2 := Nat.div_le_div_left (by omega) (by omega)
        omega
      rw [if_pos hrem, checkedAdd_of_lt hquotient]
      simp only [Option.bind_some, checkedDiv_of_pos (Nat.succ_pos (a / b))]
      by_cases hrem' : 0 < a % (a / b + 1)
      · rw [if_pos hrem', checkedAdd_of_lt hrhs]
        exact ⟨_, _, rfl⟩
      · rw [if_neg hrem']
        exact ⟨_, _, rfl⟩
    · rw [if_neg hrem]
      exact ⟨_, _, rfl⟩

/-- It comes back where that of a larger word does, with no larger quotient. -/
theorem checkedCeilDiv_mono {w a a' b q' r' : Nat} (h : checkedCeilDiv w a' b = some (q', r'))
    (hle : a ≤ a') (ha : a' < 2 ^ w) (hb : b * 2 ≤ 2 ^ w) :
    ∃ q r, checkedCeilDiv w a b = some (q, r) ∧ q ≤ q' := by
  obtain ⟨hpos, hq'⟩ := checkedCeilDiv_eq_some h
  obtain ⟨q, r, hqr⟩ := checkedCeilDiv_isSome hpos (hle.trans_lt ha) (fun hlt => by omega)
  refine ⟨q, r, hqr, ?_⟩
  obtain ⟨-, hq⟩ := checkedCeilDiv_eq_some hqr
  have hceil : ∀ {n}, b ≤ n → 1 ≤ n ⌈/⌉ b := by
    intro n hn
    rw [Nat.one_le_iff_ne_zero, Ne, ← Nat.le_zero, ceilDiv_le_iff_le_mul hpos, mul_zero]
    omega
  rcases hq with ⟨hlt, -, rfl⟩ | ⟨hge, rfl, -⟩
  · rcases hq' with ⟨hlt', -, rfl⟩ | ⟨hge', rfl, -⟩
    · split <;> split <;> omega
    · have hone := hceil hge'
      split <;> omega
  · rcases hq' with ⟨hlt', -, rfl⟩ | ⟨hge', rfl, -⟩
    · omega
    · rw [ceilDiv_le_iff_le_mul hpos]
      exact hle.trans ((ceilDiv_le_iff_le_mul hpos).mp le_rfl)

namespace ConstantProduct

theorem rootSharesCeil_mono (s x : Nat) {f f' : Nat} (h : f ≤ f') :
    rootSharesCeil s x f ≤ rootSharesCeil s x f' := by
  refine Nat.sub_le_sub_left (Nat.sqrt_le_sqrt (Nat.div_le_div_right ?_)) s
  exact Nat.mul_le_mul_left _ (Nat.sub_le_sub_left h x)

/-- More of a token asks for no fewer pool tokens. -/
theorem withdrawSingle_mono {x x' a b s t : Nat} {tradeDirection : TradeDirection}
    (h : withdrawSingleTokenTypeExactOut x' a b s tradeDirection .ceiling = some t)
    (hle : x ≤ x') :
    ∃ t', withdrawSingleTokenTypeExactOut x a b s tradeDirection .ceiling = some t' ∧
      t' ≤ t := by
  simp only [withdrawSingleTokenTypeExactOut] at h ⊢
  split at h
  · exact nomatch h
  · rename_i hne
    rw [if_neg hne]
    refine ⟨_, rfl, ?_⟩
    rw [← Option.some.inj h]
    exact rootSharesCeil_mono _ _ hle

end ConstantProduct

namespace ConstantPrice

theorem checkedMul_lt {w a b c : Nat} (h : checkedMul w a b = some c) : c < 2 ^ w := by
  rw [checkedMul] at h
  split at h
  · rename_i hlt
    rwa [← Option.some.inj h]
  · exact nomatch h

theorem checkedMul_mono {w a a' b b' c : Nat} (h : checkedMul w a' b' = some c) (ha : a ≤ a')
    (hb : b ≤ b') : checkedMul w a b = some (a * b) := by
  have hlt := checkedMul_lt h
  rw [checkedMul_eq_some h] at hlt
  exact if_pos ((Nat.mul_le_mul ha hb).trans_lt hlt)

/-- The value of less is less. -/
theorem givenValue_mono {p x x' v : Nat} {tradeDirection : TradeDirection}
    (h : givenValue p x' tradeDirection = some v) (hle : x ≤ x') :
    ∃ v', givenValue p x tradeDirection = some v' ∧ v' ≤ v := by
  cases tradeDirection with
  | aToB =>
      obtain rfl := Option.some.inj h
      exact ⟨x, rfl, hle⟩
  | bToA =>
      refine ⟨x * p, checkedMul_mono h hle le_rfl, ?_⟩
      rw [checkedMul_eq_some h]
      exact Nat.mul_le_mul_right p hle

/-- More of a token asks for no fewer pool tokens, on amounts and a price of 64 bits. -/
theorem withdrawSingle_mono {p x x' a b s t : Nat} {tradeDirection : TradeDirection}
    (hp : p < 2 ^ 64) (ha : a < 2 ^ 64) (hb : b < 2 ^ 64)
    (h : tradingTokensToPoolTokens p x' a b s tradeDirection .ceiling = some t)
    (hle : x ≤ x') :
    ∃ t', tradingTokensToPoolTokens p x a b s tradeDirection .ceiling = some t' ∧
      t' ≤ t := by
  obtain ⟨given', hgiven', h⟩ := Option.bind_eq_some_iff.mp h
  obtain ⟨bValue, hbValue, h⟩ := Option.bind_eq_some_iff.mp h
  obtain ⟨total, htotal, h⟩ := Option.bind_eq_some_iff.mp h
  obtain ⟨product', hproduct', h⟩ := Option.bind_eq_some_iff.mp h
  obtain ⟨⟨quotient', divisor'⟩, hquotient', h⟩ := Option.bind_eq_some_iff.mp h
  obtain ⟨given, hgiven, hgivenle⟩ := givenValue_mono hgiven' hle
  have hproduct := checkedMul_mono hproduct' le_rfl hgivenle
  have hproductle : s * given ≤ product' := by
    rw [checkedMul_eq_some hproduct']
    exact Nat.mul_le_mul_left s hgivenle
  have htwice : total * 2 ≤ 2 ^ 256 := by
    have hprice : b * p ≤ 2 ^ 64 * 2 ^ 64 := Nat.mul_le_mul hb.le hp.le
    rw [checkedAdd_eq_some htotal, checkedMul_eq_some hbValue]
    omega
  obtain ⟨quotient, divisor, hquotient, hquotientle⟩ :=
    checkedCeilDiv_mono hquotient' hproductle (checkedMul_lt hproduct') htwice
  have ht := asU128_eq_some h
  have hfits : quotient' < 2 ^ 128 := by
    by_contra hlarge
    exact nomatch (if_neg hlarge).symm.trans h
  refine ⟨quotient, ?_, by rw [ht]; exact hquotientle⟩
  simp only [tradingTokensToPoolTokens, hgiven, hbValue, htotal, hproduct, hquotient,
    Option.bind_eq_bind, Option.bind_some, asU128]
  exact if_pos (hquotientle.trans_lt hfits)

end ConstantPrice

/-- The curves of two plain sides, and a price of 64 bits. -/
def SwapCurve.Plain : SwapCurve → Prop
  | .constantProduct => True
  | .constantPrice tokenBPrice => tokenBPrice < 2 ^ 64
  | .offset _ => False

/-- The pool tokens that the calculator asks for an amount, rounded up, without a fee. -/
def SwapCurve.required (curve : SwapCurve) (a b supply : Nat) (tradeDirection : TradeDirection)
    (amount : Nat) : Option Nat :=
  curve.calculator.withdrawSingleTokenTypeExactOut amount a b supply tradeDirection .ceiling

theorem required_mono {curve : SwapCurve} (hcurve : curve.Plain) {a b s x x' t : Nat}
    {tradeDirection : TradeDirection} (ha : a < 2 ^ 64) (hb : b < 2 ^ 64)
    (h : curve.required a b s tradeDirection x' = some t) (hle : x ≤ x') :
    ∃ t', curve.required a b s tradeDirection x = some t' ∧ t' ≤ t := by
  cases curve with
  | constantProduct => exact ConstantProduct.withdrawSingle_mono h hle
  | constantPrice p => exact ConstantPrice.withdrawSingle_mono hcurve ha hb h hle
  | offset _ => exact hcurve.elim

/-- What a withdrawal of one token asks for: half of the amount as it is, and the other half
    before the fees. -/
theorem withdrawSingle_required {curve : SwapCurve} {d a b s t : Nat}
    {tradeDirection : TradeDirection} {fees : Fees} (hd : 1 ≤ d)
    (h : curve.calculator.withdrawSingle d a b s tradeDirection fees = some t) :
    ∃ pre, fees.preTradingFeeAmount (d - d / 2) = some pre ∧
      curve.required a b s tradeDirection (d / 2 + pre) = some t := by
  rw [CurveCalculator.withdrawSingle, if_neg (by omega)] at h
  obtain ⟨sum, hsum, h⟩ := Option.bind_eq_some_iff.mp h
  obtain ⟨pre, hpre, h⟩ := Option.bind_eq_some_iff.mp h
  obtain ⟨rest, hrest, h⟩ := Option.bind_eq_some_iff.mp h
  obtain ⟨amount, hamount, h⟩ := Option.bind_eq_some_iff.mp h
  have hhalf : sum / 2 = d - d / 2 := by
    rw [checkedAdd_eq_some hsum]
    omega
  have hrest' : rest = d / 2 := by
    rw [(checkedSub_eq_some hrest).2, hhalf]
    omega
  rw [hhalf] at hpre
  rw [checkedAdd_eq_some hamount, hrest'] at h
  exact ⟨pre, hpre, h⟩

/-- **A WITHDRAWAL OF ONE TOKEN IS NEVER CHEAPER THAN PRO RATA, UNLESS THE FEES TAKE ALL.**
    On both plain curves, under validated fees: the pool tokens asked for `d` are at least
    those for `d` without a fee if and only if the two trading fees are not the whole
    amount, or the calculator asks for half of `d` what it asks for `d`. -/
theorem withdrawSingle_covers_iff {curve : SwapCurve} (hcurve : curve.Plain) {fees : Fees}
    (hvalid : fees.validate = .ok ()) {d a b s t : Nat} {tradeDirection : TradeDirection}
    (ha : a < 2 ^ 64) (hb : b < 2 ^ 64) (hd : 1 ≤ d)
    (h : curve.calculator.withdrawSingle d a b s tradeDirection fees = some t) :
    (∃ t', curve.required a b s tradeDirection d = some t' ∧ t' ≤ t) ↔
      ¬fees.TakeAll ∨ curve.required a b s tradeDirection (d / 2)
        = curve.required a b s tradeDirection d := by
  obtain ⟨pre, hpre, hrequired⟩ := withdrawSingle_required hd h
  by_cases hall : fees.TakeAll
  · -- the half that is charged is left out
    rw [Fees.preTradingFeeAmount_of_takeAll hvalid hall hpre, Nat.add_zero] at hrequired
    rw [hrequired]
    constructor
    · rintro ⟨t', ht', hle⟩
      obtain ⟨t'', ht'', hle'⟩ := required_mono hcurve ha hb ht' (Nat.div_le_self d 2)
      obtain rfl := Option.some.inj (hrequired.symm.trans ht'')
      rw [ht', Nat.le_antisymm hle hle']
      exact Or.inr rfl
    · rintro (hnot | heq)
      · exact absurd hall hnot
      · exact ⟨t, heq.symm, le_rfl⟩
  · have hge := Fees.preTradingFeeAmount_ge hvalid hall hpre
    exact iff_of_true (required_mono hcurve ha hb hrequired (by omega)) (Or.inl hall)

/-! ## Samples -/

namespace FeeSample

/-- Two trading fees. -/
def fees (tradeNumerator tradeDenominator ownerNumerator ownerDenominator : Nat) : Fees where
  tradeFeeNumerator := tradeNumerator
  tradeFeeDenominator := tradeDenominator
  ownerTradeFeeNumerator := ownerNumerator
  ownerTradeFeeDenominator := ownerDenominator
  hostFeeNumerator := 0
  hostFeeDenominator := 0
  ownerWithdrawFeeNumerator := 0
  ownerWithdrawFeeDenominator := 0

/-- What is paid for `y` covers it after both fees. -/
def CoversAfter (f : Fees) (y x : Nat) : Prop :=
  ∃ trade owner, f.tradingFee x = some trade ∧ f.ownerTradingFee x = some owner ∧
    (y : Int) ≤ x - trade - owner

theorem preTradingFeeAmount_covers_sample :
    (∃ trade owner, (fees 25 10000 5 10000).tradingFee 1004 = some trade ∧
      (fees 25 10000 5 10000).ownerTradingFee 1004 = some owner ∧
      ((1000 : Nat) : Int) ≤ (1004 : Nat) - trade - owner) ↔
      (fees 25 10000 5 10000).Covers 1000 ∧ (fees 25 10000 5 10000).FeesFit 1000 :=
  Fees.preTradingFeeAmount_covers_iff rfl (by decide) rfl

/-- **THE INVERSE DOES NOT ALWAYS COVER**: one token before two fees of a thousandth is two
    tokens, of which the least fees take both; before two fees of a half it is none. -/
theorem preTradingFeeAmount_falls_short :
    (fees 1 1000 1 1000).validate = .ok () ∧
      (fees 1 1000 1 1000).preTradingFeeAmount 1 = some 2 ∧
      ¬CoversAfter (fees 1 1000 1 1000) 1 2 ∧
    (fees 1 2 1 2).validate = .ok () ∧ (fees 1 2 1 2).preTradingFeeAmount 1 = some 0 ∧
      ¬CoversAfter (fees 1 2 1 2) 1 0 := by
  refine ⟨rfl, rfl, ?_, rfl, rfl, ?_⟩
  · rintro ⟨trade, owner, htrade, howner, hle⟩
    obtain rfl : 1 = trade := Option.some.inj htrade
    obtain rfl : 1 = owner := Option.some.inj howner
    exact absurd hle (by decide)
  · rintro ⟨trade, owner, htrade, howner, hle⟩
    obtain rfl : 0 = trade := Option.some.inj htrade
    obtain rfl : 0 = owner := Option.some.inj howner
    exact absurd hle (by decide)

theorem withdrawSingle_covers_sample :
    (∃ t', SwapCurve.constantProduct.required 1000 1000 1000 .aToB 100 = some t' ∧ t' ≤ 52) ↔
      ¬(fees 25 10000 5 10000).TakeAll ∨
        SwapCurve.constantProduct.required 1000 1000 1000 .aToB (100 / 2)
          = SwapCurve.constantProduct.required 1000 1000 1000 .aToB 100 :=
  withdrawSingle_covers_iff (show SwapCurve.Plain .constantProduct from trivial) rfl
    (by decide) (by decide) (by decide) (by decide +kernel)

/-- **FEES THAT TAKE ALL CHARGE HALF**: under two fees of a half, 100 of 1000 tokens cost
    half as many pool tokens as they do without a fee. -/
theorem withdrawSingle_too_cheap :
    (fees 1 2 1 2).validate = .ok () ∧
      SwapCurve.constantProduct.calculator.withdrawSingle 100 1000 1000 1000 .aToB
        (fees 1 2 1 2) = some 26 ∧
      SwapCurve.constantProduct.required 1000 1000 1000 .aToB 100 = some 52 ∧
      (SwapCurve.constantPrice 1).calculator.withdrawSingle 100 1000 1000 1000 .aToB
        (fees 1 2 1 2) = some 25 ∧
      (SwapCurve.constantPrice 1).required 1000 1000 1000 .aToB 100 = some 50 := by
  refine ⟨rfl, ?_, ?_, rfl, rfl⟩
  · decide +kernel
  · decide +kernel

end FeeSample

end Albus.Integration
