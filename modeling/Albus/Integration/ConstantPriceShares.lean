import Albus.Integration.PoolAmounts

/-! # What a share of a constant price pool is worth

    The value of the pool counts token B at its price in token A.  Of the five
    operations three never lower it.  A deposit of both tokens asks for two
    amounts of half the value, and half of an odd value is rounded down first; a
    withdrawal of one token puts the fees on half of the amount, and fees that
    together are the whole make that half free. -/

namespace Albus.Integration

open Albus.Lib Albus.Program

namespace PoolAmounts

/-- The value of the balances in token A, at the price `p` of token B. -/
def value (p : Nat) (pool : PoolAmounts) : Nat := pool.tokenA + pool.tokenB * p

/-- The value of a share has not fallen. -/
def ValueKept (p : Nat) (pool after : PoolAmounts) : Prop :=
  PriceKept (pool.value p) pool.supply (after.value p) after.supply

theorem ValueKept.refl (p : Nat) (pool : PoolAmounts) : pool.ValueKept p pool := PriceKept.refl _ _

theorem ValueKept.trans {p : Nat} {pool mid after : PoolAmounts} (h : pool.ValueKept p mid)
    (h' : mid.ValueKept p after) (hsupply : 0 < mid.supply) : pool.ValueKept p after :=
  PriceKept.trans h h' hsupply

end PoolAmounts

open PoolAmounts

namespace ConstantPrice

theorem normalizedValue_eq_some {p a b h : Nat} (hvalue : normalizedValue p a b = some h) :
    h = (a + b * p) / 2 := by
  obtain ⟨bValue, hbValue, hvalue⟩ := Option.bind_eq_some_iff.mp hvalue
  have hlt : bValue < 2 ^ 128 := by
    unfold checkedMul at hbValue
    split at hbValue
    · rename_i hlt
      rw [← Option.some.inj hbValue]
      exact hlt
    · exact nomatch hbValue
  -- a product of 128 bits is never above the limit
  rw [if_neg (by omega)] at hvalue
  obtain ⟨sum, hsum, hvalue⟩ := Option.bind_eq_some_iff.mp hvalue
  rw [← Option.some.inj hvalue, checkedAdd_eq_some hsum, checkedMul_eq_some hbValue]

theorem asU128_eq_some {n m : Nat} (h : asU128 n = some m) : m = n := by
  unfold asU128 at h
  split at h
  · exact (Option.some.inj h).symm
  · exact nomatch h

/-- The words in which the pool tokens for an amount are computed. -/
theorem tradingTokensToPoolTokens_eq_some {p x a b s t : Nat} {tradeDirection : TradeDirection}
    {roundDirection : RoundDirection}
    (h : tradingTokensToPoolTokens p x a b s tradeDirection roundDirection = some t) :
    0 < a + b * p ∧
      match roundDirection with
      | .floor => t = s * tokenValue p x tradeDirection / (a + b * p)
      | .ceiling => t ≠ 0 → t = s * tokenValue p x tradeDirection ⌈/⌉ (a + b * p) := by
  obtain ⟨given, hgiven, h⟩ := Option.bind_eq_some_iff.mp h
  obtain ⟨bValue, hbValue, h⟩ := Option.bind_eq_some_iff.mp h
  obtain ⟨total, htotal, h⟩ := Option.bind_eq_some_iff.mp h
  obtain ⟨product, hproduct, h⟩ := Option.bind_eq_some_iff.mp h
  have hgiven : given = tokenValue p x tradeDirection := by
    cases tradeDirection with
    | aToB => exact (Option.some.inj hgiven).symm
    | bToA => exact checkedMul_eq_some hgiven
  have htotal : total = a + b * p := by
    rw [checkedAdd_eq_some htotal, checkedMul_eq_some hbValue, Nat.add_comm]
  have hproduct : product = s * tokenValue p x tradeDirection := by
    rw [checkedMul_eq_some hproduct, hgiven]
  rw [htotal, hproduct] at h
  cases roundDirection with
  | floor =>
      obtain ⟨quotient, hquotient, h⟩ := Option.bind_eq_some_iff.mp h
      obtain ⟨hpos, hquotient⟩ := checkedDiv_eq_some hquotient
      exact ⟨hpos, (asU128_eq_some h).trans hquotient⟩
  | ceiling =>
      obtain ⟨⟨quotient, divisor⟩, hquotient, h⟩ := Option.bind_eq_some_iff.mp h
      have ht := asU128_eq_some h
      refine ⟨(checkedCeilDiv_eq_some hquotient).1, ?_⟩
      intro hne
      rw [ht] at hne ⊢
      exact (checkedCeilDiv_quotient hquotient hne).2

/-- The two sides of a trade have the same value. -/
theorem swapWithoutFees_eq_some {p s : Nat} {tradeDirection : TradeDirection}
    {moved : SwapWithoutFeesResult} (h : swapWithoutFees p s tradeDirection = some moved) :
    tokenValue p moved.sourceAmountSwapped tradeDirection =
      tokenValue p moved.destinationAmountSwapped tradeDirection.opposite := by
  obtain ⟨⟨source, destination⟩, hsides, h⟩ := Option.bind_eq_some_iff.mp h
  obtain ⟨source', hsource, h⟩ := Option.bind_eq_some_iff.mp h
  obtain ⟨destination', hdestination, h⟩ := Option.bind_eq_some_iff.mp h
  obtain ⟨-, hsource⟩ := mapZeroToNone_eq_some hsource
  obtain ⟨-, hdestination⟩ := mapZeroToNone_eq_some hdestination
  rw [← Option.some.inj h, hsource, hdestination]
  cases tradeDirection with
  | aToB =>
      obtain ⟨quotient, hquotient, hsides⟩ := Option.bind_eq_some_iff.mp hsides
      obtain ⟨hs, hd⟩ := Prod.mk.inj (Option.some.inj hsides)
      obtain ⟨-, hquotient⟩ := checkedDiv_eq_some hquotient
      have hdiv := Nat.div_add_mod s p
      show source = destination * p
      rw [← hs, ← hd, hquotient, Nat.mul_comm]
      omega
  | bToA =>
      obtain ⟨product, hproduct, hsides⟩ := Option.bind_eq_some_iff.mp hsides
      obtain ⟨hs, hd⟩ := Prod.mk.inj (Option.some.inj hsides)
      show source * p = destination
      rw [← hs, ← hd]
      exact (checkedMul_eq_some hproduct).symm

/-- Rounded down, both amounts come out of the same half. -/
theorem poolTokensToTradingTokens_floor {p pt s a b : Nat} {results : TradingTokenResult}
    (h : poolTokensToTradingTokens p pt s a b .floor = some results) :
    (results.tokenAAmount + results.tokenBAmount * p) * s ≤ (a + b * p) * pt := by
  obtain ⟨half, hhalf, h⟩ := Option.bind_eq_some_iff.mp h
  obtain ⟨product, hproduct, h⟩ := Option.bind_eq_some_iff.mp h
  obtain ⟨tokenA, htokenA, h⟩ := Option.bind_eq_some_iff.mp h
  obtain ⟨asTokenB, hasTokenB, h⟩ := Option.bind_eq_some_iff.mp h
  obtain ⟨tokenB, htokenB, h⟩ := Option.bind_eq_some_iff.mp h
  rw [← Option.some.inj h]
  have hA : tokenA * s ≤ product := by
    rw [(checkedDiv_eq_some htokenA).2]
    exact Nat.div_mul_le_self _ _
  have hB : tokenB * p * s ≤ product := by
    rw [(checkedDiv_eq_some htokenB).2, (checkedDiv_eq_some hasTokenB).2]
    calc product / p / s * p * s = product / p / s * s * p := by ring
      _ ≤ product / p * p := Nat.mul_le_mul_right p (Nat.div_mul_le_self _ _)
      _ ≤ product := Nat.div_mul_le_self _ _
  have hhalf : 2 * half ≤ a + b * p := by
    rw [normalizedValue_eq_some hhalf]
    exact Nat.mul_div_le _ _
  rw [Nat.add_mul]
  calc tokenA * s + tokenB * p * s ≤ product + product := Nat.add_le_add hA hB
    _ = 2 * half * pt := by rw [checkedMul_eq_some hproduct]; ring
    _ ≤ (a + b * p) * pt := Nat.mul_le_mul_right pt hhalf

/-- Rounded up, each amount comes out of the half with its own gap. -/
theorem poolTokensToTradingTokens_ceiling {p pt s a b : Nat} {results : TradingTokenResult}
    (h : poolTokensToTradingTokens p pt s a b .ceiling = some results)
    (hposA : 0 < results.tokenAAmount) (hposB : 0 < results.tokenBAmount) :
    (results.tokenAAmount + results.tokenBAmount * p) * s =
      2 * (pt * ((a + b * p) / 2)) + (roundUpGap (pt * ((a + b * p) / 2)) s +
        roundUpGap (pt * ((a + b * p) / 2)) (p * s)) := by
  obtain ⟨half, hhalf, h⟩ := Option.bind_eq_some_iff.mp h
  obtain ⟨product, hproduct, h⟩ := Option.bind_eq_some_iff.mp h
  obtain ⟨⟨tokenA, _⟩, htokenA, h⟩ := Option.bind_eq_some_iff.mp h
  obtain ⟨⟨asTokenB, _⟩, hasTokenB, h⟩ := Option.bind_eq_some_iff.mp h
  obtain ⟨⟨tokenB, _⟩, htokenB, h⟩ := Option.bind_eq_some_iff.mp h
  rw [← normalizedValue_eq_some hhalf, ← checkedMul_eq_some hproduct]
  rw [← Option.some.inj h] at hposA hposB ⊢
  obtain ⟨hs, htokenA⟩ := checkedCeilDiv_quotient htokenA (Nat.ne_of_gt hposA)
  obtain ⟨-, heqB⟩ := checkedCeilDiv_quotient htokenB (Nat.ne_of_gt hposB)
  have hne : asTokenB ≠ 0 := by
    intro hzero
    rw [heqB, hzero, zero_ceilDiv] at hposB
    exact Nat.lt_irrefl 0 hposB
  obtain ⟨hp, heqAs⟩ := checkedCeilDiv_quotient hasTokenB hne
  rw [heqAs, ceilDiv_ceilDiv product hp hs] at heqB
  have hA := mul_ceilDiv (n := product) hs
  have hB := mul_ceilDiv (n := product) (Nat.mul_pos hp hs)
  rw [← htokenA] at hA
  rw [← heqB] at hB
  calc (tokenA + tokenB * p) * s = s * tokenA + p * s * tokenB := by ring
    _ = 2 * product + (roundUpGap product s + roundUpGap product (p * s)) := by rw [hA, hB]; ring

end ConstantPrice

/-! ## Fees -/

theorem validateFraction_ok {numerator denominator : Nat}
    (h : validateFraction numerator denominator = .ok ()) :
    denominator = 0 ∧ numerator = 0 ∨ numerator < denominator := by
  unfold validateFraction at h
  split at h
  · rename_i hzero
    exact Or.inl hzero
  · split at h
    · exact nomatch h
    · rename_i hlt
      exact Or.inr (Nat.lt_of_not_le hlt)

namespace Fees

/-- Both trading fees are charged, and together they are the whole amount. -/
def TakeAll (f : Fees) : Prop :=
  f.tradeFeeNumerator ≠ 0 ∧ f.ownerTradeFeeNumerator ≠ 0 ∧
    f.tradeFeeNumerator * f.ownerTradeFeeDenominator +
      f.ownerTradeFeeNumerator * f.tradeFeeDenominator =
      f.tradeFeeDenominator * f.ownerTradeFeeDenominator

instance (f : Fees) : Decidable f.TakeAll := inferInstanceAs (Decidable (_ ∧ _))

/-- What `validate` promises of the two trading fees. -/
theorem validate_ok {f : Fees} (h : f.validate = .ok ()) :
    (f.tradeFeeDenominator = 0 ∧ f.tradeFeeNumerator = 0 ∨
      f.tradeFeeNumerator < f.tradeFeeDenominator) ∧
    (f.ownerTradeFeeDenominator = 0 ∧ f.ownerTradeFeeNumerator = 0 ∨
      f.ownerTradeFeeNumerator < f.ownerTradeFeeDenominator) := by
  obtain ⟨_, htrade, h⟩ := bind_ok h
  obtain ⟨_, howner, -⟩ := bind_ok h
  exact ⟨validateFraction_ok htrade, validateFraction_ok howner⟩

end Fees

/-- Before a fee there is no less than after it, unless the fee is everything. -/
theorem preFeeAmount_ge {post numerator denominator pre : Nat}
    (h : preFeeAmount post numerator denominator = some pre)
    (hne : numerator = 0 ∨ numerator ≠ denominator) : post ≤ pre := by
  unfold preFeeAmount at h
  split at h
  · exact le_of_eq (Option.some.inj h)
  · rename_i hpos
    split at h
    · rename_i hzero
      rcases hzero with heq | hpost
      · rcases hne with hnum | hne
        · exact absurd (Or.inl hnum) hpos
        · exact absurd heq hne
      · rw [hpost]
        exact Nat.zero_le pre
    · obtain ⟨product, hproduct, h⟩ := Option.bind_eq_some_iff.mp h
      obtain ⟨rest, hrest, h⟩ := Option.bind_eq_some_iff.mp h
      obtain ⟨sum, hsum, h⟩ := Option.bind_eq_some_iff.mp h
      obtain ⟨dividend, hdividend, h⟩ := Option.bind_eq_some_iff.mp h
      obtain ⟨hrestpos, hpre⟩ := checkedDiv_eq_some h
      obtain ⟨-, hdividend⟩ := checkedSub_eq_some hdividend
      obtain ⟨-, hrest⟩ := checkedSub_eq_some hrest
      rw [hpre, Nat.le_div_iff_mul_le hrestpos, hdividend, checkedAdd_eq_some hsum,
        checkedMul_eq_some hproduct]
      have hle : post * rest ≤ post * denominator := by
        rw [hrest]
        exact Nat.mul_le_mul_left post (Nat.sub_le _ _)
      omega

namespace Fees

theorem preTradingFeeAmount_ge {f : Fees} {post pre : Nat} (hvalid : f.validate = .ok ())
    (hall : ¬f.TakeAll) (h : f.preTradingFeeAmount post = some pre) : post ≤ pre := by
  obtain ⟨htrade, howner⟩ := validate_ok hvalid
  unfold preTradingFeeAmount at h
  split at h
  · exact preFeeAmount_ge h (by omega)
  · rename_i htradePos
    split at h
    · exact preFeeAmount_ge h (by omega)
    · rename_i hownerPos
      obtain ⟨trade, htrade', h⟩ := Option.bind_eq_some_iff.mp h
      obtain ⟨owner, howner', h⟩ := Option.bind_eq_some_iff.mp h
      obtain ⟨numerator, hnumerator, h⟩ := Option.bind_eq_some_iff.mp h
      obtain ⟨denominator, hdenominator, h⟩ := Option.bind_eq_some_iff.mp h
      refine preFeeAmount_ge h (Or.inr ?_)
      intro heq
      rw [checkedAdd_eq_some hnumerator, checkedMul_eq_some hdenominator,
        checkedMul_eq_some htrade', checkedMul_eq_some howner'] at heq
      exact hall ⟨fun hz => htradePos (Or.inl hz), fun hz => hownerPos (Or.inl hz), heq⟩

theorem preTradingFeeAmount_of_takeAll {f : Fees} {post pre : Nat} (hvalid : f.validate = .ok ())
    (hall : f.TakeAll) (h : f.preTradingFeeAmount post = some pre) : pre = 0 := by
  obtain ⟨htrade, howner⟩ := validate_ok hvalid
  obtain ⟨htradePos, hownerPos, heq⟩ := hall
  rw [preTradingFeeAmount, if_neg (by omega), if_neg (by omega)] at h
  obtain ⟨trade, htrade', h⟩ := Option.bind_eq_some_iff.mp h
  obtain ⟨owner, howner', h⟩ := Option.bind_eq_some_iff.mp h
  obtain ⟨numerator, hnumerator, h⟩ := Option.bind_eq_some_iff.mp h
  obtain ⟨denominator, hdenominator, h⟩ := Option.bind_eq_some_iff.mp h
  have hwhole : numerator = denominator := by
    rw [checkedAdd_eq_some hnumerator, checkedMul_eq_some hdenominator,
      checkedMul_eq_some htrade', checkedMul_eq_some howner', heq]
  have hpos : 0 < f.tradeFeeNumerator * f.ownerTradeFeeDenominator :=
    Nat.mul_pos (by omega) (by omega)
  have hnumeratorPos : 0 < numerator := by
    rw [checkedAdd_eq_some hnumerator, checkedMul_eq_some htrade']
    omega
  rw [preFeeAmount, if_neg (by omega), if_pos (Or.inl hwhole)] at h
  exact (Option.some.inj h).symm

end Fees

/-! ## The five operations -/

open ConstantPrice

theorem tokenValue_add (p x y : Nat) (tradeDirection : TradeDirection) :
    tokenValue p (x + y) tradeDirection =
      tokenValue p x tradeDirection + tokenValue p y tradeDirection := by
  cases tradeDirection with
  | aToB => rfl
  | bToA => exact Nat.add_mul x y p

theorem tokenValue_mono {p x y : Nat} (h : x ≤ y) (tradeDirection : TradeDirection) :
    tokenValue p x tradeDirection ≤ tokenValue p y tradeDirection := by
  cases tradeDirection with
  | aToB => exact h
  | bToA => exact Nat.mul_le_mul_right p h

namespace PoolAmounts

theorem value_eq_sides (p : Nat) (pool : PoolAmounts) (tradeDirection : TradeDirection) :
    pool.value p = tokenValue p (pool.source tradeDirection) tradeDirection +
      tokenValue p (pool.destination tradeDirection) tradeDirection.opposite := by
  cases tradeDirection with
  | aToB => rfl
  | bToA => exact Nat.add_comm _ _

theorem value_traded (p : Nat) (pool : PoolAmounts) (result : SwapResult)
    (tradeDirection : TradeDirection) :
    (pool.traded result tradeDirection).value p =
      tokenValue p result.newSwapSourceAmount tradeDirection +
        tokenValue p result.newSwapDestinationAmount tradeDirection.opposite := by
  cases tradeDirection with
  | aToB => rfl
  | bToA => exact Nat.add_comm _ _

end PoolAmounts

/-- A swap: the fees stay in the pool, and the owner fee mints no more than it adds. -/
theorem valueKept_swap {p : Nat} {fees : FeesInfo} {tradeDirection : TradeDirection} {host : Bool}
    {amountIn minimumAmountOut : Nat} {pool after : PoolAmounts}
    (h : pool.swap (.constantPrice p) fees tradeDirection host amountIn minimumAmountOut =
      .ok after) : pool.ValueKept p after := by
  obtain ⟨result, minted, hswap, hminted, rfl⟩ := swap_ok h
  obtain ⟨tradeFee, moved, -, -, -, hmoved, hsource, hnewSource, hdest, hle, hnewDest⟩ :=
    CurveCalculator.swap_eq_some hswap
  have hsides := swapWithoutFees_eq_some hmoved
  -- the trade is of equal values, so the pool gains both fees
  have hgain : (pool.traded result tradeDirection).value p =
      pool.value p + tokenValue p (tradeFee + result.ownerFee) tradeDirection := by
    have hback := tokenValue_add p result.newSwapDestinationAmount
      moved.destinationAmountSwapped tradeDirection.opposite
    rw [hnewDest, hdest, Nat.sub_add_cancel (hdest ▸ hle), ← hsides] at hback
    rw [value_traded, pool.value_eq_sides p tradeDirection, hnewSource, hsource, hnewDest, hdest,
      tokenValue_add, tokenValue_add, hback]
    omega
  show PriceKept _ _ ((pool.traded result tradeDirection).value p) (pool.supply + minted)
  rw [hgain, priceKept_deposit_iff]
  rcases hminted with rfl | hminted
  · rw [Nat.mul_zero]
    exact Nat.zero_le _
  · have hminted : tradingTokensToPoolTokens p _ _ _ _ _ .floor = some minted := hminted
    obtain ⟨hpos, hfloor⟩ := tradingTokensToPoolTokens_eq_some hminted
    have hvalue : (pool.traded result tradeDirection).tokenA +
        (pool.traded result tradeDirection).tokenB * p =
        pool.value p + tokenValue p (tradeFee + result.ownerFee) tradeDirection := hgain
    rw [hvalue] at hfloor hpos
    calc pool.value p * minted
        ≤ (pool.value p + tokenValue p (tradeFee + result.ownerFee) tradeDirection) * minted :=
          Nat.mul_le_mul_right _ (Nat.le_add_right _ _)
      _ ≤ pool.supply * tokenValue p result.ownerFee tradeDirection := by
          rw [hfloor]
          exact Nat.mul_div_le _ _
      _ ≤ pool.supply * tokenValue p (tradeFee + result.ownerFee) tradeDirection :=
          Nat.mul_le_mul_left _ (tokenValue_mono (Nat.le_add_left _ _) _)
      _ = tokenValue p (tradeFee + result.ownerFee) tradeDirection * pool.supply :=
          Nat.mul_comm _ _

/-- A deposit of one token: the value without the fees mints, rounded down. -/
theorem valueKept_depositSingle {p : Nat} {fees : FeesInfo} {tradeDirection : TradeDirection}
    {amount minimum minted : Nat} {pool : PoolAmounts} (hsupply : 0 < pool.supply)
    (h : depositSingleAmount (.constantPrice p) fees tradeDirection amount minimum pool =
      .ok minted) :
    pool.value p * minted ≤ tokenValue p amount tradeDirection * pool.supply := by
  obtain ⟨hdeposit, hpos⟩ := depositSingleAmount_ok hsupply h
  unfold CurveCalculator.depositSingle at hdeposit
  split at hdeposit
  · rw [← Option.some.inj hdeposit] at hpos
    exact absurd hpos (Nat.lt_irrefl 0)
  · obtain ⟨tradeFee, -, hdeposit⟩ := Option.bind_eq_some_iff.mp hdeposit
    obtain ⟨ownerFee, -, hdeposit⟩ := Option.bind_eq_some_iff.mp hdeposit
    obtain ⟨totalFees, -, hdeposit⟩ := Option.bind_eq_some_iff.mp hdeposit
    obtain ⟨less, hless, hdeposit⟩ := Option.bind_eq_some_iff.mp hdeposit
    have hdeposit : tradingTokensToPoolTokens p _ _ _ _ _ .floor = some minted := hdeposit
    obtain ⟨-, hfloor⟩ := tradingTokensToPoolTokens_eq_some hdeposit
    have hle : less ≤ amount := by
      rw [(checkedSub_eq_some hless).2]
      exact Nat.sub_le _ _
    calc pool.value p * minted ≤ pool.supply * tokenValue p less tradeDirection := by
          rw [hfloor]
          exact Nat.mul_div_le _ _
      _ ≤ pool.supply * tokenValue p amount tradeDirection :=
          Nat.mul_le_mul_left _ (tokenValue_mono hle _)
      _ = tokenValue p amount tradeDirection * pool.supply := Nat.mul_comm _ _

theorem value_deposit (p : Nat) (pool : PoolAmounts) (tokenA tokenB poolTokens : Nat) :
    (pool.deposit tokenA tokenB poolTokens).value p = pool.value p + (tokenA + tokenB * p) := by
  show pool.tokenA + tokenA + (pool.tokenB + tokenB) * p = pool.tokenA + pool.tokenB * p + _
  rw [Nat.add_mul]
  omega

/-- What a withdrawal keeps, by what it pays and what it burns. -/
theorem valueKept_withdraw_iff {p : Nat} {pool after : PoolAmounts} {amounts : WithdrawAmounts}
    (h : pool.withdraw amounts = .ok after) :
    pool.ValueKept p after ↔
      (amounts.tokenA + amounts.tokenB * p) * pool.supply ≤ pool.value p * amounts.poolTokens := by
  obtain ⟨hle, hleA, hleB, rfl⟩ := withdraw_ok h
  have hmul : amounts.tokenB * p ≤ pool.tokenB * p := Nat.mul_le_mul_right p hleB
  have hrest : PoolAmounts.value p
      { tokenA := pool.tokenA - amounts.tokenA, tokenB := pool.tokenB - amounts.tokenB,
        supply := pool.supply - amounts.poolTokens } =
      pool.value p - (amounts.tokenA + amounts.tokenB * p) := by
    show pool.tokenA - amounts.tokenA + (pool.tokenB - amounts.tokenB) * p =
      pool.tokenA + pool.tokenB * p - (amounts.tokenA + amounts.tokenB * p)
    rw [Nat.sub_mul]
    omega
  rw [ValueKept, hrest]
  exact priceKept_withdraw_iff (Nat.add_le_add hleA hmul) hle

theorem valueKept_withdrawAll {p : Nat} {fees : Fees} {fromFeeAccount : Bool}
    {pt minA minB : Nat} {pool after : PoolAmounts} {amounts : WithdrawAmounts}
    (h : withdrawAllAmounts (.constantPrice p) fees fromFeeAccount pt minA minB pool =
      .ok amounts) (hafter : pool.withdraw amounts = .ok after) : pool.ValueKept p after := by
  obtain ⟨results, hresults, htokenA, htokenB, -⟩ := withdrawAllAmounts_ok h
  rw [valueKept_withdraw_iff hafter]
  refine le_trans (Nat.mul_le_mul_right _ ?_) (poolTokensToTradingTokens_floor hresults)
  rw [htokenA, htokenB]
  exact Nat.add_le_add (Nat.min_le_right _ _) (Nat.mul_le_mul_right p (Nat.min_le_right _ _))

/-- A deposit of both tokens: the gaps of the two roundings have to make up for the half that
    an odd value loses. -/
theorem valueKept_depositAll_iff {p pt maxA maxB : Nat} {pool : PoolAmounts}
    {amounts : DepositAmounts} (hsupply : 0 < pool.supply)
    (h : depositAllAmounts (.constantPrice p) pt maxA maxB pool = .ok amounts) :
    pool.ValueKept p (pool.deposit amounts.tokenA amounts.tokenB amounts.poolTokens) ↔
      pool.value p % 2 = 0 ∨ pt ≤ roundUpGap (pt * (pool.value p / 2)) pool.supply +
        roundUpGap (pt * (pool.value p / 2)) (p * pool.supply) := by
  obtain ⟨results, hresults, hposA, hposB, rfl⟩ := depositAllAmounts_ok hsupply h
  have htaken : (results.tokenAAmount + results.tokenBAmount * p) * pool.supply =
      2 * (pt * (pool.value p / 2)) + (roundUpGap (pt * (pool.value p / 2)) pool.supply +
        roundUpGap (pt * (pool.value p / 2)) (p * pool.supply)) :=
    poolTokensToTradingTokens_ceiling hresults hposA hposB
  have hhalf : pool.value p * pt = 2 * (pt * (pool.value p / 2)) + pool.value p % 2 * pt := by
    calc pool.value p * pt = (2 * (pool.value p / 2) + pool.value p % 2) * pt := by
          rw [Nat.div_add_mod]
      _ = 2 * (pt * (pool.value p / 2)) + pool.value p % 2 * pt := by ring
  rw [ValueKept, value_deposit]
  show PriceKept _ _ _ (pool.supply + pt) ↔ _
  rw [priceKept_deposit_iff, htaken, hhalf, Nat.add_le_add_iff_left]
  rcases Nat.mod_two_eq_zero_or_one (pool.value p) with heven | hodd
  · rw [heven, Nat.zero_mul]
    exact ⟨fun _ => Or.inl rfl, fun _ => Nat.zero_le _⟩
  · rw [hodd, Nat.one_mul]
    constructor
    · exact fun hle => Or.inr hle
    · rintro (hzero | hle)
      · exact absurd hzero Nat.one_ne_zero
      · exact hle

/-- The pool tokens burned for one token: half of the amount as it is, the other half before
    the fees, rounded up. -/
theorem withdrawSingle_eq_some {p x burned : Nat} {pool : PoolAmounts}
    {tradeDirection : TradeDirection} {fees : Fees}
    (h : (SwapCurve.constantPrice p).calculator.withdrawSingle x pool.tokenA pool.tokenB
      pool.supply tradeDirection fees = some burned) (hburned : 0 < burned) :
    ∃ pre, fees.preTradingFeeAmount (x - x / 2) = some pre ∧ 0 < pool.value p ∧
      burned = pool.supply * tokenValue p (x / 2 + pre) tradeDirection ⌈/⌉ pool.value p := by
  unfold CurveCalculator.withdrawSingle at h
  split at h
  · rw [← Option.some.inj h] at hburned
    exact absurd hburned (Nat.lt_irrefl 0)
  · obtain ⟨sum, hsum, h⟩ := Option.bind_eq_some_iff.mp h
    obtain ⟨pre, hpre, h⟩ := Option.bind_eq_some_iff.mp h
    obtain ⟨rest, hrest, h⟩ := Option.bind_eq_some_iff.mp h
    obtain ⟨amount, hamount, h⟩ := Option.bind_eq_some_iff.mp h
    have h : tradingTokensToPoolTokens p _ _ _ _ _ .ceiling = some burned := h
    obtain ⟨hpos, hceil⟩ := tradingTokensToPoolTokens_eq_some h
    have hhalf : sum / 2 = x - x / 2 := by
      rw [checkedAdd_eq_some hsum]
      omega
    have hrest' : rest = x / 2 := by
      rw [(checkedSub_eq_some hrest).2, hhalf]
      omega
    rw [hhalf] at hpre
    have heq := hceil (Nat.ne_of_gt hburned)
    rw [checkedAdd_eq_some hamount, hrest'] at heq
    exact ⟨pre, hpre, hpos, heq⟩

theorem value_isSingle {p x : Nat} {amounts : WithdrawAmounts} {tradeDirection : TradeDirection}
    (h : amounts.IsSingle tradeDirection x) :
    amounts.tokenA + amounts.tokenB * p = tokenValue p x tradeDirection := by
  cases tradeDirection with
  | aToB =>
      rw [h.1, h.2, Nat.zero_mul]
      rfl
  | bToA =>
      rw [h.1, h.2, Nat.zero_add]
      rfl

/-- A withdrawal of one token: it is covered unless the fees take everything, and then only if
    rounding up covers the half that was left out. -/
theorem valueKept_withdrawSingle_iff {p : Nat} {fees : Fees} {fromFeeAccount : Bool}
    {tradeDirection : TradeDirection} {x maximum : Nat} {pool after : PoolAmounts}
    {amounts : WithdrawAmounts} (hvalid : fees.validate = .ok ())
    (h : withdrawSingleAmounts (.constantPrice p) fees fromFeeAccount tradeDirection x maximum
      pool = .ok amounts) (hafter : pool.withdraw amounts = .ok after) :
    pool.ValueKept p after ↔ ¬fees.TakeAll ∨
      pool.supply * tokenValue p (x - x / 2) tradeDirection ≤
        roundUpGap (pool.supply * tokenValue p (x / 2) tradeDirection) (pool.value p) := by
  obtain ⟨hwithdraw, hburned, hsingle⟩ := withdrawSingleAmounts_ok h
  obtain ⟨pre, hpre, hpos, hceil⟩ := withdrawSingle_eq_some hwithdraw hburned
  have hsum : x / 2 + (x - x / 2) = x := by omega
  have hsplit : tokenValue p x tradeDirection =
      tokenValue p (x / 2) tradeDirection + tokenValue p (x - x / 2) tradeDirection := by
    rw [← tokenValue_add, hsum]
  rw [valueKept_withdraw_iff hafter, value_isSingle hsingle, hceil, mul_ceilDiv hpos]
  by_cases hall : fees.TakeAll
  · rw [Fees.preTradingFeeAmount_of_takeAll hvalid hall hpre, Nat.add_zero, hsplit, Nat.add_mul,
      Nat.mul_comm (tokenValue p (x / 2) tradeDirection),
      Nat.mul_comm (tokenValue p (x - x / 2) tradeDirection), Nat.add_le_add_iff_left]
    constructor
    · exact fun hle => Or.inr hle
    · rintro (hnot | hle)
      · exact absurd hall hnot
      · exact hle
  · have hge := Fees.preTradingFeeAmount_ge hvalid hall hpre
    refine ⟨fun _ => Or.inl hall, fun _ => ?_⟩
    have hvalue : tokenValue p x tradeDirection ≤ tokenValue p (x / 2 + pre) tradeDirection :=
      tokenValue_mono (by omega) tradeDirection
    rw [Nat.mul_comm]
    exact le_trans (Nat.mul_le_mul_left _ hvalue) (Nat.le_add_right _ _)

/-! ## Runs -/

/-- What an operation leaves out of its amounts is covered by rounding up: half a unit of an
    odd value, where both tokens are deposited, and half of the amount, where one is withdrawn
    under fees that take everything. -/
def PoolOperation.Covered (p : Nat) (fees : Fees) (pool : PoolAmounts) : PoolOperation → Prop
  | .swap .. | .depositSingle .. | .withdrawAll .. => True
  | .depositAll pt _ _ =>
      pool.value p % 2 = 0 ∨ pt ≤ roundUpGap (pt * (pool.value p / 2)) pool.supply +
        roundUpGap (pt * (pool.value p / 2)) (p * pool.supply)
  | .withdrawSingle tradeDirection _ x _ =>
      ¬fees.TakeAll ∨ pool.supply * tokenValue p (x - x / 2) tradeDirection ≤
        roundUpGap (pool.supply * tokenValue p (x / 2) tradeDirection) (pool.value p)

theorem valueKept_step_iff {p : Nat} {fees : Fees} (hvalid : fees.validate = .ok ())
    {pool after : PoolAmounts} {op : PoolOperation} (hsupply : 0 < pool.supply)
    (h : pool.step (.constantPrice p) fees op = .ok after) :
    pool.ValueKept p after ↔ op.Covered p fees pool := by
  cases op with
  | swap tradeDirection host amountIn minimumAmountOut =>
      exact ⟨fun _ => trivial, fun _ => valueKept_swap h⟩
  | depositAll pt maxA maxB =>
      obtain ⟨amounts, hamounts, h⟩ := bind_ok h
      rw [← Except.ok.inj h]
      exact valueKept_depositAll_iff hsupply hamounts
  | depositSingle tradeDirection amount minimum =>
      obtain ⟨minted, hminted, h⟩ := bind_ok h
      have hle := valueKept_depositSingle hsupply hminted
      refine ⟨fun _ => trivial, fun _ => ?_⟩
      have hvalue : ∀ x y, x + y * p = tokenValue p amount tradeDirection →
          pool.ValueKept p (pool.deposit x y minted) := by
        intro x y hxy
        rw [ValueKept, value_deposit, hxy]
        exact priceKept_deposit_iff.mpr hle
      cases tradeDirection with
      | aToB =>
          rw [← Except.ok.inj h]
          refine hvalue amount 0 ?_
          rw [Nat.zero_mul]
          rfl
      | bToA =>
          rw [← Except.ok.inj h]
          refine hvalue 0 amount ?_
          rw [Nat.zero_add]
          rfl
  | withdrawAll fromFeeAccount pt minA minB =>
      obtain ⟨amounts, hamounts, h⟩ := bind_ok h
      exact ⟨fun _ => trivial, fun _ => valueKept_withdrawAll hamounts h⟩
  | withdrawSingle tradeDirection fromFeeAccount x maximum =>
      obtain ⟨amounts, hamounts, h⟩ := bind_ok h
      exact valueKept_withdrawSingle_iff hvalid hamounts h

/-- **SHARE VALUE, CONSTANT PRICE.** In every run of a pool's operations with a positive supply,
    a step keeps the value of a share if and only if rounding covers what it leaves out; and a
    run of such steps keeps it from its start to its end. -/
theorem valueKept_iff_covered {p : Nat} {fees : Fees} (hvalid : fees.validate = .ok ())
    {start final : PoolAmounts} {history : List (Transition PoolAmounts PoolOperation)}
    (hrun : Run (PoolAmounts.step (.constantPrice p) fees) start history final)
    (hstart : 0 < start.supply) (hsupply : ∀ t ∈ history, 0 < t.post.supply) :
    (∀ t ∈ history, t.pre.ValueKept p t.post ↔ t.call.Covered p fees t.pre) ∧
      ((∀ t ∈ history, t.call.Covered p fees t.pre) → start.ValueKept p final) := by
  induction hrun with
  | init => exact ⟨(fun t ht => nomatch ht), fun _ => ValueKept.refl p _⟩
  | @step h pool after op hrun hstep ih =>
      obtain ⟨hall, hkept⟩ := ih (fun t ht => hsupply t (List.mem_cons_of_mem _ ht))
      have hpool : 0 < pool.supply :=
        hrun.at_end (P := fun s => 0 < s.supply) hstart
          (fun t ht => hsupply t (List.mem_cons_of_mem _ ht))
      have hiff := valueKept_step_iff hvalid hpool hstep
      constructor
      · intro t ht
        cases ht with
        | head => exact hiff
        | tail _ ht => exact hall t ht
      · intro hcovered
        have hbefore := hkept (fun t ht => hcovered t (List.mem_cons_of_mem _ ht))
        exact hbefore.trans (hiff.mpr (hcovered _ List.mem_cons_self)) hpool

namespace Sample

def noFees : Fees where
  tradeFeeNumerator := 0
  tradeFeeDenominator := 0
  ownerTradeFeeNumerator := 0
  ownerTradeFeeDenominator := 0
  hostFeeNumerator := 0
  hostFeeDenominator := 0
  ownerWithdrawFeeNumerator := 0
  ownerWithdrawFeeDenominator := 0

/-- A pool of an odd value, at the price of one. -/
def oddPool : PoolAmounts := { tokenA := 1000, tokenB := 1001, supply := 1000 }

/-- A deposit that doubles the supply for one unit less than the value. -/
def oddDeposit : PoolOperation := .depositAll 1000 1000 1000

end Sample

/-- Doubling a supply of 1000 that is worth 2001 asks for 2000. -/
theorem odd_deposit_lowers_value :
    ∃ after, Sample.oddPool.step (.constantPrice 1) Sample.noFees Sample.oddDeposit = .ok after ∧
      Sample.noFees.validate = .ok () ∧ 0 < after.supply ∧ ¬Sample.oddPool.ValueKept 1 after := by
  refine ⟨{ tokenA := 2000, tokenB := 2001, supply := 2000 }, rfl, rfl, by decide, ?_⟩
  show ¬2001 * 2000 ≤ 4001 * 1000
  decide

/-- A swap of the same pool, as a run of one step. -/
theorem valueKept_iff_covered_swap :
    let swap : PoolOperation := .swap .aToB true 100 1
    let after : PoolAmounts := { tokenA := 1100, tokenB := 901, supply := 1000 }
    (Sample.oddPool.ValueKept 1 after ↔ swap.Covered 1 Sample.noFees Sample.oddPool) ∧
      Sample.oddPool.ValueKept 1 after := by
  intro swap after
  have hrun : Run (PoolAmounts.step (.constantPrice 1) Sample.noFees) Sample.oddPool
      [⟨Sample.oddPool, swap, after⟩] after := Run.step Run.init rfl
  obtain ⟨hiff, hkept⟩ := valueKept_iff_covered rfl hrun (by decide) (by
    intro t ht
    rw [List.mem_singleton.mp ht]
    decide)
  exact ⟨hiff _ List.mem_cons_self, hkept (by
    intro t ht
    rw [List.mem_singleton.mp ht]
    trivial)⟩

end Albus.Integration
