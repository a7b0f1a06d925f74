import Albus.Integration.PoolAmounts

/-! # What a share of a constant product pool is worth

    The product of the balances against the square of the supply.  The trade keeps
    the product without the fees; the owner fee stays in the pool and is minted
    for, by the root of what it adds, rounded down. -/

namespace Albus.Integration

open Albus.Lib Albus.Program

namespace PoolAmounts

/-- The product of the balances. -/
def product (pool : PoolAmounts) : Nat := pool.tokenA * pool.tokenB

/-- The value of a share has not fallen: `a * b / S²`, without the division. -/
def ProductKept (pool after : PoolAmounts) : Prop :=
  PriceKept pool.product (pool.supply ^ 2) after.product (after.supply ^ 2)

theorem ProductKept.refl (pool : PoolAmounts) : pool.ProductKept pool := PriceKept.refl _ _

theorem ProductKept.trans {pool mid after : PoolAmounts} (h : pool.ProductKept mid)
    (h' : mid.ProductKept after) (hsupply : 0 < mid.supply) : pool.ProductKept after :=
  PriceKept.trans h h' (Nat.pow_pos hsupply)

/-- A pool with something on both sides keeps something on both sides. -/
theorem ProductKept.product_pos {pool after : PoolAmounts} (h : pool.ProductKept after)
    (hprod : 0 < pool.product) (hsupply : 0 < after.supply) : 0 < after.product := by
  have hpos : 0 < pool.product * after.supply ^ 2 := Nat.mul_pos hprod (Nat.pow_pos hsupply)
  exact Nat.pos_of_mul_pos_right (lt_of_lt_of_le hpos h)

theorem product_source (pool : PoolAmounts) (tradeDirection : TradeDirection) :
    pool.source tradeDirection * pool.destination tradeDirection = pool.product := by
  cases tradeDirection with
  | aToB => rfl
  | bToA => exact Nat.mul_comm _ _

theorem product_traded (pool : PoolAmounts) (result : SwapResult)
    (tradeDirection : TradeDirection) :
    (pool.traded result tradeDirection).product =
      result.newSwapSourceAmount * result.newSwapDestinationAmount := by
  cases tradeDirection with
  | aToB => rfl
  | bToA => exact Nat.mul_comm _ _

theorem swapSource_traded (pool : PoolAmounts) (result : SwapResult)
    (tradeDirection : TradeDirection) :
    ConstantProduct.swapSource (pool.traded result tradeDirection).tokenA
      (pool.traded result tradeDirection).tokenB tradeDirection = result.newSwapSourceAmount := by
  cases tradeDirection with
  | aToB => rfl
  | bToA => rfl

end PoolAmounts

open PoolAmounts

/-! ## The three operations -/

theorem rootShares_of_withdrawSingle {fee a b supply minted : Nat}
    {tradeDirection : TradeDirection}
    (h : ConstantProduct.withdrawSingleTokenTypeExactOut fee a b supply tradeDirection .floor =
      some minted) :
    minted = rootShares supply (ConstantProduct.swapSource a b tradeDirection) fee := by
  unfold ConstantProduct.withdrawSingleTokenTypeExactOut at h
  simp only at h
  split at h
  · exact nomatch h
  · exact (Option.some.inj h).symm

/-- A swap keeps the value: the trade covers the product without the fees, and the owner fee
    is minted for by the root, rounded down. -/
theorem productKept_swap {fees : FeesInfo} {tradeDirection : TradeDirection} {host : Bool}
    {amountIn minimumAmountOut : Nat} {pool after : PoolAmounts}
    (hpos : 0 < pool.source tradeDirection)
    (h : pool.swap .constantProduct fees tradeDirection host amountIn minimumAmountOut =
      .ok after) : pool.ProductKept after := by
  obtain ⟨result, minted, hswap, hminted, rfl⟩ := swap_ok h
  obtain ⟨tradeFee, moved, -, -, -, hmoved, hsource, hnewSource, hdest, -, hnewDest⟩ :=
    CurveCalculator.swap_eq_some hswap
  obtain ⟨-, -, -, hcover⟩ := ConstantProduct.swap_eq_some hmoved hpos
  rw [product_source] at hcover
  -- without the owner fee the source side still covers the product
  have hless : result.newSwapSourceAmount - result.ownerFee =
      pool.source tradeDirection + moved.sourceAmountSwapped + tradeFee := by omega
  have hrest : pool.product ≤ (result.newSwapSourceAmount - result.ownerFee) *
      result.newSwapDestinationAmount := by
    rw [hless, hnewDest, hdest]
    exact le_trans hcover (Nat.mul_le_mul_right _ (Nat.le_add_right _ _))
  have hprice : PriceKept pool.product (pool.supply ^ 2)
      (result.newSwapSourceAmount * result.newSwapDestinationAmount)
      ((pool.supply + minted) ^ 2) := by
    rcases hminted with rfl | hminted
    · exact Nat.mul_le_mul_right _ (le_trans hrest (Nat.mul_le_mul_right _ (Nat.sub_le _ _)))
    · rw [rootShares_of_withdrawSingle hminted, swapSource_traded]
      exact priceKept_rootShares (by omega) hrest
  rw [← product_traded pool result tradeDirection] at hprice
  exact hprice

theorem tradingTokens_floor {pt s x amount : Nat}
    (h : ConstantProduct.tradingTokens pt s x .floor = some amount) : amount * s ≤ x * pt := by
  obtain ⟨product, hproduct, h⟩ := Option.bind_eq_some_iff.mp h
  obtain ⟨quotient, hquotient, h⟩ := Option.bind_eq_some_iff.mp h
  obtain ⟨-, hdiv⟩ := checkedDiv_eq_some hquotient
  rw [← Option.some.inj h, hdiv, checkedMul_eq_some hproduct, Nat.mul_comm x]
  exact Nat.div_mul_le_self _ _

/-- Rounded up, as long as the amount is not zero. -/
theorem tradingTokens_ceiling {pt s x amount : Nat}
    (h : ConstantProduct.tradingTokens pt s x .ceiling = some amount) (hpos : 0 < amount) :
    x * pt ≤ amount * s := by
  obtain ⟨product, hproduct, h⟩ := Option.bind_eq_some_iff.mp h
  obtain ⟨quotient, hquotient, h⟩ := Option.bind_eq_some_iff.mp h
  obtain ⟨hs, rfl⟩ := checkedDiv_eq_some hquotient
  rw [Nat.mul_comm x, ← checkedMul_eq_some hproduct]
  have hdiv := Nat.div_add_mod product s
  have hmod := Nat.mod_lt product hs
  simp only at h
  split at h
  · rw [← Option.some.inj h, Nat.add_mul, Nat.mul_comm (product / s)]
    omega
  · rename_i hexact
    have hamount := Option.some.inj h
    rw [← hamount, Nat.mul_comm]
    omega

theorem poolTokensToTradingTokens_eq_some {pt s a b : Nat} {roundDirection : RoundDirection}
    {results : TradingTokenResult}
    (h : ConstantProduct.poolTokensToTradingTokens pt s a b roundDirection = some results) :
    ConstantProduct.tradingTokens pt s a roundDirection = some results.tokenAAmount ∧
      ConstantProduct.tradingTokens pt s b roundDirection = some results.tokenBAmount := by
  obtain ⟨tokenA, htokenA, h⟩ := Option.bind_eq_some_iff.mp h
  obtain ⟨tokenB, htokenB, h⟩ := Option.bind_eq_some_iff.mp h
  rw [← Option.some.inj h]
  exact ⟨htokenA, htokenB⟩

theorem productKept_depositAll {pt maxA maxB : Nat} {pool : PoolAmounts}
    {amounts : DepositAmounts} (hsupply : 0 < pool.supply)
    (h : depositAllAmounts .constantProduct pt maxA maxB pool = .ok amounts) :
    pool.ProductKept (pool.deposit amounts.tokenA amounts.tokenB amounts.poolTokens) := by
  obtain ⟨results, hresults, hposA, hposB, rfl⟩ := depositAllAmounts_ok hsupply h
  obtain ⟨htokenA, htokenB⟩ := poolTokensToTradingTokens_eq_some hresults
  exact PriceKept.mul (priceKept_deposit_iff.mpr (tradingTokens_ceiling htokenA hposA))
    (priceKept_deposit_iff.mpr (tradingTokens_ceiling htokenB hposB))

theorem productKept_withdrawAll {fees : Fees} {fromFeeAccount : Bool} {pt minA minB : Nat}
    {pool after : PoolAmounts} {amounts : WithdrawAmounts}
    (h : withdrawAllAmounts .constantProduct fees fromFeeAccount pt minA minB pool = .ok amounts)
    (hafter : pool.withdraw amounts = .ok after) : pool.ProductKept after := by
  obtain ⟨results, hresults, htokenA, htokenB, -⟩ := withdrawAllAmounts_ok h
  obtain ⟨hle, hleA, hleB, rfl⟩ := withdraw_ok hafter
  obtain ⟨hfloorA, hfloorB⟩ := poolTokensToTradingTokens_eq_some hresults
  have hA : amounts.tokenA * pool.supply ≤ pool.tokenA * amounts.poolTokens := by
    refine le_trans (Nat.mul_le_mul_right _ ?_) (tradingTokens_floor hfloorA)
    rw [htokenA]
    exact Nat.min_le_right _ _
  have hB : amounts.tokenB * pool.supply ≤ pool.tokenB * amounts.poolTokens := by
    refine le_trans (Nat.mul_le_mul_right _ ?_) (tradingTokens_floor hfloorB)
    rw [htokenB]
    exact Nat.min_le_right _ _
  exact PriceKept.mul ((priceKept_withdraw_iff hleA hle).mpr hA)
    ((priceKept_withdraw_iff hleB hle).mpr hB)

/-! ## Runs -/

/-- The operations that take or pay both tokens, and the swap. -/
def PoolOperation.TwoSided : PoolOperation → Prop
  | .swap .. | .depositAll .. | .withdrawAll .. => True
  | .depositSingle .. | .withdrawSingle .. => False

theorem productKept_step {fees : Fees} {pool after : PoolAmounts} {op : PoolOperation}
    (hop : op.TwoSided) (hA : 0 < pool.tokenA) (hB : 0 < pool.tokenB) (hsupply : 0 < pool.supply)
    (h : pool.step .constantProduct fees op = .ok after) : pool.ProductKept after := by
  cases op with
  | swap tradeDirection host amountIn minimumAmountOut =>
      refine productKept_swap ?_ h
      cases tradeDirection with
      | aToB => exact hA
      | bToA => exact hB
  | depositAll pt maxA maxB =>
      obtain ⟨amounts, hamounts, h⟩ := bind_ok h
      rw [← Except.ok.inj h]
      exact productKept_depositAll hsupply hamounts
  | withdrawAll fromFeeAccount pt minA minB =>
      obtain ⟨amounts, hamounts, h⟩ := bind_ok h
      exact productKept_withdrawAll hamounts h
  | depositSingle tradeDirection amount minimum => exact hop.elim
  | withdrawSingle tradeDirection fromFeeAccount amount maximum => exact hop.elim

/-- **SHARE VALUE, CONSTANT PRODUCT.** No sequence of swaps, deposits and withdrawals of both
    tokens lowers the value of a share, as long as there are shares. -/
theorem productKept_run {fees : Fees} {start final : PoolAmounts}
    {history : List (Transition PoolAmounts PoolOperation)}
    (hrun : Run (PoolAmounts.step .constantProduct fees) start history final)
    (hA : 0 < start.tokenA) (hB : 0 < start.tokenB) (hstart : 0 < start.supply)
    (hops : ∀ t ∈ history, t.call.TwoSided ∧ 0 < t.post.supply) : start.ProductKept final := by
  -- the invariant: the value so far is kept, and there are shares to hold it
  suffices hinv : start.ProductKept final ∧ 0 < final.supply from hinv.1
  refine hrun.invariant (G := fun t => t.call.TwoSided ∧ 0 < t.post.supply)
    (I := fun _ pool => start.ProductKept pool ∧ 0 < pool.supply)
    ⟨ProductKept.refl start, hstart⟩ ?_ hops
  rintro _ pool op after ⟨hkept, hsupply⟩ hstep ⟨hop, hafter⟩
  have hprod : 0 < pool.product := hkept.product_pos (Nat.mul_pos hA hB) hsupply
  have hposA : 0 < pool.tokenA := Nat.pos_of_mul_pos_right hprod
  have hposB : 0 < pool.tokenB := Nat.pos_of_mul_pos_left hprod
  exact ⟨hkept.trans (productKept_step hop hposA hposB hsupply hstep) hsupply, hafter⟩

namespace Sample

/-- One trading fee in a hundred, and another for the owner, a fifth of it for the host. -/
def bothFees : Fees where
  tradeFeeNumerator := 1
  tradeFeeDenominator := 100
  ownerTradeFeeNumerator := 1
  ownerTradeFeeDenominator := 100
  hostFeeNumerator := 20
  hostFeeDenominator := 100
  ownerWithdrawFeeNumerator := 0
  ownerWithdrawFeeDenominator := 0

def evenPool : PoolAmounts := { tokenA := 1000, tokenB := 1000, supply := 1000 }

end Sample

/-- A swap with a host, and a withdrawal after it. -/
theorem productKept_run_sample :
    Sample.evenPool.ProductKept { tokenA := 1350, tokenB := 605, supply := 901 } := by
  have hswap : Sample.evenPool.step .constantProduct Sample.bothFees (.swap .aToB true 500 1) =
      .ok { tokenA := 1499, tokenB := 672, supply := 1001 } := by
    with_unfolding_all rfl
  have hwithdraw : PoolAmounts.step .constantProduct Sample.bothFees
      { tokenA := 1499, tokenB := 672, supply := 1001 } (.withdrawAll false 100 1 1) =
      .ok { tokenA := 1350, tokenB := 605, supply := 901 } := rfl
  refine productKept_run ((Run.init.step hswap).step hwithdraw) (by decide) (by decide)
    (by decide) ?_
  intro t ht
  rcases List.mem_cons.mp ht with rfl | ht
  · exact ⟨trivial, by decide⟩
  · rw [List.mem_singleton.mp ht]
    exact ⟨trivial, by decide⟩

end Albus.Integration
