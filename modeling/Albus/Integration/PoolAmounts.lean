import Albus.Integration.Curves
import Albus.Lib.Run

/-! # What the pool instructions move

    The arithmetic of the five instructions that move a pool's tokens, apart from
    the accounts: from the two balances and the supply of pool tokens to the
    amounts that are transferred, minted and burned.  The machine on the three
    numbers does nothing else. -/

namespace Albus.Integration

open Albus.Lib Albus.Program

/-- The balances of a pool's token accounts and the supply of its mint. -/
structure PoolAmounts where
  tokenA : Nat
  tokenB : Nat
  supply : Nat
  deriving DecidableEq, Repr

/-- `TokenError::InsufficientFunds` -/
def insufficientFunds : ProgramError := .custom 1

/-! ## The amounts -/

/-- The amounts of `swap`, up to the transfer of the source. -/
def swapAmounts (curve : SwapCurve) (fees : FeesInfo) (tradeDirection : TradeDirection)
    (amountIn minimumAmountOut swapSourceAmount swapDestinationAmount : Nat) :
    Except ProgramError SwapResult := do
  let result ← okOr
    (curve.calculator.swap amountIn swapSourceAmount swapDestinationAmount tradeDirection fees)
    SwapError.zeroTradingTokens.into
  require (minimumAmountOut ≤ result.destinationAmountSwapped) SwapError.exceededSlippage.into
  .ok result

/-- The pool tokens for the owner fee of a swap. -/
def ownerFeeTokens (curve : SwapCurve) (tradeDirection : TradeDirection)
    (ownerFee swapTokenAAmount swapTokenBAmount supply : Nat) : Except ProgramError Nat :=
  okOr
    (curve.calculator.withdrawSingleTokenTypeExactOut ownerFee swapTokenAAmount swapTokenBAmount
      supply tradeDirection .floor)
    SwapError.feeCalculationFailure.into

/-- The host's part of the pool tokens, and the rest. -/
def splitHostFee (fees : FeesInfo) (poolTokenAmount : Nat) : Except ProgramError (Nat × Nat) := do
  let hostFee ← okOr (fees.hostFee poolTokenAmount) SwapError.feeCalculationFailure.into
  let rest ← okOr (checkedSub poolTokenAmount hostFee) SwapError.feeCalculationFailure.into
  .ok (hostFee, rest)

/-- What the owner fee mints, to the host and to the pool's fee account together. -/
def feeMinted (curve : SwapCurve) (fees : FeesInfo) (tradeDirection : TradeDirection) (host : Bool)
    (ownerFee swapTokenAAmount swapTokenBAmount supply : Nat) : Except ProgramError Nat :=
  if 0 < ownerFee then do
    let poolTokens ← ownerFeeTokens curve tradeDirection ownerFee swapTokenAAmount
      swapTokenBAmount supply
    if host then do
      let (hostFee, rest) ← splitHostFee fees poolTokens
      .ok (hostFee + rest)
    else .ok poolTokens
  else .ok 0

/-- What `deposit_all_token_types` takes and mints. -/
structure DepositAmounts where
  tokenA : Nat
  tokenB : Nat
  poolTokens : Nat

def depositAllAmounts (curve : SwapCurve)
    (poolTokenAmount maximumTokenAAmount maximumTokenBAmount : Nat) (pool : PoolAmounts) :
    Except ProgramError DepositAmounts := do
  -- the first deposit mints the initial supply, whatever was asked for
  let (poolTokenAmount, poolMintSupply) :=
    if 0 < pool.supply then (poolTokenAmount, pool.supply)
    else (curve.calculator.newPoolSupply, curve.calculator.newPoolSupply)
  let results ← okOr
    (curve.calculator.poolTokensToTradingTokens poolTokenAmount poolMintSupply pool.tokenA
      pool.tokenB .ceiling)
    SwapError.zeroTradingTokens.into
  let tokenA ← depositAmount results.tokenAAmount maximumTokenAAmount
  let tokenB ← depositAmount results.tokenBAmount maximumTokenBAmount
  let poolTokens ← toU64 poolTokenAmount
  .ok { tokenA, tokenB, poolTokens }

/-- What `deposit_single_token_type` mints. -/
def depositSingleAmount (curve : SwapCurve) (fees : FeesInfo) (tradeDirection : TradeDirection)
    (sourceTokenAmount minimumPoolTokenAmount : Nat) (pool : PoolAmounts) :
    Except ProgramError Nat := do
  let poolTokenAmount ←
    if 0 < pool.supply then
      okOr
        (curve.calculator.depositSingle sourceTokenAmount pool.tokenA pool.tokenB pool.supply
          tradeDirection fees)
        SwapError.zeroTradingTokens.into
    else .ok curve.calculator.newPoolSupply
  let poolTokenAmount ← toU64 poolTokenAmount
  require (minimumPoolTokenAmount ≤ poolTokenAmount) SwapError.exceededSlippage.into
  require (poolTokenAmount ≠ 0) SwapError.zeroTradingTokens.into
  .ok poolTokenAmount

/-- What a withdrawal pays out, burns, and moves to the fee account. -/
structure WithdrawAmounts where
  tokenA : Nat
  tokenB : Nat
  poolTokens : Nat
  withdrawFee : Nat

/-- The amount of one token to pay out, against the caller's minimum. -/
def withdrawAmount (computed balance minimum : Nat) : Except ProgramError Nat := do
  let computed ← toU64 computed
  let amount := min balance computed
  require (minimum ≤ amount) SwapError.exceededSlippage.into
  require (¬(amount = 0 ∧ balance ≠ 0)) SwapError.zeroTradingTokens.into
  .ok amount

/-- The fee on pool tokens; none is taken from the fee account itself. -/
def withdrawFee (fees : Fees) (fromFeeAccount : Bool) (poolTokens : Nat) :
    Except ProgramError Nat :=
  if fromFeeAccount then .ok 0
  else okOr (fees.ownerWithdrawFee poolTokens) SwapError.feeCalculationFailure.into

/-- The amounts of `withdraw_all_token_types`. -/
def withdrawAllAmounts (curve : SwapCurve) (fees : Fees) (fromFeeAccount : Bool)
    (poolTokenAmount minimumTokenAAmount minimumTokenBAmount : Nat) (pool : PoolAmounts) :
    Except ProgramError WithdrawAmounts := do
  let withdrawFee ← withdrawFee fees fromFeeAccount poolTokenAmount
  let poolTokens ← okOr (checkedSub poolTokenAmount withdrawFee) SwapError.calculationFailure.into
  let results ← okOr
    (curve.calculator.poolTokensToTradingTokens poolTokens pool.supply pool.tokenA pool.tokenB
      .floor)
    SwapError.zeroTradingTokens.into
  let tokenA ← withdrawAmount results.tokenAAmount pool.tokenA minimumTokenAAmount
  let tokenB ← withdrawAmount results.tokenBAmount pool.tokenB minimumTokenBAmount
  .ok { tokenA, tokenB, poolTokens, withdrawFee }

/-- The amounts of `withdraw_single_token_type`. -/
def withdrawSingleAmounts (curve : SwapCurve) (fees : Fees) (fromFeeAccount : Bool)
    (tradeDirection : TradeDirection) (destinationTokenAmount maximumPoolTokenAmount : Nat)
    (pool : PoolAmounts) : Except ProgramError WithdrawAmounts := do
  let burnPoolTokenAmount ← okOr
    (curve.calculator.withdrawSingle destinationTokenAmount pool.tokenA pool.tokenB pool.supply
      tradeDirection fees)
    SwapError.zeroTradingTokens.into
  let withdrawFee ← withdrawFee fees fromFeeAccount burnPoolTokenAmount
  let poolTokenAmount ← okOr (checkedAdd 128 burnPoolTokenAmount withdrawFee)
    SwapError.calculationFailure.into
  let poolTokenAmount ← toU64 poolTokenAmount
  require (poolTokenAmount ≤ maximumPoolTokenAmount) SwapError.exceededSlippage.into
  require (poolTokenAmount ≠ 0) SwapError.zeroTradingTokens.into
  match tradeDirection with
  | .aToB =>
      .ok { tokenA := destinationTokenAmount, tokenB := 0, poolTokens := burnPoolTokenAmount,
            withdrawFee }
  | .bToA =>
      .ok { tokenA := 0, tokenB := destinationTokenAmount, poolTokens := burnPoolTokenAmount,
            withdrawFee }

/-! ## The machine -/

inductive PoolOperation where
  | swap (tradeDirection : TradeDirection) (host : Bool) (amountIn minimumAmountOut : Nat)
  | depositAll (poolTokenAmount maximumTokenAAmount maximumTokenBAmount : Nat)
  | depositSingle (tradeDirection : TradeDirection)
      (sourceTokenAmount minimumPoolTokenAmount : Nat)
  | withdrawAll (fromFeeAccount : Bool)
      (poolTokenAmount minimumTokenAAmount minimumTokenBAmount : Nat)
  | withdrawSingle (tradeDirection : TradeDirection) (fromFeeAccount : Bool)
      (destinationTokenAmount maximumPoolTokenAmount : Nat)

namespace PoolAmounts

/-- The balance a trade of the direction pays into. -/
def source (pool : PoolAmounts) : TradeDirection → Nat
  | .aToB => pool.tokenA
  | .bToA => pool.tokenB

/-- The balance it takes from. -/
def destination (pool : PoolAmounts) : TradeDirection → Nat
  | .aToB => pool.tokenB
  | .bToA => pool.tokenA

/-- The balances after a trade. -/
def traded (pool : PoolAmounts) (result : SwapResult) : TradeDirection → PoolAmounts
  | .aToB =>
      { pool with
        tokenA := result.newSwapSourceAmount, tokenB := result.newSwapDestinationAmount }
  | .bToA =>
      { pool with
        tokenA := result.newSwapDestinationAmount, tokenB := result.newSwapSourceAmount }

def swap (curve : SwapCurve) (fees : FeesInfo) (tradeDirection : TradeDirection) (host : Bool)
    (amountIn minimumAmountOut : Nat) (pool : PoolAmounts) : Except ProgramError PoolAmounts := do
  let result ← swapAmounts curve fees tradeDirection amountIn minimumAmountOut
    (pool.source tradeDirection) (pool.destination tradeDirection)
  let _ ← toU64 result.sourceAmountSwapped
  let traded := pool.traded result tradeDirection
  let poolTokens ← feeMinted curve fees tradeDirection host result.ownerFee traded.tokenA
    traded.tokenB pool.supply
  let _ ← toU64 result.destinationAmountSwapped
  .ok { traded with supply := pool.supply + poolTokens }

def deposit (pool : PoolAmounts) (tokenA tokenB poolTokens : Nat) : PoolAmounts :=
  { tokenA := pool.tokenA + tokenA
    tokenB := pool.tokenB + tokenB
    supply := pool.supply + poolTokens }

/-- The burn and the transfers of a withdrawal fail where they are not covered. -/
def withdraw (pool : PoolAmounts) (amounts : WithdrawAmounts) :
    Except ProgramError PoolAmounts := do
  let supply ← okOr (checkedSub pool.supply amounts.poolTokens) insufficientFunds
  let tokenA ← okOr (checkedSub pool.tokenA amounts.tokenA) insufficientFunds
  let tokenB ← okOr (checkedSub pool.tokenB amounts.tokenB) insufficientFunds
  .ok { tokenA, tokenB, supply }

/-- One operation on the three numbers. -/
def step (curve : SwapCurve) (fees : Fees) (pool : PoolAmounts) :
    PoolOperation → Except ProgramError PoolAmounts
  | .swap tradeDirection host amountIn minimumAmountOut =>
      pool.swap curve fees.toFeesInfo tradeDirection host amountIn minimumAmountOut
  | .depositAll poolTokenAmount maximumTokenAAmount maximumTokenBAmount => do
      let amounts ← depositAllAmounts curve poolTokenAmount maximumTokenAAmount
        maximumTokenBAmount pool
      .ok (pool.deposit amounts.tokenA amounts.tokenB amounts.poolTokens)
  | .depositSingle tradeDirection sourceTokenAmount minimumPoolTokenAmount => do
      let poolTokens ← depositSingleAmount curve fees.toFeesInfo tradeDirection sourceTokenAmount
        minimumPoolTokenAmount pool
      match tradeDirection with
      | .aToB => .ok (pool.deposit sourceTokenAmount 0 poolTokens)
      | .bToA => .ok (pool.deposit 0 sourceTokenAmount poolTokens)
  | .withdrawAll fromFeeAccount poolTokenAmount minimumTokenAAmount minimumTokenBAmount => do
      let amounts ← withdrawAllAmounts curve fees fromFeeAccount poolTokenAmount
        minimumTokenAAmount minimumTokenBAmount pool
      pool.withdraw amounts
  | .withdrawSingle tradeDirection fromFeeAccount destinationTokenAmount
      maximumPoolTokenAmount => do
      let amounts ← withdrawSingleAmounts curve fees fromFeeAccount tradeDirection
        destinationTokenAmount maximumPoolTokenAmount pool
      pool.withdraw amounts

end PoolAmounts

/-! ## What the amounts are -/

theorem toU64_ok {n m : Nat} (h : toU64 n = .ok m) : m = n := by
  have hsome := okOr_ok h
  unfold tryU64 at hsome
  split at hsome
  · exact (Option.some.inj hsome).symm
  · exact nomatch hsome

/-- What a trade with fees is made of. -/
theorem CurveCalculator.swap_eq_some {calculator : CurveCalculator} {amountIn x y : Nat}
    {tradeDirection : TradeDirection} {fees : FeesInfo} {result : SwapResult}
    (h : calculator.swap amountIn x y tradeDirection fees = some result) :
    ∃ tradeFee moved, fees.tradingFee amountIn = some tradeFee ∧
      fees.ownerTradingFee amountIn = some result.ownerFee ∧
      tradeFee + result.ownerFee ≤ amountIn ∧
      calculator.swapWithoutFees (amountIn - (tradeFee + result.ownerFee)) x y tradeDirection =
        some moved ∧
      result.sourceAmountSwapped = moved.sourceAmountSwapped + (tradeFee + result.ownerFee) ∧
      result.newSwapSourceAmount = x + result.sourceAmountSwapped ∧
      result.destinationAmountSwapped = moved.destinationAmountSwapped ∧
      result.destinationAmountSwapped ≤ y ∧
      result.newSwapDestinationAmount = y - result.destinationAmountSwapped := by
  simp only [CurveCalculator.swap, Option.bind_eq_bind, Option.bind_eq_some_iff] at h
  obtain ⟨tradeFee, htrade, ownerFee, howner, totalFees, htotal, lessFees, hless, moved, hmoved,
    source, hsource, newSource, hnewSource, newDestination, hnewDestination, hresult⟩ := h
  obtain rfl := Option.some.inj hresult
  obtain ⟨hle, rfl⟩ := checkedSub_eq_some hless
  obtain ⟨hdest, rfl⟩ := checkedSub_eq_some hnewDestination
  obtain rfl := checkedAdd_eq_some htotal
  obtain rfl := checkedAdd_eq_some hsource
  obtain rfl := checkedAdd_eq_some hnewSource
  exact ⟨tradeFee, moved, htrade, howner, hle, hmoved, rfl, rfl, rfl, hdest, rfl⟩

theorem swapAmounts_ok {curve : SwapCurve} {fees : FeesInfo} {tradeDirection : TradeDirection}
    {amountIn minimumAmountOut x y : Nat} {result : SwapResult}
    (h : swapAmounts curve fees tradeDirection amountIn minimumAmountOut x y = .ok result) :
    curve.calculator.swap amountIn x y tradeDirection fees = some result := by
  obtain ⟨result', hresult, h⟩ := bind_ok h
  obtain ⟨-, h⟩ := require_bind_ok h
  rw [← Except.ok.inj h]
  exact okOr_ok hresult

theorem splitHostFee_ok {fees : FeesInfo} {poolTokens : Nat} {parts : Nat × Nat}
    (h : splitHostFee fees poolTokens = .ok parts) : parts.1 + parts.2 = poolTokens := by
  obtain ⟨hostFee, -, h⟩ := bind_ok h
  obtain ⟨rest, hrest, h⟩ := bind_ok h
  obtain ⟨hle, heq⟩ := checkedSub_eq_some (okOr_ok hrest)
  rw [← Except.ok.inj h, heq]
  exact Nat.add_sub_cancel' hle

theorem feeMinted_ok {curve : SwapCurve} {fees : FeesInfo} {tradeDirection : TradeDirection}
    {host : Bool} {ownerFee a b supply minted : Nat}
    (h : feeMinted curve fees tradeDirection host ownerFee a b supply = .ok minted) :
    ownerFee = 0 ∧ minted = 0 ∨ 0 < ownerFee ∧
      curve.calculator.withdrawSingleTokenTypeExactOut ownerFee a b supply tradeDirection .floor =
        some minted := by
  unfold feeMinted at h
  split at h
  · rename_i hpos
    right
    obtain ⟨poolTokens, hpool, h⟩ := bind_ok h
    refine ⟨hpos, ?_⟩
    split at h
    · obtain ⟨parts, hparts, h⟩ := bind_ok h
      rw [← Except.ok.inj h, splitHostFee_ok hparts]
      exact okOr_ok hpool
    · rw [← Except.ok.inj h]
      exact okOr_ok hpool
  · rename_i hzero
    exact Or.inl ⟨Nat.eq_zero_of_not_pos hzero, (Except.ok.inj h).symm⟩

theorem depositAmount_ok {computed maximum amount : Nat}
    (h : depositAmount computed maximum = .ok amount) : amount = computed ∧ 0 < computed := by
  obtain ⟨amount', hamount, h⟩ := bind_ok h
  obtain ⟨-, h⟩ := require_bind_ok h
  obtain ⟨hne, h⟩ := require_bind_ok h
  rw [toU64_ok hamount] at hne h
  exact ⟨(Except.ok.inj h).symm, Nat.pos_of_ne_zero hne⟩

theorem withdrawAmount_ok {computed balance minimum amount : Nat}
    (h : withdrawAmount computed balance minimum = .ok amount) : amount = min balance computed := by
  obtain ⟨computed', hcomputed, h⟩ := bind_ok h
  obtain ⟨-, h⟩ := require_bind_ok h
  obtain ⟨-, h⟩ := require_bind_ok h
  rw [toU64_ok hcomputed] at h
  exact (Except.ok.inj h).symm

/-- A deposit of both tokens into a pool that has a supply. -/
theorem depositAllAmounts_ok {curve : SwapCurve} {pt maxA maxB : Nat} {pool : PoolAmounts}
    {amounts : DepositAmounts} (hsupply : 0 < pool.supply)
    (h : depositAllAmounts curve pt maxA maxB pool = .ok amounts) :
    ∃ results, curve.calculator.poolTokensToTradingTokens pt pool.supply pool.tokenA pool.tokenB
        .ceiling = some results ∧
      0 < results.tokenAAmount ∧ 0 < results.tokenBAmount ∧
      amounts = { tokenA := results.tokenAAmount, tokenB := results.tokenBAmount,
                  poolTokens := pt } := by
  simp only [depositAllAmounts, if_pos hsupply] at h
  obtain ⟨results, hresults, h⟩ := bind_ok h
  obtain ⟨tokenA, htokenA, h⟩ := bind_ok h
  obtain ⟨tokenB, htokenB, h⟩ := bind_ok h
  obtain ⟨poolTokens, hpool, h⟩ := bind_ok h
  obtain ⟨heqA, hposA⟩ := depositAmount_ok htokenA
  obtain ⟨heqB, hposB⟩ := depositAmount_ok htokenB
  rw [heqA, heqB, toU64_ok hpool] at h
  exact ⟨results, okOr_ok hresults, hposA, hposB, (Except.ok.inj h).symm⟩

theorem depositSingleAmount_ok {curve : SwapCurve} {fees : FeesInfo}
    {tradeDirection : TradeDirection} {amount minimum : Nat} {pool : PoolAmounts} {minted : Nat}
    (hsupply : 0 < pool.supply)
    (h : depositSingleAmount curve fees tradeDirection amount minimum pool = .ok minted) :
    curve.calculator.depositSingle amount pool.tokenA pool.tokenB pool.supply tradeDirection fees =
      some minted ∧ 0 < minted := by
  simp only [depositSingleAmount, if_pos hsupply] at h
  obtain ⟨computed, hcomputed, h⟩ := bind_ok h
  obtain ⟨poolTokens, hpool, h⟩ := bind_ok h
  obtain ⟨-, h⟩ := require_bind_ok h
  obtain ⟨hne, h⟩ := require_bind_ok h
  rw [toU64_ok hpool] at hne h
  rw [← Except.ok.inj h]
  exact ⟨okOr_ok hcomputed, Nat.pos_of_ne_zero hne⟩

/-- What a withdrawal of both tokens pays out. -/
theorem withdrawAllAmounts_ok {curve : SwapCurve} {fees : Fees} {fromFeeAccount : Bool}
    {pt minA minB : Nat} {pool : PoolAmounts} {amounts : WithdrawAmounts}
    (h : withdrawAllAmounts curve fees fromFeeAccount pt minA minB pool = .ok amounts) :
    ∃ results, curve.calculator.poolTokensToTradingTokens amounts.poolTokens pool.supply
        pool.tokenA pool.tokenB .floor = some results ∧
      amounts.tokenA = min pool.tokenA results.tokenAAmount ∧
      amounts.tokenB = min pool.tokenB results.tokenBAmount ∧
      amounts.poolTokens + amounts.withdrawFee = pt := by
  obtain ⟨fee, -, h⟩ := bind_ok h
  obtain ⟨burned, hburned, h⟩ := bind_ok h
  obtain ⟨results, hresults, h⟩ := bind_ok h
  obtain ⟨tokenA, htokenA, h⟩ := bind_ok h
  obtain ⟨tokenB, htokenB, h⟩ := bind_ok h
  obtain ⟨hle, heq⟩ := checkedSub_eq_some (okOr_ok hburned)
  rw [heq] at hresults h
  rw [← Except.ok.inj h]
  exact ⟨results, okOr_ok hresults, withdrawAmount_ok htokenA, withdrawAmount_ok htokenB,
    Nat.sub_add_cancel hle⟩

theorem calculateFee_zero {numerator denominator fee : Nat}
    (h : calculateFee 0 numerator denominator = some fee) : fee = 0 := by
  rw [calculateFee, if_pos (Or.inr rfl)] at h
  exact (Option.some.inj h).symm

/-- The two sides of a withdrawal of one token: the one asked for, and nothing. -/
def WithdrawAmounts.IsSingle (amounts : WithdrawAmounts) (tradeDirection : TradeDirection)
    (destinationTokenAmount : Nat) : Prop :=
  match tradeDirection with
  | .aToB => amounts.tokenA = destinationTokenAmount ∧ amounts.tokenB = 0
  | .bToA => amounts.tokenA = 0 ∧ amounts.tokenB = destinationTokenAmount

/-- What a withdrawal of one token burns. -/
theorem withdrawSingleAmounts_ok {curve : SwapCurve} {fees : Fees} {fromFeeAccount : Bool}
    {tradeDirection : TradeDirection} {amount maximum : Nat} {pool : PoolAmounts}
    {amounts : WithdrawAmounts}
    (h : withdrawSingleAmounts curve fees fromFeeAccount tradeDirection amount maximum pool =
      .ok amounts) :
    curve.calculator.withdrawSingle amount pool.tokenA pool.tokenB pool.supply tradeDirection
        fees = some amounts.poolTokens ∧
      0 < amounts.poolTokens ∧ amounts.IsSingle tradeDirection amount := by
  obtain ⟨burned, hburned, h⟩ := bind_ok h
  obtain ⟨fee, hfee, h⟩ := bind_ok h
  obtain ⟨total, htotal, h⟩ := bind_ok h
  obtain ⟨total', htotal', h⟩ := bind_ok h
  obtain ⟨-, h⟩ := require_bind_ok h
  obtain ⟨hne, h⟩ := require_bind_ok h
  rw [toU64_ok htotal', checkedAdd_eq_some (okOr_ok htotal)] at hne
  -- nothing burned would leave nothing to take a fee from
  have hpos : 0 < burned := by
    rcases Nat.eq_zero_or_pos burned with rfl | hpos
    · refine absurd ?_ hne
      unfold withdrawFee at hfee
      split at hfee
      · rw [← Except.ok.inj hfee]
      · rw [calculateFee_zero (okOr_ok hfee)]
    · exact hpos
  cases tradeDirection with
  | aToB =>
      rw [← Except.ok.inj h]
      exact ⟨okOr_ok hburned, hpos, rfl, rfl⟩
  | bToA =>
      rw [← Except.ok.inj h]
      exact ⟨okOr_ok hburned, hpos, rfl, rfl⟩

namespace PoolAmounts

theorem withdraw_ok {pool after : PoolAmounts} {amounts : WithdrawAmounts}
    (h : pool.withdraw amounts = .ok after) :
    amounts.poolTokens ≤ pool.supply ∧ amounts.tokenA ≤ pool.tokenA ∧
      amounts.tokenB ≤ pool.tokenB ∧
      after = { tokenA := pool.tokenA - amounts.tokenA, tokenB := pool.tokenB - amounts.tokenB,
                supply := pool.supply - amounts.poolTokens } := by
  obtain ⟨supply, hsupply, h⟩ := bind_ok h
  obtain ⟨tokenA, htokenA, h⟩ := bind_ok h
  obtain ⟨tokenB, htokenB, h⟩ := bind_ok h
  obtain ⟨hleS, heqS⟩ := checkedSub_eq_some (okOr_ok hsupply)
  obtain ⟨hleA, heqA⟩ := checkedSub_eq_some (okOr_ok htokenA)
  obtain ⟨hleB, heqB⟩ := checkedSub_eq_some (okOr_ok htokenB)
  rw [heqS, heqA, heqB] at h
  exact ⟨hleS, hleA, hleB, (Except.ok.inj h).symm⟩

/-- A swap: the trade, and the pool tokens minted for its owner fee. -/
theorem swap_ok {curve : SwapCurve} {fees : FeesInfo} {tradeDirection : TradeDirection}
    {host : Bool} {amountIn minimumAmountOut : Nat} {pool after : PoolAmounts}
    (h : pool.swap curve fees tradeDirection host amountIn minimumAmountOut = .ok after) :
    ∃ result minted, curve.calculator.swap amountIn (pool.source tradeDirection)
        (pool.destination tradeDirection) tradeDirection fees = some result ∧
      (minted = 0 ∨ curve.calculator.withdrawSingleTokenTypeExactOut result.ownerFee
        (pool.traded result tradeDirection).tokenA (pool.traded result tradeDirection).tokenB
        pool.supply tradeDirection .floor = some minted) ∧
      after = { pool.traded result tradeDirection with supply := pool.supply + minted } := by
  obtain ⟨result, hresult, h⟩ := bind_ok h
  obtain ⟨-, -, h⟩ := bind_ok h
  obtain ⟨minted, hminted, h⟩ := bind_ok h
  obtain ⟨-, -, h⟩ := bind_ok h
  refine ⟨result, minted, swapAmounts_ok hresult, ?_, (Except.ok.inj h).symm⟩
  rcases feeMinted_ok hminted with ⟨-, hzero⟩ | ⟨-, hsome⟩
  · exact Or.inl hzero
  · exact Or.inr hsome

end PoolAmounts

end Albus.Integration
