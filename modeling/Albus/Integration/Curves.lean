import Albus.Integration.Swap
import Albus.Lib.Shares

/-! # The curves of the token swap

    `programs/albus-swap/src/curve`: the three calculators behind the trait, the
    byte that chooses one, and the fees.  `checked_ceil_div` is the one `spl_math`
    publishes; the roots of its `PreciseNumber` are taken exactly and rounded by
    the code's own floor or ceiling. -/

namespace Albus.Integration

open Albus.Lib Albus.Program

/-- `opposite` -/
def TradeDirection.opposite : TradeDirection → TradeDirection
  | .aToB => .bToA
  | .bToA => .aToB

/-! ## Division -/

/-- `checked_ceil_div`, on words of `w` bits: the quotient rounded up, and the least divisor
    that gives it. -/
def checkedCeilDiv (w a rhs : Nat) : Option (Nat × Nat) := do
  let quotient ← checkedDiv a rhs
  if quotient = 0 then do
    -- a small number by a big one
    let twice ← checkedMul w a 2
    some (if rhs ≤ twice then (1, 0) else (0, 0))
  else if 0 < a % rhs then do
    let quotient ← checkedAdd w quotient 1
    let rhs ← checkedDiv a quotient
    let rhs ← if 0 < a % quotient then checkedAdd w rhs 1 else some rhs
    some (quotient, rhs)
  else some (quotient, rhs)

theorem ceilDiv_of_mod_pos {a b : Nat} (hb : 0 < b) (h : 0 < a % b) : a ⌈/⌉ b = a / b + 1 := by
  have hdiv := Nat.div_add_mod a b
  have hlt := Nat.mod_lt a hb
  refine le_antisymm ?_ ?_
  · rw [ceilDiv_le_iff_le_mul hb, Nat.mul_add]
    omega
  · refine Nat.succ_le_of_lt (lt_of_not_ge ?_)
    intro hle
    have hmul := (ceilDiv_le_iff_le_mul hb).mp hle
    omega

theorem ceilDiv_of_mod_eq_zero {a b : Nat} (hb : 0 < b) (h : a % b = 0) : a ⌈/⌉ b = a / b := by
  have hdiv := Nat.div_add_mod a b
  refine le_antisymm ?_ ?_
  · rw [ceilDiv_le_iff_le_mul hb]
    omega
  · rw [← Nat.floorDiv_eq_div]
    exact floorDiv_le_ceilDiv

/-- A quotient of zero has no divisor; any other is rounded up and covers the dividend. -/
theorem checkedCeilDiv_eq_some {w a b q r : Nat} (h : checkedCeilDiv w a b = some (q, r)) :
    0 < b ∧ (a < b ∧ r = 0 ∧ q = (if b ≤ a * 2 then 1 else 0) ∨
      b ≤ a ∧ q = a ⌈/⌉ b ∧ a ≤ q * r) := by
  simp only [checkedCeilDiv, Option.bind_eq_bind, Option.bind_eq_some_iff] at h
  obtain ⟨quotient, hquotient, h⟩ := h
  obtain ⟨hb, rfl⟩ := checkedDiv_eq_some hquotient
  refine ⟨hb, ?_⟩
  have hdiv := Nat.div_add_mod a b
  split at h
  · rename_i hzero
    left
    obtain ⟨twice, htwice, h⟩ := Option.bind_eq_some_iff.mp h
    rw [checkedMul_eq_some htwice] at h
    refine ⟨(Nat.div_eq_zero_iff_lt hb).mp hzero, ?_⟩
    split at h
    · rename_i hle
      obtain ⟨rfl, rfl⟩ := Prod.mk.inj (Option.some.inj h)
      exact ⟨rfl, (if_pos hle).symm⟩
    · rename_i hle
      obtain ⟨rfl, rfl⟩ := Prod.mk.inj (Option.some.inj h)
      exact ⟨rfl, (if_neg hle).symm⟩
  · rename_i hpos
    right
    refine ⟨Nat.le_of_not_lt (fun hlt => hpos (Nat.div_eq_of_lt hlt)), ?_⟩
    split at h
    · rename_i hrem
      obtain ⟨quotient, hquotient, h⟩ := Option.bind_eq_some_iff.mp h
      obtain ⟨rhs, hrhs, h⟩ := Option.bind_eq_some_iff.mp h
      rw [checkedAdd_eq_some hquotient] at hrhs h
      obtain ⟨-, rfl⟩ := checkedDiv_eq_some hrhs
      have hmod := Nat.div_add_mod a (a / b + 1)
      have hlt : a % (a / b + 1) < a / b + 1 := Nat.mod_lt a (Nat.succ_pos _)
      rw [ceilDiv_of_mod_pos hb hrem]
      split at h
      · obtain ⟨rhs, hrhs, h⟩ := Option.bind_eq_some_iff.mp h
        obtain ⟨rfl, rfl⟩ := Prod.mk.inj (Option.some.inj h)
        rw [checkedAdd_eq_some hrhs, Nat.mul_add]
        exact ⟨rfl, by omega⟩
      · obtain ⟨rfl, rfl⟩ := Prod.mk.inj (Option.some.inj h)
        exact ⟨rfl, by omega⟩
    · rename_i hrem
      obtain ⟨rfl, rfl⟩ := Prod.mk.inj (Option.some.inj h)
      rw [ceilDiv_of_mod_eq_zero hb (Nat.eq_zero_of_not_pos hrem), Nat.mul_comm]
      exact ⟨rfl, by omega⟩

/-- A quotient that is not zero is the rounded one. -/
theorem checkedCeilDiv_quotient {w a b q r : Nat} (h : checkedCeilDiv w a b = some (q, r))
    (hq : q ≠ 0) : 0 < b ∧ q = a ⌈/⌉ b := by
  obtain ⟨hb, ⟨hlt, -, hquotient⟩ | ⟨-, hquotient, -⟩⟩ := checkedCeilDiv_eq_some h
  · refine ⟨hb, ?_⟩
    split at hquotient
    · have hmod : 0 < a % b := by
        rw [Nat.mod_eq_of_lt hlt]
        omega
      rw [hquotient, ceilDiv_of_mod_pos hb hmod, Nat.div_eq_of_lt hlt]
    · exact absurd hquotient hq
  · exact ⟨hb, hquotient⟩

/-- `map_zero_to_none` -/
def mapZeroToNone (x : Nat) : Option Nat := if x = 0 then none else some x

theorem mapZeroToNone_eq_some {x y : Nat} (h : mapZeroToNone x = some y) : 0 < x ∧ y = x := by
  unfold mapZeroToNone at h
  split at h
  · exact nomatch h
  · rename_i hne
    exact ⟨Nat.pos_of_ne_zero hne, (Option.some.inj h).symm⟩

/-! ## Constant product -/

namespace ConstantProduct

/-- `swap` -/
def swap (sourceAmount swapSourceAmount swapDestinationAmount : Nat) :
    Option SwapWithoutFeesResult := do
  let invariant ← checkedMul 128 swapSourceAmount swapDestinationAmount
  let newSwapSourceAmount ← checkedAdd 128 swapSourceAmount sourceAmount
  let (newSwapDestinationAmount, newSwapSourceAmount) ←
    checkedCeilDiv 128 invariant newSwapSourceAmount
  let sourceAmountSwapped ← checkedSub newSwapSourceAmount swapSourceAmount
  let destination ← checkedSub swapDestinationAmount newSwapDestinationAmount
  let destinationAmountSwapped ← mapZeroToNone destination
  some { sourceAmountSwapped, destinationAmountSwapped }

/-- What a constant product swap moves, when its source side is not empty. -/
theorem swap_eq_some {s x y : Nat} {result : SwapWithoutFeesResult}
    (h : swap s x y = some result) (hx : 0 < x) :
    0 < result.destinationAmountSwapped ∧ result.destinationAmountSwapped ≤ y ∧
      0 < result.sourceAmountSwapped ∧
      x * y ≤ (x + result.sourceAmountSwapped) * (y - result.destinationAmountSwapped) := by
  simp only [swap, Option.bind_eq_bind, Option.bind_eq_some_iff] at h
  obtain ⟨invariant, hinvariant, newSource, hnewSource, ⟨newDestination, divisor⟩, hdiv, source,
    hsource, destination, hdestination, swapped, hswapped, hresult⟩ := h
  obtain ⟨hdivisor, rfl⟩ := checkedSub_eq_some hsource
  obtain ⟨hle, rfl⟩ := checkedSub_eq_some hdestination
  obtain ⟨hpos, rfl⟩ := mapZeroToNone_eq_some hswapped
  rw [checkedMul_eq_some hinvariant] at hdiv
  obtain rfl := Option.some.inj hresult
  obtain ⟨-, ⟨-, hzero, -⟩ | ⟨-, -, hcover⟩⟩ := checkedCeilDiv_eq_some hdiv
  · -- a divisor of zero does not reach the source side
    simp only at hdivisor
    omega
  · simp only at *
    have hback : x + (divisor - x) = divisor := by omega
    have hrest : y - (y - newDestination) = newDestination := by omega
    refine ⟨hpos, by omega, ?_, ?_⟩
    · refine Nat.sub_pos_of_lt (lt_of_not_ge ?_)
      intro hge
      have hlt : newDestination * divisor < x * y := by
        calc newDestination * divisor ≤ newDestination * x := Nat.mul_le_mul_left _ hge
          _ < y * x := Nat.mul_lt_mul_of_pos_right (by omega) hx
          _ = x * y := Nat.mul_comm y x
      omega
    · rw [hback, hrest, Nat.mul_comm divisor]
      exact hcover

/-- A swap against an empty source side takes the whole destination for nothing. -/
theorem swap_empty {s y : Nat} {result : SwapWithoutFeesResult}
    (h : swap s 0 y = some result) :
    result.sourceAmountSwapped = 0 ∧ result.destinationAmountSwapped = y := by
  simp only [swap, Option.bind_eq_bind, Option.bind_eq_some_iff] at h
  obtain ⟨invariant, hinvariant, newSource, hnewSource, ⟨newDestination, divisor⟩, hdiv, source,
    hsource, destination, hdestination, swapped, hswapped, hresult⟩ := h
  obtain ⟨-, rfl⟩ := checkedSub_eq_some hsource
  obtain ⟨-, rfl⟩ := checkedSub_eq_some hdestination
  obtain ⟨-, rfl⟩ := mapZeroToNone_eq_some hswapped
  rw [checkedMul_eq_some hinvariant, Nat.zero_mul] at hdiv
  obtain rfl := Option.some.inj hresult
  obtain ⟨hb, ⟨-, hdivisor, hquotient⟩ | ⟨hle, -, -⟩⟩ := checkedCeilDiv_eq_some hdiv
  · rw [if_neg (by omega)] at hquotient
    simp only at hdivisor hquotient ⊢
    omega
  · omega
/-- One token of `pool_tokens_to_trading_tokens`. -/
def tradingTokens (poolTokens poolTokenSupply swapTokenAmount : Nat)
    (roundDirection : RoundDirection) : Option Nat := do
  let product ← checkedMul 128 poolTokens swapTokenAmount
  let tokenAmount ← checkedDiv product poolTokenSupply
  match roundDirection with
  | .floor => some tokenAmount
  | .ceiling =>
      -- an amount of zero stays zero, to be rejected later
      if 0 < product % poolTokenSupply ∧ 0 < tokenAmount then some (tokenAmount + 1)
      else some tokenAmount

/-- `pool_tokens_to_trading_tokens` -/
def poolTokensToTradingTokens (poolTokens poolTokenSupply swapTokenAAmount swapTokenBAmount : Nat)
    (roundDirection : RoundDirection) : Option TradingTokenResult := do
  let tokenAAmount ← tradingTokens poolTokens poolTokenSupply swapTokenAAmount roundDirection
  let tokenBAmount ← tradingTokens poolTokens poolTokenSupply swapTokenBAmount roundDirection
  some { tokenAAmount, tokenBAmount }

/-- The side a single-sided deposit or withdrawal is about. -/
def swapSource (swapTokenAAmount swapTokenBAmount : Nat) (tradeDirection : TradeDirection) : Nat :=
  match tradeDirection with
  | .aToB => swapTokenAAmount
  | .bToA => swapTokenBAmount

/-- `deposit_single_token_type`; both callers round down. -/
def depositSingleTokenType (sourceAmount swapTokenAAmount swapTokenBAmount poolSupply : Nat)
    (tradeDirection : TradeDirection) : Option Nat :=
  let swapSourceAmount := swapSource swapTokenAAmount swapTokenBAmount tradeDirection
  if swapSourceAmount = 0 then none
  else some (rootSharesIn poolSupply swapSourceAmount sourceAmount)

/-- `withdraw_single_token_type_exact_out` -/
def withdrawSingleTokenTypeExactOut
    (sourceAmount swapTokenAAmount swapTokenBAmount poolSupply : Nat)
    (tradeDirection : TradeDirection) (roundDirection : RoundDirection) : Option Nat :=
  let swapSourceAmount := swapSource swapTokenAAmount swapTokenBAmount tradeDirection
  if swapSourceAmount = 0 then none
  else
    match roundDirection with
    | .floor => some (rootShares poolSupply swapSourceAmount sourceAmount)
    | .ceiling => some (rootSharesCeil poolSupply swapSourceAmount sourceAmount)

end ConstantProduct

/-- `INITIAL_SWAP_POOL_AMOUNT` -/
def initialSwapPoolAmount : Nat := 1000000000

def constantProductCurve : CurveCalculator where
  swapWithoutFees sourceAmount swapSourceAmount swapDestinationAmount _ :=
    ConstantProduct.swap sourceAmount swapSourceAmount swapDestinationAmount
  newPoolSupply := initialSwapPoolAmount
  poolTokensToTradingTokens := ConstantProduct.poolTokensToTradingTokens
  depositSingleTokenType := ConstantProduct.depositSingleTokenType
  withdrawSingleTokenTypeExactOut := ConstantProduct.withdrawSingleTokenTypeExactOut
  allowsDeposits := true

/-! ## Constant price -/

namespace ConstantPrice

/-- The value in token A of an amount of the side a trade of the direction takes. -/
def tokenValue (tokenBPrice amount : Nat) (tradeDirection : TradeDirection) : Nat :=
  match tradeDirection with
  | .aToB => amount
  | .bToA => amount * tokenBPrice

/-- `as_u128`: a number that does not fit panics. -/
def asU128 (n : Nat) : Option Nat := if n < 2 ^ 128 then some n else none

/-- The value of the amount given, on words of 256 bits. -/
def givenValue (tokenBPrice sourceAmount : Nat) : TradeDirection → Option Nat
  | .aToB => some sourceAmount
  | .bToA => checkedMul 256 sourceAmount tokenBPrice

/-- `trading_tokens_to_pool_tokens`, on words of 256 bits. -/
def tradingTokensToPoolTokens (tokenBPrice sourceAmount swapTokenAAmount swapTokenBAmount
    poolSupply : Nat) (tradeDirection : TradeDirection) (roundDirection : RoundDirection) :
    Option Nat := do
  let givenValue ← givenValue tokenBPrice sourceAmount tradeDirection
  let tokenBValue ← checkedMul 256 swapTokenBAmount tokenBPrice
  let totalValue ← checkedAdd 256 tokenBValue swapTokenAAmount
  let product ← checkedMul 256 poolSupply givenValue
  match roundDirection with
  | .floor => do
      let quotient ← checkedDiv product totalValue
      asU128 quotient
  | .ceiling => do
      let (quotient, _) ← checkedCeilDiv 256 product totalValue
      asU128 quotient

/-- The source and the destination amount of a trade. -/
def tradeSides (tokenBPrice sourceAmount : Nat) : TradeDirection → Option (Nat × Nat)
  | .bToA => do
      let destination ← checkedMul 128 sourceAmount tokenBPrice
      some (sourceAmount, destination)
  | .aToB => do
      let destination ← checkedDiv sourceAmount tokenBPrice
      -- what does not buy a whole token B is not taken
      some (sourceAmount - sourceAmount % tokenBPrice, destination)

/-- `swap_without_fees` -/
def swapWithoutFees (tokenBPrice sourceAmount : Nat) (tradeDirection : TradeDirection) :
    Option SwapWithoutFeesResult := do
  let (sourceAmountSwapped, destinationAmountSwapped) ←
    tradeSides tokenBPrice sourceAmount tradeDirection
  let sourceAmountSwapped ← mapZeroToNone sourceAmountSwapped
  let destinationAmountSwapped ← mapZeroToNone destinationAmountSwapped
  some { sourceAmountSwapped, destinationAmountSwapped }

/-- `normalized_value`, taken back to an integer. -/
def normalizedValue (tokenBPrice swapTokenAAmount swapTokenBAmount : Nat) : Option Nat := do
  let swapTokenBValue ← checkedMul 128 swapTokenBAmount tokenBPrice
  -- close to the limits
  if (2 ^ 128 - 1) - (2 ^ 64 - 1) < swapTokenBValue - (2 ^ 64 - 1) then
    checkedAdd 128 (swapTokenBValue / 2) (swapTokenAAmount / 2)
  else do
    let value ← checkedAdd 128 swapTokenAAmount swapTokenBValue
    some (value / 2)

/-- `pool_tokens_to_trading_tokens` -/
def poolTokensToTradingTokens (tokenBPrice poolTokens poolTokenSupply swapTokenAAmount
    swapTokenBAmount : Nat) (roundDirection : RoundDirection) : Option TradingTokenResult := do
  let totalValue ← normalizedValue tokenBPrice swapTokenAAmount swapTokenBAmount
  let product ← checkedMul 128 poolTokens totalValue
  match roundDirection with
  | .floor => do
      let tokenAAmount ← checkedDiv product poolTokenSupply
      let poolValueAsTokenB ← checkedDiv product tokenBPrice
      let tokenBAmount ← checkedDiv poolValueAsTokenB poolTokenSupply
      some { tokenAAmount, tokenBAmount }
  | .ceiling => do
      let (tokenAAmount, _) ← checkedCeilDiv 128 product poolTokenSupply
      let (poolValueAsTokenB, _) ← checkedCeilDiv 128 product tokenBPrice
      let (tokenBAmount, _) ← checkedCeilDiv 128 poolValueAsTokenB poolTokenSupply
      some { tokenAAmount, tokenBAmount }

end ConstantPrice

def constantPriceCurve (tokenBPrice : Nat) : CurveCalculator where
  swapWithoutFees sourceAmount _ _ := ConstantPrice.swapWithoutFees tokenBPrice sourceAmount
  newPoolSupply := initialSwapPoolAmount
  poolTokensToTradingTokens := ConstantPrice.poolTokensToTradingTokens tokenBPrice
  depositSingleTokenType sourceAmount swapTokenAAmount swapTokenBAmount poolSupply
      tradeDirection :=
    ConstantPrice.tradingTokensToPoolTokens tokenBPrice sourceAmount swapTokenAAmount
      swapTokenBAmount poolSupply tradeDirection .floor
  withdrawSingleTokenTypeExactOut := ConstantPrice.tradingTokensToPoolTokens tokenBPrice
  allowsDeposits := true

/-! ## Offset -/

namespace Offset

def swapSource (tokenBOffset swapSourceAmount : Nat) : TradeDirection → Option Nat
  | .aToB => some swapSourceAmount
  | .bToA => checkedAdd 128 swapSourceAmount tokenBOffset

def swapDestination (tokenBOffset swapDestinationAmount : Nat) : TradeDirection → Option Nat
  | .aToB => checkedAdd 128 swapDestinationAmount tokenBOffset
  | .bToA => some swapDestinationAmount

end Offset

def offsetCurve (tokenBOffset : Nat) : CurveCalculator where
  swapWithoutFees sourceAmount swapSourceAmount swapDestinationAmount tradeDirection := do
    let swapSourceAmount ← Offset.swapSource tokenBOffset swapSourceAmount tradeDirection
    let swapDestinationAmount ←
      Offset.swapDestination tokenBOffset swapDestinationAmount tradeDirection
    ConstantProduct.swap sourceAmount swapSourceAmount swapDestinationAmount
  newPoolSupply := initialSwapPoolAmount
  poolTokensToTradingTokens poolTokens poolTokenSupply swapTokenAAmount swapTokenBAmount
      roundDirection := do
    let swapTokenBAmount ← checkedAdd 128 swapTokenBAmount tokenBOffset
    ConstantProduct.poolTokensToTradingTokens poolTokens poolTokenSupply swapTokenAAmount
      swapTokenBAmount roundDirection
  depositSingleTokenType sourceAmount swapTokenAAmount swapTokenBAmount poolSupply
      tradeDirection := do
    let swapTokenBAmount ← checkedAdd 128 swapTokenBAmount tokenBOffset
    ConstantProduct.depositSingleTokenType sourceAmount swapTokenAAmount swapTokenBAmount
      poolSupply tradeDirection
  withdrawSingleTokenTypeExactOut sourceAmount swapTokenAAmount swapTokenBAmount poolSupply
      tradeDirection roundDirection := do
    let swapTokenBAmount ← checkedAdd 128 swapTokenBAmount tokenBOffset
    ConstantProduct.withdrawSingleTokenTypeExactOut sourceAmount swapTokenAAmount
      swapTokenBAmount poolSupply tradeDirection roundDirection
  allowsDeposits := false

/-! ## The choice of the curve -/

inductive SwapCurve where
  | constantProduct
  | constantPrice (tokenBPrice : Nat)
  | offset (tokenBOffset : Nat)
  deriving DecidableEq, Repr

namespace SwapCurve

/-- `SwapCurve::try_from`: one byte for the type, the parameter in the first eight others. -/
def tryFrom (value : CurveInfo) : Except ProgramError SwapCurve :=
  let parameter := leNat (value.curveParameters.toList.take 8)
  if value.curveType = 0 then .ok .constantProduct
  else if value.curveType = 1 then .ok (.constantPrice parameter)
  else if value.curveType = 2 then .ok (.offset parameter)
  else .error .invalidAccountData

def calculator : SwapCurve → CurveCalculator
  | .constantProduct => constantProductCurve
  | .constantPrice tokenBPrice => constantPriceCurve tokenBPrice
  | .offset tokenBOffset => offsetCurve tokenBOffset

def validate : SwapCurve → Except ProgramError Unit
  | .constantProduct => .ok ()
  | .constantPrice tokenBPrice => require (tokenBPrice ≠ 0) SwapError.invalidCurve.into
  | .offset tokenBOffset => require (tokenBOffset ≠ 0) SwapError.invalidCurve.into

/-- `validate_supply` -/
def validateSupply (curve : SwapCurve) (tokenAAmount tokenBAmount : Nat) :
    Except ProgramError Unit := do
  require (tokenAAmount ≠ 0) SwapError.emptySupply.into
  match curve with
  | .constantProduct => require (tokenBAmount ≠ 0) SwapError.emptySupply.into
  | .constantPrice _ | .offset _ => .ok ()

end SwapCurve

/-! ## All fees -/

/-- `Fees`: the withdrawal fee is read by the withdrawals alone. -/
structure Fees extends FeesInfo where
  ownerWithdrawFeeNumerator : Nat
  ownerWithdrawFeeDenominator : Nat

/-- `ceil_div` -/
def ceilDiv (dividend divisor : Nat) : Option Nat := do
  let sum ← checkedAdd 128 dividend divisor
  let dividend ← checkedSub sum 1
  checkedDiv dividend divisor

/-- `pre_fee_amount` -/
def preFeeAmount (postFeeAmount feeNumerator feeDenominator : Nat) : Option Nat :=
  if feeNumerator = 0 ∨ feeDenominator = 0 then some postFeeAmount
  else if feeNumerator = feeDenominator ∨ postFeeAmount = 0 then some 0
  else do
    let numerator ← checkedMul 128 postFeeAmount feeDenominator
    let denominator ← checkedSub feeDenominator feeNumerator
    ceilDiv numerator denominator

/-- `validate_fraction` -/
def validateFraction (numerator denominator : Nat) : Except ProgramError Unit :=
  if denominator = 0 ∧ numerator = 0 then .ok ()
  else if denominator ≤ numerator then .error SwapError.invalidFee.into
  else .ok ()

namespace Fees

def ownerWithdrawFee (f : Fees) (poolTokens : Nat) : Option Nat :=
  calculateFee poolTokens f.ownerWithdrawFeeNumerator f.ownerWithdrawFeeDenominator

/-- `pre_trading_fee_amount` -/
def preTradingFeeAmount (f : Fees) (postFeeAmount : Nat) : Option Nat :=
  if f.tradeFeeNumerator = 0 ∨ f.tradeFeeDenominator = 0 then
    preFeeAmount postFeeAmount f.ownerTradeFeeNumerator f.ownerTradeFeeDenominator
  else if f.ownerTradeFeeNumerator = 0 ∨ f.ownerTradeFeeDenominator = 0 then
    preFeeAmount postFeeAmount f.tradeFeeNumerator f.tradeFeeDenominator
  else do
    let trade ← checkedMul 128 f.tradeFeeNumerator f.ownerTradeFeeDenominator
    let owner ← checkedMul 128 f.ownerTradeFeeNumerator f.tradeFeeDenominator
    let numerator ← checkedAdd 128 trade owner
    let denominator ← checkedMul 128 f.tradeFeeDenominator f.ownerTradeFeeDenominator
    preFeeAmount postFeeAmount numerator denominator

def validate (f : Fees) : Except ProgramError Unit := do
  validateFraction f.tradeFeeNumerator f.tradeFeeDenominator
  validateFraction f.ownerTradeFeeNumerator f.ownerTradeFeeDenominator
  validateFraction f.ownerWithdrawFeeNumerator f.ownerWithdrawFeeDenominator
  validateFraction f.hostFeeNumerator f.hostFeeDenominator

end Fees

/-- `SwapCurve::withdraw_single_token_type_exact_out` -/
def CurveCalculator.withdrawSingle (calculator : CurveCalculator)
    (sourceAmount swapTokenAAmount swapTokenBAmount poolSupply : Nat)
    (tradeDirection : TradeDirection) (fees : Fees) : Option Nat :=
  if sourceAmount = 0 then some 0
  else do
    let sum ← checkedAdd 128 sourceAmount 1
    let halfSourceAmount := sum / 2
    let preFeeSourceAmount ← fees.preTradingFeeAmount halfSourceAmount
    let rest ← checkedSub sourceAmount halfSourceAmount
    let sourceAmount ← checkedAdd 128 rest preFeeSourceAmount
    calculator.withdrawSingleTokenTypeExactOut sourceAmount swapTokenAAmount swapTokenBAmount
      poolSupply tradeDirection .ceiling

end Albus.Integration
