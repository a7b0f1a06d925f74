import Albus.Integration.SolanaVerifier

/-! # The token swap

    `programs/albus-swap`: the three instructions a policy can guard.  The curve
    is a trait object, here a record of its functions; the derivation of program
    addresses and the token program are parameters.  Accounts of a type come as
    Anchor has loaded them. -/

namespace Albus.Integration

open Albus.Lib Albus.Program

/-! ## Errors -/

inductive SwapError where
  | alreadyInUse
  | invalidProgramAddress
  | invalidOwner
  | invalidOutputOwner
  | expectedMint
  | expectedAccount
  | emptySupply
  | invalidSupply
  | invalidDelegate
  | invalidInput
  | incorrectSwapAccount
  | incorrectPoolMint
  | invalidOutput
  | calculationFailure
  | invalidInstruction
  | repeatedMint
  | exceededSlippage
  | invalidCloseAuthority
  | invalidFreezeAuthority
  | incorrectFeeAccount
  | zeroTradingTokens
  | feeCalculationFailure
  | conversionFailure
  | invalidFee
  | incorrectTokenProgramId
  | unsupportedCurveType
  | invalidCurve
  | unsupportedCurveOperation
  deriving DecidableEq, Repr

/-- `error_code`: the errors of a program count from 6000. -/
def SwapError.into (e : SwapError) : ProgramError := .custom (6000 + e.ctorIdx)

/-- Anchor's `ConstraintSigner`. -/
def constraintSigner : ProgramError := .custom 2002

/-! ## State -/

structure FeesInfo where
  tradeFeeNumerator : Nat
  tradeFeeDenominator : Nat
  ownerTradeFeeNumerator : Nat
  ownerTradeFeeDenominator : Nat
  hostFeeNumerator : Nat
  hostFeeDenominator : Nat

structure CurveInfo where
  curveType : UInt8
  curveParameters : Bytes 32

structure TokenSwap where
  bumpSeed : UInt8
  tokenProgramId : Pubkey
  tokenA : Pubkey
  tokenB : Pubkey
  poolMint : Pubkey
  poolFeeAccount : Pubkey
  fees : FeesInfo
  curve : CurveInfo
  swapPolicy : Option Pubkey
  addLiquidityPolicy : Option Pubkey

/-- `TokenAccount`, of the token program. -/
structure TokenAccount where
  mint : Pubkey
  amount : Nat

structure Mint where
  supply : Nat

/-! ## Fees and curve -/

def calculateFee (tokenAmount feeNumerator feeDenominator : Nat) : Option Nat :=
  if feeNumerator = 0 ∨ tokenAmount = 0 then some 0
  else do
    let product ← checkedMul 128 tokenAmount feeNumerator
    let fee ← checkedDiv product feeDenominator
    -- minimum fee of one token
    if fee = 0 then some 1 else some fee

namespace FeesInfo

def tradingFee (f : FeesInfo) (tradingTokens : Nat) : Option Nat :=
  calculateFee tradingTokens f.tradeFeeNumerator f.tradeFeeDenominator

def ownerTradingFee (f : FeesInfo) (tradingTokens : Nat) : Option Nat :=
  calculateFee tradingTokens f.ownerTradeFeeNumerator f.ownerTradeFeeDenominator

def hostFee (f : FeesInfo) (ownerFee : Nat) : Option Nat :=
  calculateFee ownerFee f.hostFeeNumerator f.hostFeeDenominator

end FeesInfo

inductive TradeDirection where
  | aToB
  | bToA

inductive RoundDirection where
  | floor
  | ceiling

structure SwapWithoutFeesResult where
  sourceAmountSwapped : Nat
  destinationAmountSwapped : Nat

structure TradingTokenResult where
  tokenAAmount : Nat
  tokenBAmount : Nat

/-- The trait `CurveCalculator`. -/
structure CurveCalculator where
  swapWithoutFees (sourceAmount swapSourceAmount swapDestinationAmount : Nat)
    (tradeDirection : TradeDirection) : Option SwapWithoutFeesResult
  newPoolSupply : Nat
  poolTokensToTradingTokens (poolTokens poolTokenSupply swapTokenAAmount swapTokenBAmount : Nat)
    (roundDirection : RoundDirection) : Option TradingTokenResult
  depositSingleTokenType (sourceAmount swapTokenAAmount swapTokenBAmount poolSupply : Nat)
    (tradeDirection : TradeDirection) : Option Nat
  withdrawSingleTokenTypeExactOut
    (sourceAmount swapTokenAAmount swapTokenBAmount poolSupply : Nat)
    (tradeDirection : TradeDirection) (roundDirection : RoundDirection) : Option Nat
  allowsDeposits : Bool

structure SwapResult where
  newSwapSourceAmount : Nat
  newSwapDestinationAmount : Nat
  sourceAmountSwapped : Nat
  destinationAmountSwapped : Nat
  ownerFee : Nat

/-- `SwapCurve::swap` -/
def CurveCalculator.swap (calculator : CurveCalculator)
    (sourceAmount swapSourceAmount swapDestinationAmount : Nat)
    (tradeDirection : TradeDirection) (fees : FeesInfo) : Option SwapResult := do
  let tradeFee ← fees.tradingFee sourceAmount
  let ownerFee ← fees.ownerTradingFee sourceAmount
  let totalFees ← checkedAdd 128 tradeFee ownerFee
  let sourceAmountLessFees ← checkedSub sourceAmount totalFees
  let result ← calculator.swapWithoutFees sourceAmountLessFees swapSourceAmount
    swapDestinationAmount tradeDirection
  let sourceAmountSwapped ← checkedAdd 128 result.sourceAmountSwapped totalFees
  let newSwapSourceAmount ← checkedAdd 128 swapSourceAmount sourceAmountSwapped
  let newSwapDestinationAmount ←
    checkedSub swapDestinationAmount result.destinationAmountSwapped
  some
    { newSwapSourceAmount
      newSwapDestinationAmount
      sourceAmountSwapped
      destinationAmountSwapped := result.destinationAmountSwapped
      ownerFee }

/-- `SwapCurve::deposit_single_token_type` -/
def CurveCalculator.depositSingle (calculator : CurveCalculator)
    (sourceAmount swapTokenAAmount swapTokenBAmount poolSupply : Nat)
    (tradeDirection : TradeDirection) (fees : FeesInfo) : Option Nat :=
  if sourceAmount = 0 then some 0
  else do
    let halfSourceAmount := max 1 (sourceAmount / 2)
    let tradeFee ← fees.tradingFee halfSourceAmount
    let ownerFee ← fees.ownerTradingFee halfSourceAmount
    let totalFees ← checkedAdd 128 tradeFee ownerFee
    let sourceAmount ← checkedSub sourceAmount totalFees
    calculator.depositSingleTokenType sourceAmount swapTokenAAmount swapTokenBAmount poolSupply
      tradeDirection

/-! ## Calls of the token program -/

inductive TokenInstruction where
  | transfer (source destination authority : Pubkey) (amount : Nat)
  | mintTo (mint account authority : Pubkey) (amount : Nat)

structure SwapRuntime where
  programId : Pubkey
  /-- `Clock::get()?.unix_timestamp` -/
  unixTimestamp : Int
  createProgramAddress : List (List UInt8) → Pubkey → Option Pubkey
  /-- `SwapCurve::try_from` -/
  curve : CurveInfo → Except ProgramError CurveCalculator
  /-- The verdict of the token program. -/
  token : TokenInstruction → Except ProgramError Unit

def toU64 (val : Nat) : Except ProgramError Nat :=
  okOr (tryU64 val) SwapError.conversionFailure.into

/-- `authority_id` -/
def authorityId (rt : SwapRuntime) (myInfo : Pubkey) (bumpSeed : UInt8) :
    Except ProgramError Pubkey :=
  okOr (rt.createProgramAddress [myInfo.toList, [bumpSeed]] rt.programId)
    SwapError.invalidProgramAddress.into

/-- The guard in front of each of the three instructions. -/
def checkProof (rt : SwapRuntime) (policy : Option Pubkey) (proofRequest : Option AccountInfo)
    (userTransferAuthority : Pubkey) : Except ProgramError Unit :=
  match policy with
  | none => .ok ()
  | some policy =>
      match proofRequest with
      -- `expect("Proof request required")`
      | none => .error .panicked
      | some proofRequest =>
          (((AlbusVerifier.new proofRequest).checkPolicy policy).checkOwner
            userTransferAuthority).run rt.unixTimestamp

/-! ## swap -/

structure Swap where
  proofRequest : Option AccountInfo
  tokenSwap : Account TokenSwap
  authority : Pubkey
  userTransferAuthority : AccountInfo
  userSource : Pubkey
  userDestination : Pubkey
  poolSource : Account TokenAccount
  poolDestination : Account TokenAccount
  poolMint : Account Mint
  poolFee : Account TokenAccount
  /-- The host's token account, with its mint if it decodes. -/
  hostFeeAccount : Option (Pubkey × Option Pubkey)
  tokenProgram : Pubkey

/-- The owner fee, minted to the host and to the pool. -/
def payOwnerFee (rt : SwapRuntime) (ctx : Swap) (calculator : CurveCalculator)
    (tradeDirection : TradeDirection) (ownerFee swapTokenAAmount swapTokenBAmount : Nat) :
    Except ProgramError Unit := do
  let poolTokenAmount ← okOr
    (calculator.withdrawSingleTokenTypeExactOut ownerFee swapTokenAAmount swapTokenBAmount
      ctx.poolMint.data.supply tradeDirection .floor)
    SwapError.feeCalculationFailure.into
  let poolTokenAmount ←
    match ctx.hostFeeAccount with
    | none => .ok poolTokenAmount
    | some (host, hostMint) => do
        let hostMint ← okOr hostMint .invalidAccountData
        require (ctx.poolMint.key = hostMint) SwapError.incorrectPoolMint.into
        let hostFee ← okOr (ctx.tokenSwap.data.fees.hostFee poolTokenAmount)
          SwapError.feeCalculationFailure.into
        if 0 < hostFee then do
          let rest ← okOr (checkedSub poolTokenAmount hostFee) SwapError.feeCalculationFailure.into
          let hostFee ← toU64 hostFee
          rt.token (.mintTo ctx.poolMint.key host ctx.authority hostFee)
          .ok rest
        else .ok poolTokenAmount
  let poolTokenAmount ← toU64 poolTokenAmount
  rt.token (.mintTo ctx.poolMint.key ctx.poolFee.key ctx.authority poolTokenAmount)

/-- `swap` -/
def swap (rt : SwapRuntime) (ctx : Swap) (amountIn minimumAmountOut : Nat) :
    Except ProgramError Unit := do
  require (ctx.userTransferAuthority.isSigner = true) constraintSigner
  let tokenSwap := ctx.tokenSwap.data
  checkProof rt tokenSwap.swapPolicy ctx.proofRequest ctx.userTransferAuthority.key
  let authority ← authorityId rt ctx.tokenSwap.key tokenSwap.bumpSeed
  require (ctx.authority = authority) SwapError.invalidProgramAddress.into
  require (ctx.poolSource.key = tokenSwap.tokenA ∨ ctx.poolSource.key = tokenSwap.tokenB)
    SwapError.incorrectSwapAccount.into
  require (ctx.poolDestination.key = tokenSwap.tokenA ∨ ctx.poolDestination.key = tokenSwap.tokenB)
    SwapError.incorrectSwapAccount.into
  require (ctx.poolSource.key ≠ ctx.poolDestination.key) SwapError.invalidInput.into
  require (ctx.poolSource.key ≠ ctx.userSource) SwapError.invalidInput.into
  require (ctx.poolDestination.key ≠ ctx.userDestination) SwapError.invalidInput.into
  require (ctx.poolMint.key = tokenSwap.poolMint) SwapError.incorrectPoolMint.into
  require (ctx.poolFee.key = tokenSwap.poolFeeAccount) SwapError.incorrectFeeAccount.into
  require (ctx.tokenProgram = tokenSwap.tokenProgramId) SwapError.incorrectTokenProgramId.into
  let tradeDirection : TradeDirection :=
    if ctx.poolSource.key = tokenSwap.tokenA then .aToB else .bToA
  let calculator ← rt.curve tokenSwap.curve
  let result ← okOr
    (calculator.swap amountIn ctx.poolSource.data.amount ctx.poolDestination.data.amount
      tradeDirection tokenSwap.fees)
    SwapError.zeroTradingTokens.into
  require (minimumAmountOut ≤ result.destinationAmountSwapped) SwapError.exceededSlippage.into
  let (swapTokenAAmount, swapTokenBAmount) :=
    match tradeDirection with
    | .aToB => (result.newSwapSourceAmount, result.newSwapDestinationAmount)
    | .bToA => (result.newSwapDestinationAmount, result.newSwapSourceAmount)
  let sourceAmount ← toU64 result.sourceAmountSwapped
  rt.token (.transfer ctx.userSource ctx.poolSource.key ctx.userTransferAuthority.key sourceAmount)
  if 0 < result.ownerFee then
    payOwnerFee rt ctx calculator tradeDirection result.ownerFee swapTokenAAmount swapTokenBAmount
  else .ok ()
  let destinationAmount ← toU64 result.destinationAmountSwapped
  rt.token (.transfer ctx.poolDestination.key ctx.userDestination ctx.authority destinationAmount)

/-! ## deposit_all_token_types -/

/-- `check_accounts`, with the optional accounts of the user; the fee account is not given
    by the deposits. -/
def checkAccounts (rt : SwapRuntime) (tokenSwap : Account TokenSwap) (authority : Pubkey)
    (tokenA tokenB poolMint tokenProgram : Pubkey) (userTokenA userTokenB : Option Pubkey) :
    Except ProgramError Unit := do
  let expected ← authorityId rt tokenSwap.key tokenSwap.data.bumpSeed
  require (authority = expected) SwapError.invalidProgramAddress.into
  require (tokenA = tokenSwap.data.tokenA) SwapError.incorrectSwapAccount.into
  require (tokenB = tokenSwap.data.tokenB) SwapError.incorrectSwapAccount.into
  require (poolMint = tokenSwap.data.poolMint) SwapError.incorrectPoolMint.into
  require (tokenProgram = tokenSwap.data.tokenProgramId) SwapError.incorrectTokenProgramId.into
  require (userTokenA ≠ some tokenA) SwapError.invalidInput.into
  require (userTokenB ≠ some tokenB) SwapError.invalidInput.into

structure DepositAllTokenTypes where
  proofRequest : Option AccountInfo
  tokenSwap : Account TokenSwap
  authority : Pubkey
  userTransferAuthority : AccountInfo
  userTokenA : Pubkey
  userTokenB : Pubkey
  swapTokenA : Account TokenAccount
  swapTokenB : Account TokenAccount
  poolMint : Account Mint
  destination : Pubkey
  tokenProgram : Pubkey

/-- The amount of one token to take, against the caller's maximum. -/
def depositAmount (computed maximum : Nat) : Except ProgramError Nat := do
  let amount ← toU64 computed
  require (amount ≤ maximum) SwapError.exceededSlippage.into
  require (amount ≠ 0) SwapError.zeroTradingTokens.into
  .ok amount

/-- `deposit_all_token_types` -/
def depositAllTokenTypes (rt : SwapRuntime) (ctx : DepositAllTokenTypes)
    (poolTokenAmount maximumTokenAAmount maximumTokenBAmount : Nat) :
    Except ProgramError Unit := do
  require (ctx.userTransferAuthority.isSigner = true) constraintSigner
  let tokenSwap := ctx.tokenSwap.data
  checkProof rt tokenSwap.addLiquidityPolicy ctx.proofRequest ctx.userTransferAuthority.key
  let calculator ← rt.curve tokenSwap.curve
  require (calculator.allowsDeposits = true) SwapError.unsupportedCurveOperation.into
  checkAccounts rt ctx.tokenSwap ctx.authority ctx.swapTokenA.key ctx.swapTokenB.key
    ctx.poolMint.key ctx.tokenProgram (some ctx.userTokenA) (some ctx.userTokenB)
  let supply := ctx.poolMint.data.supply
  -- the first deposit mints the initial supply, whatever was asked for
  let (poolTokenAmount, poolMintSupply) :=
    if 0 < supply then (poolTokenAmount, supply)
    else (calculator.newPoolSupply, calculator.newPoolSupply)
  let results ← okOr
    (calculator.poolTokensToTradingTokens poolTokenAmount poolMintSupply
      ctx.swapTokenA.data.amount ctx.swapTokenB.data.amount .ceiling)
    SwapError.zeroTradingTokens.into
  let tokenAAmount ← depositAmount results.tokenAAmount maximumTokenAAmount
  let tokenBAmount ← depositAmount results.tokenBAmount maximumTokenBAmount
  let poolTokenAmount ← toU64 poolTokenAmount
  rt.token (.transfer ctx.userTokenA ctx.swapTokenA.key ctx.userTransferAuthority.key tokenAAmount)
  rt.token (.transfer ctx.userTokenB ctx.swapTokenB.key ctx.userTransferAuthority.key tokenBAmount)
  rt.token (.mintTo ctx.poolMint.key ctx.destination ctx.authority poolTokenAmount)

/-! ## deposit_single_token_type -/

structure DepositSingleTokenType where
  proofRequest : Option AccountInfo
  tokenSwap : Account TokenSwap
  authority : Pubkey
  userTransferAuthority : AccountInfo
  source : Account TokenAccount
  swapTokenA : Account TokenAccount
  swapTokenB : Account TokenAccount
  poolMint : Account Mint
  destination : Pubkey
  tokenProgram : Pubkey

/-- `deposit_single_token_type` -/
def depositSingleTokenType (rt : SwapRuntime) (ctx : DepositSingleTokenType)
    (sourceTokenAmount minimumPoolTokenAmount : Nat) : Except ProgramError Unit := do
  require (ctx.userTransferAuthority.isSigner = true) constraintSigner
  let tokenSwap := ctx.tokenSwap.data
  checkProof rt tokenSwap.addLiquidityPolicy ctx.proofRequest ctx.userTransferAuthority.key
  let calculator ← rt.curve tokenSwap.curve
  let tradeDirection ←
    if ctx.source.data.mint = ctx.swapTokenA.data.mint then .ok TradeDirection.aToB
    else if ctx.source.data.mint = ctx.swapTokenB.data.mint then .ok TradeDirection.bToA
    else .error SwapError.incorrectSwapAccount.into
  let (sourceA, sourceB) :=
    match tradeDirection with
    | .aToB => (some ctx.source.key, none)
    | .bToA => (none, some ctx.source.key)
  checkAccounts rt ctx.tokenSwap ctx.authority ctx.swapTokenA.key ctx.swapTokenB.key
    ctx.poolMint.key ctx.tokenProgram sourceA sourceB
  let supply := ctx.poolMint.data.supply
  let poolTokenAmount ←
    if 0 < supply then
      okOr
        (calculator.depositSingle sourceTokenAmount ctx.swapTokenA.data.amount
          ctx.swapTokenB.data.amount supply tradeDirection tokenSwap.fees)
        SwapError.zeroTradingTokens.into
    else .ok calculator.newPoolSupply
  let poolTokenAmount ← toU64 poolTokenAmount
  require (minimumPoolTokenAmount ≤ poolTokenAmount) SwapError.exceededSlippage.into
  require (poolTokenAmount ≠ 0) SwapError.zeroTradingTokens.into
  let swapToken :=
    match tradeDirection with
    | .aToB => ctx.swapTokenA.key
    | .bToA => ctx.swapTokenB.key
  rt.token (.transfer ctx.source.key swapToken ctx.userTransferAuthority.key sourceTokenAmount)
  rt.token (.mintTo ctx.poolMint.key ctx.destination ctx.authority poolTokenAmount)

end Albus.Integration
