import Albus.Integration.PoolAmounts
import Albus.Lib.TokenLedger

/-! # The token swap on the token ledger

    All instructions of `programs/albus-swap`, with every account looked up by its
    key and every transfer, mint and burn carried out.  The state is the token
    ledger and the pools.  Accounts are loaded once, before anything moves.  An
    instruction that fails changes nothing. -/

namespace Albus.Integration

open Albus.Lib Albus.Program

/-! ## The state -/

/-- `TokenSwap`, with the fields that only `initialize` and the withdrawals touch. -/
structure Pool extends TokenSwap where
  tokenAMint : Pubkey
  tokenBMint : Pubkey
  ownerWithdrawFeeNumerator : Nat
  ownerWithdrawFeeDenominator : Nat

def Pool.allFees (pool : Pool) : Fees :=
  { pool.fees with
    ownerWithdrawFeeNumerator := pool.ownerWithdrawFeeNumerator
    ownerWithdrawFeeDenominator := pool.ownerWithdrawFeeDenominator }

structure SwapState where
  token : Token.Ledger Pubkey
  pools : Pubkey → Option Pool

inductive CurveType where
  | constantProduct
  | constantPrice
  | offset
  deriving DecidableEq, Repr

def SwapCurve.curveType : SwapCurve → CurveType
  | .constantProduct => .constantProduct
  | .constantPrice _ => .constantPrice
  | .offset _ => .offset

structure SwapConstraints where
  /-- `parse::<Pubkey>()` of the owner's key. -/
  ownerKey : Option Pubkey
  validCurveTypes : List CurveType
  fees : Fees

/-- What the program runs on. -/
structure Chain where
  programId : Pubkey
  createProgramAddress : List (List UInt8) → Pubkey → Option Pubkey
  findProgramAddress : List (List UInt8) → Pubkey → Pubkey × UInt8
  /-- The keys that can sign a call from outside: those with a private key, and the addresses
      of other programs. -/
  canSign : Pubkey → Bool
  /-- `SWAP_CONSTRAINTS` -/
  swapConstraints : Option SwapConstraints

/-- What Solana promises of program addresses. -/
structure Chain.Lawful (chain : Chain) : Prop where
  /-- The address of one pool is not the address of another. -/
  inj : ∀ (key key' : Pubkey) bump bump' address, chain.canSign key = true →
    chain.canSign key' = true →
    chain.createProgramAddress [key.toList, [bump]] chain.programId = some address →
    chain.createProgramAddress [key'.toList, [bump']] chain.programId = some address → key = key'
  /-- The search returns an address that its seeds derive. -/
  find : ∀ (key : Pubkey) address bump, chain.canSign key = true →
    chain.findProgramAddress [key.toList] chain.programId = (address, bump) →
    chain.createProgramAddress [key.toList, [bump]] chain.programId = some address
  /-- Nobody but the program signs for its addresses. -/
  outside : ∀ seeds address, chain.createProgramAddress seeds chain.programId = some address →
    chain.canSign address = false

inductive Failure where
  | program (e : ProgramError)
  | token (fault : Token.Fault)
  deriving DecidableEq, Repr

/-- A part of an instruction that does not call the token program. -/
def ofProgram {α : Type} : Except ProgramError α → Except Failure α
  | .ok a => .ok a
  | .error e => .error (.program e)

/-- A call of the token program. -/
def ofToken {α : Type} : Except Token.Fault α → Except Failure α
  | .ok a => .ok a
  | .error fault => .error (.token fault)

/-- Anchor's `AccountNotInitialized`. -/
def accountNotInitialized : ProgramError := .custom 3012

/-- Anchor's `ConstraintZero`. -/
def constraintZero : ProgramError := .custom 2013

/-- An account of a type, as Anchor loads it. -/
def loadAccount {α : Type} (stored : Option α) : Except Failure α :=
  ofProgram (okOr stored accountNotInitialized)

def demand (cond : Prop) [Decidable cond] (e : ProgramError) : Except Failure Unit :=
  ofProgram (require cond e)

theorem ofProgram_bind_ok {α β : Type} {x : Except ProgramError α} {f : α → Except Failure β}
    {b : β} (h : (ofProgram x >>= f) = .ok b) : ∃ a, x = .ok a ∧ f a = .ok b := by
  cases x with
  | error e => exact nomatch h
  | ok a => exact ⟨a, rfl, h⟩

theorem ofToken_ok {α : Type} {x : Except Token.Fault α} {a : α} (h : ofToken x = .ok a) :
    x = .ok a := by
  cases x with
  | error fault => exact nomatch h
  | ok a' => rw [Except.ok.inj h]

theorem ofToken_bind_ok {α β : Type} {x : Except Token.Fault α} {f : α → Except Failure β}
    {b : β} (h : (ofToken x >>= f) = .ok b) : ∃ a, x = .ok a ∧ f a = .ok b := by
  cases x with
  | error fault => exact nomatch h
  | ok a => exact ⟨a, rfl, h⟩

theorem loadAccount_bind_ok {α β : Type} {stored : Option α} {f : α → Except Failure β} {b : β}
    (h : (loadAccount stored >>= f) = .ok b) : ∃ a, stored = some a ∧ f a = .ok b := by
  obtain ⟨a, ha, h⟩ := ofProgram_bind_ok h
  exact ⟨a, okOr_ok ha, h⟩

theorem demand_bind_ok {cond : Prop} [Decidable cond] {e : ProgramError} {β : Type}
    {f : Unit → Except Failure β} {b : β} (h : (demand cond e >>= f) = .ok b) :
    cond ∧ f () = .ok b := by
  obtain ⟨_, hu, h⟩ := ofProgram_bind_ok h
  exact ⟨require_ok hu, h⟩

/-- What the handlers without a ledger run on; the token program answers elsewhere. -/
def Chain.runtime (chain : Chain) (now : Int) : SwapRuntime where
  programId := chain.programId
  unixTimestamp := now
  createProgramAddress := chain.createProgramAddress
  curve info := (SwapCurve.tryFrom info).map SwapCurve.calculator
  token _ := .ok ()

/-- The key under which a pool's own address signs. -/
def Chain.poolAddress (chain : Chain) (key : Pubkey) (bumpSeed : UInt8) : Except Failure Pubkey :=
  ofProgram (okOr (chain.createProgramAddress [key.toList, [bumpSeed]] chain.programId)
    .invalidSeeds)

/-- The signers, and the time of the clock. -/
structure Outer where
  signers : List Pubkey
  now : Int

/-- The balances and the supply that an instruction computes with. -/
def SwapState.amounts (s : SwapState) (pool : Pool) : PoolAmounts where
  tokenA := s.token.balance pool.tokenA
  tokenB := s.token.balance pool.tokenB
  supply := s.token.supply pool.poolMint

/-- A transfer of an amount that is not zero. -/
def payOut (l : Token.Ledger Pubkey) (signers : List Pubkey)
    (source destination authority : Pubkey) (amount : Nat) :
    Except Failure (Token.Ledger Pubkey) :=
  if 0 < amount then ofToken (l.transfer signers source destination authority amount) else .ok l

/-! ## Creation -/

structure InitializeAccounts where
  authority : Pubkey
  tokenSwap : Pubkey
  poolMint : Pubkey
  tokenA : Pubkey
  tokenB : Pubkey
  poolFee : Pubkey
  destination : Pubkey
  tokenProgram : Pubkey

/-- `validate_fees` -/
def SwapConstraints.validateFees (constraints : SwapConstraints) (fees : Fees) :
    Except ProgramError Unit :=
  require
    (constraints.fees.tradeFeeNumerator ≤ fees.tradeFeeNumerator ∧
      fees.tradeFeeDenominator = constraints.fees.tradeFeeDenominator ∧
      constraints.fees.ownerTradeFeeNumerator ≤ fees.ownerTradeFeeNumerator ∧
      fees.ownerTradeFeeDenominator = constraints.fees.ownerTradeFeeDenominator ∧
      constraints.fees.ownerWithdrawFeeNumerator ≤ fees.ownerWithdrawFeeNumerator ∧
      fees.ownerWithdrawFeeDenominator = constraints.fees.ownerWithdrawFeeDenominator ∧
      fees.hostFeeNumerator = constraints.fees.hostFeeNumerator ∧
      fees.hostFeeDenominator = constraints.fees.hostFeeDenominator)
    SwapError.invalidFee.into

/-- The constraints of a production build. -/
def checkConstraints (swapConstraints : Option SwapConstraints) (poolFeeOwner : Pubkey)
    (curve : SwapCurve) (fees : Fees) : Except ProgramError Unit :=
  match swapConstraints with
  | none => .ok ()
  | some constraints => do
      let ownerKey ← okOr constraints.ownerKey SwapError.invalidOwner.into
      require (poolFeeOwner = ownerKey) SwapError.invalidOwner.into
      require (curve.curveType ∈ constraints.validCurveTypes) SwapError.unsupportedCurveType.into
      constraints.validateFees fees

/-- `initialize` -/
def initializePool (chain : Chain) (outer : Outer) (s : SwapState) (acc : InitializeAccounts)
    (feesInput : Fees) (curveInput : CurveInfo) (swapPolicy addLiquidityPolicy : Option Pubkey) :
    Except Failure SwapState := do
  demand (acc.tokenSwap ∈ outer.signers) constraintSigner
  demand ((s.pools acc.tokenSwap).isNone) constraintZero
  let poolMint ← loadAccount (s.token.mints acc.poolMint)
  let tokenA ← loadAccount (s.token.accounts acc.tokenA)
  let tokenB ← loadAccount (s.token.accounts acc.tokenB)
  let poolFee ← loadAccount (s.token.accounts acc.poolFee)
  let destination ← loadAccount (s.token.accounts acc.destination)
  let found := chain.findProgramAddress [acc.tokenSwap.toList] chain.programId
  demand (acc.authority = found.1) SwapError.invalidProgramAddress.into
  demand (acc.authority = tokenA.owner) SwapError.invalidOwner.into
  demand (acc.authority = tokenB.owner) SwapError.invalidOwner.into
  demand (acc.authority ≠ destination.owner) SwapError.invalidOutputOwner.into
  demand (acc.authority ≠ poolFee.owner) SwapError.invalidOutputOwner.into
  demand (poolMint.mintAuthority = some acc.authority) SwapError.invalidOwner.into
  demand (tokenA.mint ≠ tokenB.mint) SwapError.repeatedMint.into
  let curve ← ofProgram (SwapCurve.tryFrom curveInput)
  ofProgram (curve.validateSupply tokenA.amount tokenB.amount)
  demand (tokenA.delegate = none) SwapError.invalidDelegate.into
  demand (tokenB.delegate = none) SwapError.invalidDelegate.into
  demand (tokenA.closeAuthority = none) SwapError.invalidCloseAuthority.into
  demand (tokenB.closeAuthority = none) SwapError.invalidCloseAuthority.into
  demand (poolMint.supply = 0) SwapError.invalidSupply.into
  demand (poolMint.freezeAuthority = none) SwapError.invalidFreezeAuthority.into
  demand (acc.poolMint = poolFee.mint) SwapError.incorrectPoolMint.into
  ofProgram (checkConstraints chain.swapConstraints poolFee.owner curve feesInput)
  ofProgram feesInput.validate
  ofProgram curve.validate
  let initialAmount ← ofProgram (toU64 curve.calculator.newPoolSupply)
  let address ← chain.poolAddress acc.tokenSwap found.2
  let token ← ofToken (s.token.mintTo (address :: outer.signers) acc.poolMint acc.destination
    acc.authority initialAmount)
  let pool : Pool :=
    { bumpSeed := found.2
      tokenProgramId := acc.tokenProgram
      tokenA := acc.tokenA
      tokenB := acc.tokenB
      poolMint := acc.poolMint
      tokenAMint := tokenA.mint
      tokenBMint := tokenB.mint
      poolFeeAccount := acc.poolFee
      fees := feesInput.toFeesInfo
      ownerWithdrawFeeNumerator := feesInput.ownerWithdrawFeeNumerator
      ownerWithdrawFeeDenominator := feesInput.ownerWithdrawFeeDenominator
      curve := curveInput
      swapPolicy
      addLiquidityPolicy }
  .ok { token, pools := fun key => if key = acc.tokenSwap then some pool else s.pools key }

/-! ## swap -/

structure SwapAccounts where
  proofRequest : Option AccountInfo
  tokenSwap : Pubkey
  authority : Pubkey
  userTransferAuthority : Pubkey
  userSource : Pubkey
  userDestination : Pubkey
  poolSource : Pubkey
  poolDestination : Pubkey
  poolMint : Pubkey
  poolFee : Pubkey
  /-- The host's account, with the mint its data decode to. -/
  hostFeeAccount : Option (Pubkey × Option Pubkey)
  tokenProgram : Pubkey

/-- The checks of `swap`, up to the direction of the trade. -/
def checkSwap (chain : Chain) (outer : Outer) (pool : Pool) (acc : SwapAccounts) :
    Except ProgramError TradeDirection := do
  checkProof (chain.runtime outer.now) pool.swapPolicy acc.proofRequest acc.userTransferAuthority
  let authority ← authorityId (chain.runtime outer.now) acc.tokenSwap pool.bumpSeed
  require (acc.authority = authority) SwapError.invalidProgramAddress.into
  require (acc.poolSource = pool.tokenA ∨ acc.poolSource = pool.tokenB)
    SwapError.incorrectSwapAccount.into
  require (acc.poolDestination = pool.tokenA ∨ acc.poolDestination = pool.tokenB)
    SwapError.incorrectSwapAccount.into
  require (acc.poolSource ≠ acc.poolDestination) SwapError.invalidInput.into
  require (acc.poolSource ≠ acc.userSource) SwapError.invalidInput.into
  require (acc.poolDestination ≠ acc.userDestination) SwapError.invalidInput.into
  require (acc.poolMint = pool.poolMint) SwapError.incorrectPoolMint.into
  require (acc.poolFee = pool.poolFeeAccount) SwapError.incorrectFeeAccount.into
  require (acc.tokenProgram = pool.tokenProgramId) SwapError.incorrectTokenProgramId.into
  .ok (if acc.poolSource = pool.tokenA then .aToB else .bToA)

/-- The host's part of the owner fee, minted; the rest is returned. -/
def mintToHost (l : Token.Ledger Pubkey) (signers : List Pubkey) (acc : SwapAccounts)
    (fees : FeesInfo) (poolTokens : Nat) : Except Failure (Token.Ledger Pubkey × Nat) :=
  match acc.hostFeeAccount with
  | none => .ok (l, poolTokens)
  | some (hostInfo, hostMint) => do
      let hostMint ← ofProgram (okOr hostMint .invalidAccountData)
      demand (acc.poolMint = hostMint) SwapError.incorrectPoolMint.into
      let (hostFee, rest) ← ofProgram (splitHostFee fees poolTokens)
      if 0 < hostFee then do
        let hostFee ← ofProgram (toU64 hostFee)
        let l ← ofToken (l.mintTo signers acc.poolMint hostInfo acc.authority hostFee)
        .ok (l, rest)
      else .ok (l, rest)

/-- The owner fee of a swap, minted. -/
def mintOwnerFee (l : Token.Ledger Pubkey) (signers : List Pubkey) (acc : SwapAccounts)
    (curve : SwapCurve) (fees : FeesInfo) (tradeDirection : TradeDirection)
    (ownerFee : Nat) (traded : PoolAmounts) : Except Failure (Token.Ledger Pubkey) :=
  if 0 < ownerFee then do
    let poolTokens ← ofProgram (ownerFeeTokens curve tradeDirection ownerFee traded.tokenA
      traded.tokenB traded.supply)
    let (l, rest) ← mintToHost l signers acc fees poolTokens
    let rest ← ofProgram (toU64 rest)
    ofToken (l.mintTo signers acc.poolMint acc.poolFee acc.authority rest)
  else .ok l

/-- `swap` -/
def swapTokens (chain : Chain) (outer : Outer) (s : SwapState) (acc : SwapAccounts)
    (amountIn minimumAmountOut : Nat) : Except Failure SwapState := do
  let pool ← loadAccount (s.pools acc.tokenSwap)
  demand (acc.userTransferAuthority ∈ outer.signers) constraintSigner
  let poolSource ← loadAccount (s.token.accounts acc.poolSource)
  let poolDestination ← loadAccount (s.token.accounts acc.poolDestination)
  let poolMint ← loadAccount (s.token.mints acc.poolMint)
  let _ ← loadAccount (s.token.accounts acc.poolFee)
  let tradeDirection ← ofProgram (checkSwap chain outer pool acc)
  let curve ← ofProgram (SwapCurve.tryFrom pool.curve)
  let result ← ofProgram (swapAmounts curve pool.fees tradeDirection amountIn minimumAmountOut
    poolSource.amount poolDestination.amount)
  let sourceAmount ← ofProgram (toU64 result.sourceAmountSwapped)
  let signers := acc.authority :: outer.signers
  let l ← ofToken (s.token.transfer signers acc.userSource acc.poolSource
    acc.userTransferAuthority sourceAmount)
  let traded := PoolAmounts.traded { tokenA := 0, tokenB := 0, supply := poolMint.supply } result
    tradeDirection
  let l ← mintOwnerFee l signers acc curve pool.fees tradeDirection result.ownerFee traded
  let destinationAmount ← ofProgram (toU64 result.destinationAmountSwapped)
  let l ← ofToken (l.transfer signers acc.poolDestination acc.userDestination acc.authority
    destinationAmount)
  .ok { s with token := l }

/-! ## The deposits -/

structure DepositAllAccounts where
  proofRequest : Option AccountInfo
  tokenSwap : Pubkey
  authority : Pubkey
  userTransferAuthority : Pubkey
  userTokenA : Pubkey
  userTokenB : Pubkey
  swapTokenA : Pubkey
  swapTokenB : Pubkey
  poolMint : Pubkey
  destination : Pubkey
  tokenProgram : Pubkey

/-- `deposit_all_token_types` -/
def depositAllTokens (chain : Chain) (outer : Outer) (s : SwapState) (acc : DepositAllAccounts)
    (poolTokenAmount maximumTokenAAmount maximumTokenBAmount : Nat) :
    Except Failure SwapState := do
  let pool ← loadAccount (s.pools acc.tokenSwap)
  demand (acc.userTransferAuthority ∈ outer.signers) constraintSigner
  let swapTokenA ← loadAccount (s.token.accounts acc.swapTokenA)
  let swapTokenB ← loadAccount (s.token.accounts acc.swapTokenB)
  let poolMint ← loadAccount (s.token.mints acc.poolMint)
  ofProgram (checkProof (chain.runtime outer.now) pool.addLiquidityPolicy acc.proofRequest
    acc.userTransferAuthority)
  let curve ← ofProgram (SwapCurve.tryFrom pool.curve)
  demand (curve.calculator.allowsDeposits = true) SwapError.unsupportedCurveOperation.into
  ofProgram (checkAccounts (chain.runtime outer.now) ⟨acc.tokenSwap, pool.toTokenSwap⟩
    acc.authority acc.swapTokenA acc.swapTokenB acc.poolMint acc.tokenProgram
    (some acc.userTokenA) (some acc.userTokenB))
  let amounts ← ofProgram (depositAllAmounts curve poolTokenAmount maximumTokenAAmount
    maximumTokenBAmount
    { tokenA := swapTokenA.amount, tokenB := swapTokenB.amount, supply := poolMint.supply })
  let l ← ofToken (s.token.transfer outer.signers acc.userTokenA acc.swapTokenA
    acc.userTransferAuthority amounts.tokenA)
  let l ← ofToken (l.transfer outer.signers acc.userTokenB acc.swapTokenB
    acc.userTransferAuthority amounts.tokenB)
  let l ← ofToken (l.mintTo (acc.authority :: outer.signers) acc.poolMint acc.destination
    acc.authority amounts.poolTokens)
  .ok { s with token := l }

structure DepositSingleAccounts where
  proofRequest : Option AccountInfo
  tokenSwap : Pubkey
  authority : Pubkey
  userTransferAuthority : Pubkey
  source : Pubkey
  swapTokenA : Pubkey
  swapTokenB : Pubkey
  poolMint : Pubkey
  destination : Pubkey
  tokenProgram : Pubkey

/-- The direction of a single-sided instruction, by the mint of the user's account. -/
def directionOf (mint mintA mintB : Pubkey) : Except ProgramError TradeDirection :=
  if mint = mintA then .ok .aToB
  else if mint = mintB then .ok .bToA
  else .error SwapError.incorrectSwapAccount.into

/-- The key for the side of the direction. -/
def TradeDirection.pick {α : Type} (a b : α) : TradeDirection → α
  | .aToB => a
  | .bToA => b

/-- `deposit_single_token_type` -/
def depositSingleTokens (chain : Chain) (outer : Outer) (s : SwapState)
    (acc : DepositSingleAccounts) (sourceTokenAmount minimumPoolTokenAmount : Nat) :
    Except Failure SwapState := do
  let pool ← loadAccount (s.pools acc.tokenSwap)
  demand (acc.userTransferAuthority ∈ outer.signers) constraintSigner
  let source ← loadAccount (s.token.accounts acc.source)
  let swapTokenA ← loadAccount (s.token.accounts acc.swapTokenA)
  let swapTokenB ← loadAccount (s.token.accounts acc.swapTokenB)
  let poolMint ← loadAccount (s.token.mints acc.poolMint)
  ofProgram (checkProof (chain.runtime outer.now) pool.addLiquidityPolicy acc.proofRequest
    acc.userTransferAuthority)
  let curve ← ofProgram (SwapCurve.tryFrom pool.curve)
  let tradeDirection ← ofProgram (directionOf source.mint swapTokenA.mint swapTokenB.mint)
  ofProgram (checkAccounts (chain.runtime outer.now) ⟨acc.tokenSwap, pool.toTokenSwap⟩
    acc.authority acc.swapTokenA acc.swapTokenB acc.poolMint acc.tokenProgram
    (tradeDirection.pick (some acc.source) none) (tradeDirection.pick none (some acc.source)))
  let poolTokens ← ofProgram (depositSingleAmount curve pool.fees tradeDirection
    sourceTokenAmount minimumPoolTokenAmount
    { tokenA := swapTokenA.amount, tokenB := swapTokenB.amount, supply := poolMint.supply })
  let l ← ofToken (s.token.transfer outer.signers acc.source
    (tradeDirection.pick acc.swapTokenA acc.swapTokenB) acc.userTransferAuthority
    sourceTokenAmount)
  let l ← ofToken (l.mintTo (acc.authority :: outer.signers) acc.poolMint acc.destination
    acc.authority poolTokens)
  .ok { s with token := l }

/-! ## The withdrawals -/

/-- The last check of `check_accounts`, where the fee account is given. -/
def checkFeeAccount (tokenSwap : TokenSwap) (poolFee : Pubkey) : Except ProgramError Unit :=
  require (poolFee = tokenSwap.poolFeeAccount) SwapError.incorrectFeeAccount.into

structure WithdrawAllAccounts where
  tokenSwap : Pubkey
  authority : Pubkey
  userTransferAuthority : Pubkey
  poolMint : Pubkey
  source : Pubkey
  swapTokenA : Pubkey
  swapTokenB : Pubkey
  destTokenA : Pubkey
  destTokenB : Pubkey
  poolFee : Pubkey
  tokenProgram : Pubkey

/-- The pool tokens of a withdrawal: the fee to the fee account, the rest burned. -/
def takePoolTokens (l : Token.Ledger Pubkey) (signers : List Pubkey)
    (source poolFee poolMint authority : Pubkey) (amounts : WithdrawAmounts) :
    Except Failure (Token.Ledger Pubkey) := do
  let fee ← ofProgram (toU64 amounts.withdrawFee)
  let l ← payOut l signers source poolFee authority fee
  let poolTokens ← ofProgram (toU64 amounts.poolTokens)
  ofToken (l.burn signers source poolMint authority poolTokens)

/-- `withdraw_all_token_types` -/
def withdrawAllTokens (chain : Chain) (outer : Outer) (s : SwapState) (acc : WithdrawAllAccounts)
    (poolTokenAmount minimumTokenAAmount minimumTokenBAmount : Nat) :
    Except Failure SwapState := do
  let pool ← loadAccount (s.pools acc.tokenSwap)
  demand (acc.userTransferAuthority ∈ outer.signers) constraintSigner
  let poolMint ← loadAccount (s.token.mints acc.poolMint)
  let swapTokenA ← loadAccount (s.token.accounts acc.swapTokenA)
  let swapTokenB ← loadAccount (s.token.accounts acc.swapTokenB)
  let curve ← ofProgram (SwapCurve.tryFrom pool.curve)
  demand (curve.calculator.allowsDeposits = true) SwapError.unsupportedCurveOperation.into
  ofProgram (checkAccounts (chain.runtime outer.now) ⟨acc.tokenSwap, pool.toTokenSwap⟩
    acc.authority acc.swapTokenA acc.swapTokenB acc.poolMint acc.tokenProgram
    (some acc.destTokenA) (some acc.destTokenB))
  ofProgram (checkFeeAccount pool.toTokenSwap acc.poolFee)
  let amounts ← ofProgram (withdrawAllAmounts curve pool.allFees (acc.poolFee = acc.source)
    poolTokenAmount minimumTokenAAmount minimumTokenBAmount
    { tokenA := swapTokenA.amount, tokenB := swapTokenB.amount, supply := poolMint.supply })
  let l ← takePoolTokens s.token outer.signers acc.source acc.poolFee acc.poolMint
    acc.userTransferAuthority amounts
  let l ← payOut l (acc.authority :: outer.signers) acc.swapTokenA acc.destTokenA acc.authority
    amounts.tokenA
  let l ← payOut l (acc.authority :: outer.signers) acc.swapTokenB acc.destTokenB acc.authority
    amounts.tokenB
  .ok { s with token := l }

structure WithdrawSingleAccounts where
  tokenSwap : Pubkey
  authority : Pubkey
  userTransferAuthority : Pubkey
  poolMint : Pubkey
  source : Pubkey
  swapTokenA : Pubkey
  swapTokenB : Pubkey
  destination : Pubkey
  poolFee : Pubkey
  tokenProgram : Pubkey

/-- `withdraw_single_token_type` -/
def withdrawSingleTokens (chain : Chain) (outer : Outer) (s : SwapState)
    (acc : WithdrawSingleAccounts) (destinationTokenAmount maximumPoolTokenAmount : Nat) :
    Except Failure SwapState := do
  let pool ← loadAccount (s.pools acc.tokenSwap)
  demand (acc.userTransferAuthority ∈ outer.signers) constraintSigner
  let poolMint ← loadAccount (s.token.mints acc.poolMint)
  let _ ← loadAccount (s.token.accounts acc.source)
  let swapTokenA ← loadAccount (s.token.accounts acc.swapTokenA)
  let swapTokenB ← loadAccount (s.token.accounts acc.swapTokenB)
  let destination ← loadAccount (s.token.accounts acc.destination)
  let tradeDirection ← ofProgram (directionOf destination.mint swapTokenA.mint swapTokenB.mint)
  ofProgram (checkAccounts (chain.runtime outer.now) ⟨acc.tokenSwap, pool.toTokenSwap⟩
    acc.authority acc.swapTokenA acc.swapTokenB acc.poolMint acc.tokenProgram
    (tradeDirection.pick (some acc.destination) none)
    (tradeDirection.pick none (some acc.destination)))
  ofProgram (checkFeeAccount pool.toTokenSwap acc.poolFee)
  let curve ← ofProgram (SwapCurve.tryFrom pool.curve)
  let amounts ← ofProgram (withdrawSingleAmounts curve pool.allFees (acc.poolFee = acc.source)
    tradeDirection destinationTokenAmount maximumPoolTokenAmount
    { tokenA := swapTokenA.amount, tokenB := swapTokenB.amount, supply := poolMint.supply })
  let l ← takePoolTokens s.token outer.signers acc.source acc.poolFee acc.poolMint
    acc.userTransferAuthority amounts
  let l ← ofToken (l.transfer (acc.authority :: outer.signers)
    (tradeDirection.pick acc.swapTokenA acc.swapTokenB) acc.destination acc.authority
    destinationTokenAmount)
  .ok { s with token := l }

/-! ## close -/

structure CloseAccounts where
  authority : Pubkey
  tokenSwap : Pubkey
  swapTokenA : Pubkey
  swapTokenB : Pubkey
  destTokenA : Pubkey
  destTokenB : Pubkey
  payer : Pubkey

/-- `close`: the accounts are those the caller names, and the pool signs for them. -/
def close (chain : Chain) (outer : Outer) (s : SwapState) (acc : CloseAccounts) :
    Except Failure SwapState := do
  let pool ← loadAccount (s.pools acc.tokenSwap)
  let swapTokenA ← loadAccount (s.token.accounts acc.swapTokenA)
  let swapTokenB ← loadAccount (s.token.accounts acc.swapTokenB)
  let _ ← loadAccount (s.token.accounts acc.destTokenA)
  let _ ← loadAccount (s.token.accounts acc.destTokenB)
  demand (acc.payer ∈ outer.signers) constraintSigner
  let address ← chain.poolAddress acc.tokenSwap pool.bumpSeed
  let l ← payOut s.token (address :: outer.signers) acc.swapTokenA acc.destTokenA acc.authority
    swapTokenA.amount
  let l ← payOut l (address :: outer.signers) acc.swapTokenB acc.destTokenB acc.authority
    swapTokenB.amount
  .ok { token := l, pools := fun key => if key = acc.tokenSwap then none else s.pools key }

/-! ## The machine -/

inductive SwapInstruction where
  | initializePool (acc : InitializeAccounts) (feesInput : Fees) (curveInput : CurveInfo)
      (swapPolicy addLiquidityPolicy : Option Pubkey)
  | swap (acc : SwapAccounts) (amountIn minimumAmountOut : Nat)
  | depositAllTokenTypes (acc : DepositAllAccounts)
      (poolTokenAmount maximumTokenAAmount maximumTokenBAmount : Nat)
  | depositSingleTokenType (acc : DepositSingleAccounts)
      (sourceTokenAmount minimumPoolTokenAmount : Nat)
  | withdrawAllTokenTypes (acc : WithdrawAllAccounts)
      (poolTokenAmount minimumTokenAAmount minimumTokenBAmount : Nat)
  | withdrawSingleTokenType (acc : WithdrawSingleAccounts)
      (destinationTokenAmount maximumPoolTokenAmount : Nat)
  | close (acc : CloseAccounts)
  /-- A call of the token program from outside. -/
  | token (call : Token.Ledger.Call Pubkey)

structure SwapCall extends Outer where
  instruction : SwapInstruction

/-- Solana's error for a signature that is not there. -/
def missingSignature : Failure := .token .missingSignature

def SwapState.run (chain : Chain) (s : SwapState) (outer : Outer) :
    SwapInstruction → Except Failure SwapState
  | .initializePool acc feesInput curveInput swapPolicy addLiquidityPolicy =>
      initializePool chain outer s acc feesInput curveInput swapPolicy addLiquidityPolicy
  | .swap acc amountIn minimumAmountOut =>
      swapTokens chain outer s acc amountIn minimumAmountOut
  | .depositAllTokenTypes acc poolTokenAmount maximumTokenAAmount maximumTokenBAmount =>
      depositAllTokens chain outer s acc poolTokenAmount maximumTokenAAmount maximumTokenBAmount
  | .depositSingleTokenType acc sourceTokenAmount minimumPoolTokenAmount =>
      depositSingleTokens chain outer s acc sourceTokenAmount minimumPoolTokenAmount
  | .withdrawAllTokenTypes acc poolTokenAmount minimumTokenAAmount minimumTokenBAmount =>
      withdrawAllTokens chain outer s acc poolTokenAmount minimumTokenAAmount minimumTokenBAmount
  | .withdrawSingleTokenType acc destinationTokenAmount maximumPoolTokenAmount =>
      withdrawSingleTokens chain outer s acc destinationTokenAmount maximumPoolTokenAmount
  | .close acc => Albus.Integration.close chain outer s acc
  | .token call => do
      let token ← ofToken (s.token.call outer.signers call)
      .ok { s with token }

/-- One call; only keys that can sign have signed it. -/
def SwapState.step (chain : Chain) (s : SwapState) (call : SwapCall) : Except Failure SwapState :=
  if ∀ key ∈ call.signers, chain.canSign key = true then s.run chain call.toOuter call.instruction
  else .error missingSignature

end Albus.Integration
