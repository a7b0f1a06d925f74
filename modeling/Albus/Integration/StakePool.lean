import Albus.Integration.SolanaVerifier

/-! # Deposits into the stake pool

    `programs/albus-stake-pool`: the two deposits a policy can guard.  The account
    formats of the stake, token and sysvar programs, the pool's own derived
    format, program addresses and the calls of other programs are parameters. -/

namespace Albus.Integration

open Albus.Lib Albus.Program

/-! ## Errors and state -/

inductive StakePoolError where
  | alreadyInUse
  | invalidProgramAddress
  | invalidState
  | calculationFailure
  | feeTooHigh
  | wrongAccountMint
  | wrongManager
  | signatureMissing
  | invalidValidatorStakeList
  | invalidFeeAccount
  | wrongPoolMint
  | wrongStakeStake
  | userStakeNotActive
  | validatorAlreadyAdded
  | validatorNotFound
  | invalidStakeAccountAddress
  | stakeListOutOfDate
  | stakeListAndPoolOutOfDate
  | unknownValidatorStakeAccount
  | wrongMintingAuthority
  | unexpectedValidatorListAccountSize
  | wrongStaker
  | nonZeroPoolTokenSupply
  | stakeLamportsNotEqualToMinimum
  | incorrectDepositVoteAddress
  | incorrectWithdrawVoteAddress
  | invalidMintFreezeAuthority
  | feeIncreaseTooHigh
  | withdrawalTooSmall
  | depositTooSmall
  | invalidStakeDepositAuthority
  | invalidSolDepositAuthority
  | invalidPreferredValidator
  | transientAccountInUse
  | invalidSolWithdrawAuthority
  | solWithdrawalTooLarge
  | invalidMetadataAccount
  | unsupportedMintExtension
  | unsupportedFeeAccountExtension
  | exceededSlippage
  | incorrectMintDecimals
  | reserveDepleted
  | missingRequiredSysvar
  deriving DecidableEq, Repr

def StakePoolError.into (e : StakePoolError) : ProgramError := .custom e.ctorIdx

inductive AccountType where
  | uninitialized
  | stakePool
  | validatorList
  deriving DecidableEq

structure Fee where
  denominator : Nat
  numerator : Nat

def Fee.apply (f : Fee) (amt : Nat) : Option Nat :=
  if f.denominator = 0 then some 0
  else do
    let product ← checkedMul 128 amt f.numerator
    checkedDiv product f.denominator

structure StakePool where
  accountType : AccountType
  stakeDepositAuthority : Pubkey
  stakeWithdrawBumpSeed : UInt8
  validatorList : Pubkey
  reserveStake : Pubkey
  poolMint : Pubkey
  managerFeeAccount : Pubkey
  tokenProgramId : Pubkey
  totalLamports : Nat
  poolTokenSupply : Nat
  lastUpdateEpoch : Nat
  preferredDepositValidatorVoteAddress : Option Pubkey
  stakeDepositFee : Fee
  stakeReferralFee : UInt8
  solDepositAuthority : Option Pubkey
  solDepositFee : Fee
  solReferralFee : UInt8
  depositPolicy : Option Pubkey

inductive StakeStatus where
  | active
  | deactivatingTransient
  | readyForRemoval
  | deactivatingValidator
  | deactivatingAll
  deriving DecidableEq

structure ValidatorStakeInfo where
  activeStakeLamports : Nat
  /-- `0` is none. -/
  validatorSeedSuffix : UInt32
  status : StakeStatus
  voteAccountAddress : Pubkey

/-- `StakeStateV2::Stake`, as far as a deposit reads it. -/
structure Stake where
  voterPubkey : Pubkey
  stake : Nat

/-- What the pool runs on. -/
structure PoolRuntime where
  programId : Pubkey
  /-- `Clock::get()` -/
  unixTimestamp : Int
  epoch : Nat
  /-- `Clock::from_account_info(..)?.epoch` -/
  clockEpoch : AccountInfo → Except ProgramError Nat
  createProgramAddress : List (List UInt8) → Pubkey → Option Pubkey
  findProgramAddress : List (List UInt8) → Pubkey → Pubkey × UInt8
  stakePool : List UInt8 → Except ProgramError StakePool
  /-- `ValidatorListHeader::deserialize_vec` -/
  validatorList : List UInt8 → Except ProgramError (AccountType × List ValidatorStakeInfo)
  /-- `StateWithExtensions::<Mint>::unpack(..)?.base.decimals` -/
  mintDecimals : List UInt8 → Except ProgramError UInt8
  stakeState : List UInt8 → Except ProgramError Stake
  /-- The two authorize calls, with the seeds that sign them. -/
  stakeAuthorize : (stake authority newAuthority : Pubkey) → (seeds : List (List UInt8)) →
    Except ProgramError Unit
  /-- The destination after `merge`. -/
  stakeMerge : (source destination : AccountInfo) → (authority : Pubkey) →
    Except ProgramError AccountInfo
  /-- The source after `withdraw`. -/
  stakeWithdraw : (source destination : AccountInfo) → (authority : Pubkey) →
    (lamports : Nat) → Except ProgramError AccountInfo
  solTransfer : (source destination : AccountInfo) → (amount : Nat) → Except ProgramError Unit
  tokenMintTo : (mint destination authority : Pubkey) → (amount : Nat) → Except ProgramError Unit

def stakeProgramId : Pubkey := pubkey "Stake11111111111111111111111111111111111111"

def systemProgramId : Pubkey := pubkey "11111111111111111111111111111111"

def authorityDeposit : List UInt8 := "deposit".toUTF8.toList

def authorityWithdraw : List UInt8 := "withdraw".toUTF8.toList

namespace StakePool

def isValid (pool : StakePool) : Bool := pool.accountType = .stakePool

/-- `calc_pool_tokens_for_deposit` -/
def calcPoolTokensForDeposit (pool : StakePool) (stakeLamports : Nat) : Option Nat :=
  if pool.totalLamports = 0 ∨ pool.poolTokenSupply = 0 then some stakeLamports
  else do
    let product ← checkedMul 128 stakeLamports pool.poolTokenSupply
    let tokens ← checkedDiv product pool.totalLamports
    tryU64 tokens

/-- A fee in pool tokens. -/
def calcFee (fee : Fee) (poolTokensMinted : Nat) : Option Nat := do
  let amount ← fee.apply poolTokensMinted
  tryU64 amount

/-- `calc_pool_tokens_stake_deposit_fee` -/
def calcPoolTokensStakeDepositFee (pool : StakePool) (poolTokensMinted : Nat) : Option Nat :=
  calcFee pool.stakeDepositFee poolTokensMinted

/-- `calc_pool_tokens_sol_deposit_fee` -/
def calcPoolTokensSolDepositFee (pool : StakePool) (poolTokensMinted : Nat) : Option Nat :=
  calcFee pool.solDepositFee poolTokensMinted

/-- A percentage of a fee. -/
def calcReferralFee (percentage : UInt8) (fee : Nat) : Option Nat := do
  let product ← checkedMul 128 fee percentage.toNat
  let amount ← checkedDiv product 100
  tryU64 amount

/-- `calc_pool_tokens_stake_referral_fee` -/
def calcPoolTokensStakeReferralFee (pool : StakePool) (stakeDepositFee : Nat) : Option Nat :=
  calcReferralFee pool.stakeReferralFee stakeDepositFee

/-- `calc_pool_tokens_sol_referral_fee` -/
def calcPoolTokensSolReferralFee (pool : StakePool) (solDepositFee : Nat) : Option Nat :=
  calcReferralFee pool.solReferralFee solDepositFee

/-- `check_authority_withdraw` -/
def checkAuthorityWithdraw (rt : PoolRuntime) (pool : StakePool)
    (withdrawAuthority stakePoolAddress : Pubkey) : Except ProgramError Unit := do
  let expected ← okOr
    (rt.createProgramAddress
      [stakePoolAddress.toList, authorityWithdraw, [pool.stakeWithdrawBumpSeed]] rt.programId)
    .invalidSeeds
  require (withdrawAuthority = expected) StakePoolError.invalidProgramAddress.into

/-- `check_stake_deposit_authority` -/
def checkStakeDepositAuthority (pool : StakePool) (stakeDepositAuthority : Pubkey) :
    Except ProgramError Unit :=
  require (pool.stakeDepositAuthority = stakeDepositAuthority)
    StakePoolError.invalidStakeDepositAuthority.into

/-- `check_sol_deposit_authority`, with what `next_account_info` returned. -/
def checkSolDepositAuthority (pool : StakePool)
    (maybeSolDepositAuthority : Except ProgramError AccountInfo) : Except ProgramError Unit :=
  match pool.solDepositAuthority with
  | none => .ok ()
  | some auth => do
      let solDepositAuthority ← maybeSolDepositAuthority
      require (auth = solDepositAuthority.key) StakePoolError.invalidSolDepositAuthority.into
      require (solDepositAuthority.isSigner = true) StakePoolError.signatureMissing.into

/-- `check_mint` -/
def checkMint (rt : PoolRuntime) (pool : StakePool) (mintInfo : AccountInfo) :
    Except ProgramError UInt8 := do
  require (mintInfo.key = pool.poolMint) StakePoolError.wrongPoolMint.into
  rt.mintDecimals mintInfo.data

/-- `check_validator_list` -/
def checkValidatorList (pool : StakePool) (validatorListInfo : AccountInfo) :
    Except ProgramError Unit :=
  require (validatorListInfo.key = pool.validatorList)
    StakePoolError.invalidValidatorStakeList.into

/-- `check_reserve_stake` -/
def checkReserveStake (pool : StakePool) (reserveStakeInfo : AccountInfo) :
    Except ProgramError Unit :=
  require (reserveStakeInfo.key = pool.reserveStake) StakePoolError.invalidProgramAddress.into

end StakePool

/-! ## The parts of a deposit -/

/-- `next_account_info` -/
def nextAccountInfo : List AccountInfo → Except ProgramError AccountInfo
  | [] => .error .notEnoughAccountKeys
  | acc :: _ => .ok acc

/-- `check_account_owner` -/
def checkAccountOwner (acc : AccountInfo) (programId : Pubkey) : Except ProgramError Unit :=
  require (programId = acc.owner) .incorrectProgramId

/-- The pool account, checked and read. -/
def loadStakePool (rt : PoolRuntime) (stakePoolInfo : AccountInfo) :
    Except ProgramError StakePool := do
  checkAccountOwner stakePoolInfo rt.programId
  let pool ← rt.stakePool stakePoolInfo.data
  require (pool.isValid = true) StakePoolError.invalidState.into
  .ok pool

theorem loadStakePool_ok {rt : PoolRuntime} {info : AccountInfo} {pool : StakePool}
    (h : loadStakePool rt info = .ok pool) : rt.stakePool info.data = .ok pool := by
  obtain ⟨-, -, h⟩ := bind_ok h
  obtain ⟨pool', hpool, h⟩ := bind_ok h
  obtain ⟨-, h⟩ := require_bind_ok h
  rw [← Except.ok.inj h]
  exact hpool

/-- `ok_or(StakePoolError::CalculationFailure)` -/
def calculated {α : Type} (o : Option α) : Except ProgramError α :=
  okOr o StakePoolError.calculationFailure.into

/-- The three checks on the parts of the minted tokens. -/
def checkParts (poolTokensUser managerFee referralFee newPoolTokens : Nat)
    (minimumPoolTokensOut : Option Nat) : Except ProgramError Unit := do
  require (saturatingAdd 64 (saturatingAdd 64 poolTokensUser managerFee) referralFee
    = newPoolTokens) StakePoolError.calculationFailure.into
  require (poolTokensUser ≠ 0) StakePoolError.depositTooSmall.into
  require (∀ minimum ∈ minimumPoolTokensOut, minimum ≤ poolTokensUser)
    StakePoolError.exceededSlippage.into

/-- The accounts pool tokens are minted with. -/
structure MintAccounts where
  poolMint : Pubkey
  withdrawAuthority : Pubkey
  destUserPool : Pubkey
  managerFee : Pubkey
  referrerFee : Pubkey

/-- The mints of a deposit. -/
def mintParts (rt : PoolRuntime) (ctx : MintAccounts)
    (poolTokensUser managerFee referralFee : Nat) : Except ProgramError Unit := do
  rt.tokenMintTo ctx.poolMint ctx.destUserPool ctx.withdrawAuthority poolTokensUser
  if 0 < managerFee then
    rt.tokenMintTo ctx.poolMint ctx.managerFee ctx.withdrawAuthority managerFee
  if 0 < referralFee then
    rt.tokenMintTo ctx.poolMint ctx.referrerFee ctx.withdrawAuthority referralFee

/-- The pool after a deposit. -/
def creditDeposit (pool : StakePool) (newPoolTokens lamports : Nat) :
    Except ProgramError StakePool := do
  let poolTokenSupply ← calculated (checkedAdd 64 pool.poolTokenSupply newPoolTokens)
  let totalLamports ← calculated (checkedAdd 64 pool.totalLamports lamports)
  .ok { pool with poolTokenSupply, totalLamports }

/-! ## DepositSol -/

/-- The accounts of `DepositSol`, and those behind them. -/
structure DepositSol where
  stakePool : AccountInfo
  withdrawAuthority : AccountInfo
  reserveStakeAccount : AccountInfo
  fromUserLamports : AccountInfo
  destUserPool : AccountInfo
  managerFee : AccountInfo
  referrerFee : AccountInfo
  poolMint : AccountInfo
  systemProgram : AccountInfo
  tokenProgram : AccountInfo
  rest : List AccountInfo

def DepositSol.ofAccounts : List AccountInfo → Except ProgramError DepositSol
  | stakePool :: withdrawAuthority :: reserveStakeAccount :: fromUserLamports :: destUserPool
      :: managerFee :: referrerFee :: poolMint :: systemProgram :: tokenProgram :: rest =>
      .ok
        { stakePool, withdrawAuthority, reserveStakeAccount, fromUserLamports, destUserPool
          managerFee, referrerFee, poolMint, systemProgram, tokenProgram, rest }
  | _ => .error .notEnoughAccountKeys

def DepositSol.mintAccounts (ctx : DepositSol) : MintAccounts where
  poolMint := ctx.poolMint.key
  withdrawAuthority := ctx.withdrawAuthority.key
  destUserPool := ctx.destUserPool.key
  managerFee := ctx.managerFee.key
  referrerFee := ctx.referrerFee.key

/-- The guard of `process_deposit_sol`, and the accounts it leaves. -/
def checkSolDeposit (rt : PoolRuntime) (pool : StakePool) (ctx : DepositSol) :
    Except ProgramError (List AccountInfo) :=
  match pool.depositPolicy with
  | none => .ok ctx.rest
  | some policy => do
      let proofRequest ← nextAccountInfo ctx.rest
      (((AlbusVerifier.new proofRequest).checkPolicy policy).checkOwner
        ctx.fromUserLamports.key).run rt.unixTimestamp
      .ok ctx.rest.tail

/-- `process_deposit_sol` -/
def processDepositSol (rt : PoolRuntime) (accounts : List AccountInfo) (depositLamports : Nat)
    (minimumPoolTokensOut : Option Nat) : Except ProgramError StakePool := do
  let ctx ← DepositSol.ofAccounts accounts
  let pool ← loadStakePool rt ctx.stakePool
  -- the proof stands before the optional deposit authority
  let rest ← checkSolDeposit rt pool ctx
  pool.checkAuthorityWithdraw rt ctx.withdrawAuthority.key ctx.stakePool.key
  pool.checkSolDepositAuthority (nextAccountInfo rest)
  let _ ← pool.checkMint rt ctx.poolMint
  pool.checkReserveStake ctx.reserveStakeAccount
  require (pool.tokenProgramId = ctx.tokenProgram.key) .incorrectProgramId
  require (ctx.systemProgram.key = systemProgramId) .incorrectProgramId
  require (pool.managerFeeAccount = ctx.managerFee.key) StakePoolError.invalidFeeAccount.into
  require (rt.epoch ≤ pool.lastUpdateEpoch) StakePoolError.stakeListAndPoolOutOfDate.into
  let newPoolTokens ← calculated (pool.calcPoolTokensForDeposit depositLamports)
  let solDepositFee ← calculated (pool.calcPoolTokensSolDepositFee newPoolTokens)
  let poolTokensUser ← calculated (checkedSub newPoolTokens solDepositFee)
  let referralFee ← calculated (pool.calcPoolTokensSolReferralFee solDepositFee)
  let managerFee ← calculated (checkedSub solDepositFee referralFee)
  checkParts poolTokensUser managerFee referralFee newPoolTokens minimumPoolTokensOut
  rt.solTransfer ctx.fromUserLamports ctx.reserveStakeAccount depositLamports
  mintParts rt ctx.mintAccounts poolTokensUser managerFee referralFee
  creditDeposit pool newPoolTokens depositLamports

/-! ## DepositStake -/

/-- The accounts of `DepositStake`, and those behind them. -/
structure DepositStake where
  stakePool : AccountInfo
  validatorList : AccountInfo
  stakeDepositAuthority : AccountInfo
  withdrawAuthority : AccountInfo
  stake : AccountInfo
  validatorStakeAccount : AccountInfo
  reserveStakeAccount : AccountInfo
  destUserPool : AccountInfo
  managerFee : AccountInfo
  referrerFee : AccountInfo
  poolMint : AccountInfo
  /-- The epoch of the clock account. -/
  clockEpoch : Nat
  tokenProgram : AccountInfo
  stakeProgram : AccountInfo
  rest : List AccountInfo

/-- The clock account is read before the accounts behind it are taken. -/
def DepositStake.ofAccounts (rt : PoolRuntime) :
    List AccountInfo → Except ProgramError DepositStake
  | stakePool :: validatorList :: stakeDepositAuthority :: withdrawAuthority :: stake
      :: validatorStakeAccount :: reserveStakeAccount :: destUserPool :: managerFee
      :: referrerFee :: poolMint :: clock :: rest => do
      let clockEpoch ← rt.clockEpoch clock
      match rest with
      | _stakeHistory :: tokenProgram :: stakeProgram :: rest =>
          .ok
            { stakePool, validatorList, stakeDepositAuthority, withdrawAuthority, stake
              validatorStakeAccount, reserveStakeAccount, destUserPool, managerFee, referrerFee
              poolMint, clockEpoch, tokenProgram, stakeProgram, rest }
      | _ => .error .notEnoughAccountKeys
  | _ => .error .notEnoughAccountKeys

def DepositStake.mintAccounts (ctx : DepositStake) : MintAccounts where
  poolMint := ctx.poolMint.key
  withdrawAuthority := ctx.withdrawAuthority.key
  destUserPool := ctx.destUserPool.key
  managerFee := ctx.managerFee.key
  referrerFee := ctx.referrerFee.key

/-- The guard of `process_deposit_stake`: the owner is not asked for. -/
def checkStakeDeposit (rt : PoolRuntime) (pool : StakePool) (ctx : DepositStake) :
    Except ProgramError Unit :=
  match pool.depositPolicy with
  | none => .ok ()
  | some policy => do
      let proofRequest ← nextAccountInfo ctx.rest
      ((AlbusVerifier.new proofRequest).checkPolicy policy).run rt.unixTimestamp

/-- The validator the deposited stake goes to. -/
def findValidator (rt : PoolRuntime) (pool : StakePool) (ctx : DepositStake)
    (validators : List ValidatorStakeInfo) (voteAccountAddress : Pubkey) :
    Except ProgramError ValidatorStakeInfo := do
  require (∀ preferred ∈ pool.preferredDepositValidatorVoteAddress,
    preferred = voteAccountAddress) StakePoolError.incorrectDepositVoteAddress.into
  let validator ← okOr (validators.find? fun v => v.voteAccountAddress = voteAccountAddress)
    StakePoolError.validatorNotFound.into
  let seed := if validator.validatorSeedSuffix = 0 then []
    else leBytes 4 validator.validatorSeedSuffix.toNat
  let (address, _) := rt.findProgramAddress
    [voteAccountAddress.toList, ctx.stakePool.key.toList, seed] rt.programId
  require (address = ctx.validatorStakeAccount.key)
    StakePoolError.invalidStakeAccountAddress.into
  require (validator.status = .active) StakePoolError.validatorNotFound.into
  .ok validator

/-- The authorities of the deposited stake pass to the pool. -/
def takeStake (rt : PoolRuntime) (ctx : DepositStake) : Except ProgramError Unit :=
  let (depositAuthority, bump) := rt.findProgramAddress
    [ctx.stakePool.key.toList, authorityDeposit] rt.programId
  if ctx.stakeDepositAuthority.key = depositAuthority then
    rt.stakeAuthorize ctx.stake.key ctx.stakeDepositAuthority.key ctx.withdrawAuthority.key
      [ctx.stakePool.key.toList, authorityDeposit, [bump]]
  else
    rt.stakeAuthorize ctx.stake.key ctx.stakeDepositAuthority.key ctx.withdrawAuthority.key []

/-- `process_deposit_stake`: the pool and the validators afterwards. -/
def processDepositStake (rt : PoolRuntime) (accounts : List AccountInfo)
    (minimumPoolTokensOut : Option Nat) :
    Except ProgramError (StakePool × List ValidatorStakeInfo) := do
  let ctx ← DepositStake.ofAccounts rt accounts
  require (ctx.stakeProgram.key = stakeProgramId) .incorrectProgramId
  let pool ← loadStakePool rt ctx.stakePool
  checkStakeDeposit rt pool ctx
  pool.checkAuthorityWithdraw rt ctx.withdrawAuthority.key ctx.stakePool.key
  pool.checkStakeDepositAuthority ctx.stakeDepositAuthority.key
  let _ ← pool.checkMint rt ctx.poolMint
  pool.checkValidatorList ctx.validatorList
  pool.checkReserveStake ctx.reserveStakeAccount
  require (pool.tokenProgramId = ctx.tokenProgram.key) .incorrectProgramId
  require (pool.managerFeeAccount = ctx.managerFee.key) StakePoolError.invalidFeeAccount.into
  require (ctx.clockEpoch ≤ pool.lastUpdateEpoch) StakePoolError.stakeListAndPoolOutOfDate.into
  checkAccountOwner ctx.validatorList rt.programId
  let (header, validators) ← rt.validatorList ctx.validatorList.data
  require (header = .validatorList) StakePoolError.invalidState.into
  let validatorStake ← rt.stakeState ctx.validatorStakeAccount.data
  let validator ← findValidator rt pool ctx validators validatorStake.voterPubkey
  takeStake rt ctx
  -- what came in is measured on the validator's account, before and after the merge
  let merged ← rt.stakeMerge ctx.stake ctx.validatorStakeAccount ctx.withdrawAuthority.key
  let postValidatorStake ← rt.stakeState merged.data
  let totalDepositLamports ← calculated
    (checkedSub merged.lamports ctx.validatorStakeAccount.lamports)
  let stakeDepositLamports ← calculated
    (checkedSub postValidatorStake.stake validatorStake.stake)
  let solDepositLamports ← calculated (checkedSub totalDepositLamports stakeDepositLamports)
  let newPoolTokens ← calculated (pool.calcPoolTokensForDeposit totalDepositLamports)
  let newPoolTokensFromStake ← calculated (pool.calcPoolTokensForDeposit stakeDepositLamports)
  let newPoolTokensFromSol ← calculated (checkedSub newPoolTokens newPoolTokensFromStake)
  let stakeDepositFee ← calculated (pool.calcPoolTokensStakeDepositFee newPoolTokensFromStake)
  let solDepositFee ← calculated (pool.calcPoolTokensSolDepositFee newPoolTokensFromSol)
  let totalFee ← calculated (checkedAdd 64 stakeDepositFee solDepositFee)
  let poolTokensUser ← calculated (checkedSub newPoolTokens totalFee)
  let referralFee ← calculated (pool.calcPoolTokensStakeReferralFee totalFee)
  let managerFee ← calculated (checkedSub totalFee referralFee)
  checkParts poolTokensUser managerFee referralFee newPoolTokens minimumPoolTokensOut
  mintParts rt ctx.mintAccounts poolTokensUser managerFee referralFee
  -- lamports that are no stake go on to the reserve
  let validatorStakeAccount ←
    if 0 < solDepositLamports then
      rt.stakeWithdraw merged ctx.reserveStakeAccount ctx.withdrawAuthority.key
        solDepositLamports
    else .ok merged
  let pool ← creditDeposit pool newPoolTokens totalDepositLamports
  let index := validators.findIdx fun v => v.voteAccountAddress = validator.voteAccountAddress
  .ok (pool, validators.set index
    { validator with activeStakeLamports := validatorStakeAccount.lamports })

end Albus.Integration
