import Albus.Integration.StakePool

/-! # Withdrawals from the stake pool, and its update

    `programs/albus-stake-pool`: what takes lamports out of the pool, and what
    takes note of its rewards.  The supply of the pool's mint is passed along; the
    other accounts are read through the runtime, as for the deposits. -/

namespace Albus.Integration

open Albus.Lib Albus.Program

/-! ## The rest of the state -/

inductive FutureEpoch (α : Type) where
  | none
  | one (value : α)
  | two (value : α)

/-- `update_epoch` -/
def FutureEpoch.updateEpoch {α : Type} : FutureEpoch α → FutureEpoch α
  | .none => .none
  | .one _ => .none
  | .two value => .one value

/-- `get`: ready with one epoch remaining. -/
def FutureEpoch.get {α : Type} : FutureEpoch α → Option α
  | .one value => some value
  | _ => Option.none

/-- `StakePool`, with the fields that the withdrawals and the update read. -/
structure PoolAccount extends StakePool where
  epochFee : Fee
  nextEpochFee : FutureEpoch Fee
  preferredWithdrawValidatorVoteAddress : Option Pubkey
  stakeWithdrawalFee : Fee
  nextStakeWithdrawalFee : FutureEpoch Fee
  solWithdrawAuthority : Option Pubkey
  solWithdrawalFee : Fee
  nextSolWithdrawalFee : FutureEpoch Fee
  lastEpochPoolTokenSupply : Nat
  lastEpochTotalLamports : Nat

/-- `ValidatorStakeInfo`, with the fields that the withdrawals and the update read. -/
structure ValidatorRecord extends ValidatorStakeInfo where
  transientStakeLamports : Nat
  lastUpdateEpoch : Nat
  transientSeedSuffix : Nat

structure Meta where
  rentExemptReserve : Nat

inductive StakeStateV2 where
  | initialized (info : Meta)
  | stake (info : Meta) (delegated : Stake)
  | other

/-- `meta` -/
def StakeStateV2.info : StakeStateV2 → Option Meta
  | .initialized info => some info
  | .stake info _ => some info
  | .other => none

/-- `delegation` -/
def StakeStateV2.delegation : StakeStateV2 → Option Stake
  | .stake _ delegated => some delegated
  | _ => none

/-- A token account, as far as `check_manager_fee_info` reads it. -/
structure FeeTokenAccount where
  mint : Pubkey
  initialized : Bool
  /-- Every extension is supported for a fee account. -/
  extensionsSupported : Bool

/-- What the withdrawals and the update run on. -/
structure WithdrawRuntime extends PoolRuntime where
  poolAccount : List UInt8 → Except ProgramError PoolAccount
  validatorRecords : List UInt8 → Except ProgramError (AccountType × List ValidatorRecord)
  stakeStateV2 : List UInt8 → Except ProgramError StakeStateV2
  feeTokenAccount : List UInt8 → Except ProgramError FeeTokenAccount
  /-- `get_minimum_delegation` -/
  minimumDelegation : Except ProgramError Nat
  tokenBurn : (account mint authority : Pubkey) → (amount : Nat) → Except ProgramError Unit
  tokenTransfer : (source mint destination authority : Pubkey) → (amount : Nat) →
    (decimals : UInt8) → Except ProgramError Unit
  stakeSplit : (source destination authority : Pubkey) → (lamports : Nat) →
    Except ProgramError Unit

/-- `TokenError::Overflow` -/
def tokenOverflow : ProgramError := .custom 14

/-- `MINIMUM_ACTIVE_STAKE` -/
def minimumActiveStake : Nat := 1000000

/-- `MINIMUM_RESERVE_LAMPORTS` -/
def minimumReserve : Nat := 0

/-- `minimum_reserve_lamports` -/
def minimumReserveLamports (info : Meta) : Nat :=
  saturatingAdd 64 info.rentExemptReserve minimumReserve

/-- `minimum_stake_lamports` -/
def minimumStakeLamports (info : Meta) (stakeProgramMinimumDelegation : Nat) : Nat :=
  saturatingAdd 64 info.rentExemptReserve (max stakeProgramMinimumDelegation minimumActiveStake)

namespace PoolAccount

/-- `calc_lamports_withdraw_amount` -/
def calcLamportsWithdrawAmount (pool : PoolAccount) (poolTokens : Nat) : Option Nat := do
  let numerator ← checkedMul 128 poolTokens pool.totalLamports
  -- an amount of zero is valid here
  if numerator < pool.poolTokenSupply ∨ pool.poolTokenSupply = 0 then some 0
  else do
    let lamports ← checkedDiv numerator pool.poolTokenSupply
    tryU64 lamports

/-- `calc_pool_tokens_stake_withdrawal_fee` -/
def calcPoolTokensStakeWithdrawalFee (pool : PoolAccount) (poolTokens : Nat) : Option Nat :=
  StakePool.calcFee pool.stakeWithdrawalFee poolTokens

/-- `calc_pool_tokens_sol_withdrawal_fee` -/
def calcPoolTokensSolWithdrawalFee (pool : PoolAccount) (poolTokens : Nat) : Option Nat :=
  StakePool.calcFee pool.solWithdrawalFee poolTokens

/-- `calc_epoch_fee_amount` -/
def calcEpochFeeAmount (pool : PoolAccount) (rewardLamports : Nat) : Option Nat :=
  if rewardLamports = 0 then some 0
  else do
    let totalLamports ← checkedAdd 128 pool.totalLamports rewardLamports
    let feeLamports ← pool.epochFee.apply rewardLamports
    if totalLamports = feeLamports ∨ pool.poolTokenSupply = 0 then some rewardLamports
    else do
      let product ← checkedMul 128 pool.poolTokenSupply feeLamports
      let rest ← checkedSub totalLamports feeLamports
      let fee ← checkedDiv product rest
      tryU64 fee

/-- `get_lamports_per_pool_token` -/
def getLamportsPerPoolToken (pool : PoolAccount) : Option Nat := do
  let sum ← checkedAdd 64 pool.totalLamports pool.poolTokenSupply
  let dividend ← checkedSub sum 1
  checkedDiv dividend pool.poolTokenSupply

/-- `check_manager_fee_info` -/
def checkManagerFeeInfo (rt : WithdrawRuntime) (pool : PoolAccount)
    (managerFeeInfo : AccountInfo) : Except ProgramError Unit := do
  let tokenAccount ← rt.feeTokenAccount managerFeeInfo.data
  require (managerFeeInfo.owner = pool.tokenProgramId ∧ tokenAccount.initialized = true ∧
    tokenAccount.mint = pool.poolMint) StakePoolError.invalidFeeAccount.into
  require (tokenAccount.extensionsSupported = true)
    StakePoolError.unsupportedFeeAccountExtension.into

/-- `check_sol_withdraw_authority`, with what `next_account_info` returned. -/
def checkSolWithdrawAuthority (pool : PoolAccount)
    (maybeSolWithdrawAuthority : Except ProgramError AccountInfo) : Except ProgramError Unit :=
  match pool.solWithdrawAuthority with
  | none => .ok ()
  | some auth => do
      let solWithdrawAuthority ← maybeSolWithdrawAuthority
      require (auth = solWithdrawAuthority.key) StakePoolError.invalidSolWithdrawAuthority.into
      require (solWithdrawAuthority.isSigner = true) StakePoolError.signatureMissing.into

end PoolAccount

/-! ## The parts of a withdrawal -/

/-- The pool account, checked and read. -/
def loadPoolAccount (rt : WithdrawRuntime) (stakePoolInfo : AccountInfo) :
    Except ProgramError PoolAccount := do
  checkAccountOwner stakePoolInfo rt.programId
  let pool ← rt.poolAccount stakePoolInfo.data
  require (pool.isValid = true) StakePoolError.invalidState.into
  .ok pool

/-- The fee of a withdrawal: none from the fee account itself, and none to an account that
    cannot take it. -/
def withdrawalFee (rt : WithdrawRuntime) (pool : PoolAccount)
    (burnFromPool managerFee : AccountInfo) (computed : Option Nat) : Except ProgramError Nat :=
  if pool.managerFeeAccount = burnFromPool.key ∨
      (pool.checkManagerFeeInfo rt managerFee).isOk = false then .ok 0
  else calculated computed

structure WithdrawalParts where
  poolTokensBurnt : Nat
  withdrawLamports : Nat

/-- The pool tokens to burn, and the lamports they are worth. -/
def withdrawalParts (pool : PoolAccount) (poolTokens poolTokensFee : Nat)
    (minimumLamportsOut : Option Nat) : Except ProgramError WithdrawalParts := do
  let poolTokensBurnt ← calculated (checkedSub poolTokens poolTokensFee)
  let withdrawLamports ← calculated (pool.calcLamportsWithdrawAmount poolTokensBurnt)
  require (withdrawLamports ≠ 0) StakePoolError.withdrawalTooSmall.into
  require (∀ minimum ∈ minimumLamportsOut, minimum ≤ withdrawLamports)
    StakePoolError.exceededSlippage.into
  .ok { poolTokensBurnt, withdrawLamports }

/-- The pool after a withdrawal. -/
def debitWithdrawal (pool : PoolAccount) (poolTokensBurnt withdrawLamports : Nat) :
    Except ProgramError PoolAccount := do
  let poolTokenSupply ← calculated (checkedSub pool.poolTokenSupply poolTokensBurnt)
  let totalLamports ← calculated (checkedSub pool.totalLamports withdrawLamports)
  .ok { pool with poolTokenSupply, totalLamports }

/-- A burn, and the supply of the mint after it. -/
def burnPoolTokens (rt : WithdrawRuntime) (account mint authority : Pubkey)
    (amount supply : Nat) : Except ProgramError Nat := do
  rt.tokenBurn account mint authority amount
  okOr (checkedSub supply amount) tokenOverflow

/-- The fee goes to the manager's account. -/
def transferFee (rt : WithdrawRuntime) (source mint destination authority : Pubkey)
    (poolTokensFee : Nat) (decimals : UInt8) : Except ProgramError Unit :=
  if 0 < poolTokensFee then
    rt.tokenTransfer source mint destination authority poolTokensFee decimals
  else .ok ()

/-! ## WithdrawSol -/

/-- The accounts of `WithdrawSol`, and those behind them. -/
structure WithdrawSol where
  stakePool : AccountInfo
  withdrawAuthority : AccountInfo
  userTransferAuthority : AccountInfo
  burnFromPool : AccountInfo
  reserveStake : AccountInfo
  destinationLamports : AccountInfo
  managerFee : AccountInfo
  poolMint : AccountInfo
  stakeProgram : AccountInfo
  tokenProgram : AccountInfo
  rest : List AccountInfo

def WithdrawSol.ofAccounts : List AccountInfo → Except ProgramError WithdrawSol
  | stakePool :: withdrawAuthority :: userTransferAuthority :: burnFromPool :: reserveStake
      :: destinationLamports :: managerFee :: poolMint :: _clock :: _stakeHistory
      :: stakeProgram :: tokenProgram :: rest =>
      .ok
        { stakePool, withdrawAuthority, userTransferAuthority, burnFromPool, reserveStake
          destinationLamports, managerFee, poolMint, stakeProgram, tokenProgram, rest }
  | _ => .error .notEnoughAccountKeys

/-- The reserve keeps its minimum. -/
def checkReserve (rt : WithdrawRuntime) (reserveStake : AccountInfo) (withdrawLamports : Nat) :
    Except ProgramError Unit := do
  let state ← rt.stakeStateV2 reserveStake.data
  match state with
  | .initialized info =>
      require (minimumReserveLamports info ≤ reserveStake.lamports - withdrawLamports)
        StakePoolError.solWithdrawalTooLarge.into
  | _ => .error StakePoolError.wrongStakeStake.into

/-- `process_withdraw_sol`: the pool and the supply of its mint afterwards. -/
def processWithdrawSol (rt : WithdrawRuntime) (accounts : List AccountInfo) (poolTokens : Nat)
    (minimumLamportsOut : Option Nat) (supply : Nat) :
    Except ProgramError (PoolAccount × Nat) := do
  let ctx ← WithdrawSol.ofAccounts accounts
  let pool ← loadPoolAccount rt ctx.stakePool
  pool.checkAuthorityWithdraw rt.toPoolRuntime ctx.withdrawAuthority.key ctx.stakePool.key
  pool.checkSolWithdrawAuthority (nextAccountInfo ctx.rest)
  let decimals ← pool.checkMint rt.toPoolRuntime ctx.poolMint
  pool.checkReserveStake ctx.reserveStake
  require (pool.tokenProgramId = ctx.tokenProgram.key) .incorrectProgramId
  require (ctx.stakeProgram.key = stakeProgramId) .incorrectProgramId
  require (pool.managerFeeAccount = ctx.managerFee.key) StakePoolError.invalidFeeAccount.into
  require (rt.epoch ≤ pool.lastUpdateEpoch) StakePoolError.stakeListAndPoolOutOfDate.into
  let poolTokensFee ← withdrawalFee rt pool ctx.burnFromPool ctx.managerFee
    (pool.calcPoolTokensSolWithdrawalFee poolTokens)
  let parts ← withdrawalParts pool poolTokens poolTokensFee minimumLamportsOut
  checkReserve rt ctx.reserveStake parts.withdrawLamports
  let supply ← burnPoolTokens rt ctx.burnFromPool.key ctx.poolMint.key
    ctx.userTransferAuthority.key parts.poolTokensBurnt supply
  transferFee rt ctx.burnFromPool.key ctx.poolMint.key ctx.managerFee.key
    ctx.userTransferAuthority.key poolTokensFee decimals
  let _ ← rt.stakeWithdraw ctx.reserveStake ctx.destinationLamports ctx.withdrawAuthority.key
    parts.withdrawLamports
  let pool ← debitWithdrawal pool parts.poolTokensBurnt parts.withdrawLamports
  .ok (pool, supply)

/-! ## WithdrawStake -/

/-- The accounts of `WithdrawStake`. -/
structure WithdrawStake where
  stakePool : AccountInfo
  validatorList : AccountInfo
  withdrawAuthority : AccountInfo
  stakeSplitFrom : AccountInfo
  stakeSplitTo : AccountInfo
  userStakeAuthority : AccountInfo
  userTransferAuthority : AccountInfo
  burnFromPool : AccountInfo
  managerFee : AccountInfo
  poolMint : AccountInfo
  /-- The epoch of the clock account. -/
  clockEpoch : Nat
  tokenProgram : AccountInfo
  stakeProgram : AccountInfo

def WithdrawStake.ofAccounts (rt : WithdrawRuntime) :
    List AccountInfo → Except ProgramError WithdrawStake
  | stakePool :: validatorList :: withdrawAuthority :: stakeSplitFrom :: stakeSplitTo
      :: userStakeAuthority :: userTransferAuthority :: burnFromPool :: managerFee :: poolMint
      :: clock :: rest => do
      let clockEpoch ← rt.clockEpoch clock
      match rest with
      | tokenProgram :: stakeProgram :: _ =>
          .ok
            { stakePool, validatorList, withdrawAuthority, stakeSplitFrom, stakeSplitTo
              userStakeAuthority, userTransferAuthority, burnFromPool, managerFee, poolMint
              clockEpoch, tokenProgram, stakeProgram }
      | _ => .error .notEnoughAccountKeys
  | _ => .error .notEnoughAccountKeys

/-- `StakeWithdrawSource` -/
inductive StakeWithdrawSource where
  | active
  | transient
  | validatorRemoval
  deriving DecidableEq

/-- `check_validator_stake_address` -/
def checkValidatorStakeAddress (rt : WithdrawRuntime)
    (stakePoolAddress stakeAccountAddress voteAddress : Pubkey) (seed : UInt32) :
    Except ProgramError Unit :=
  let seed := if seed = 0 then [] else leBytes 4 seed.toNat
  let (address, _) := rt.findProgramAddress
    [voteAddress.toList, stakePoolAddress.toList, seed] rt.programId
  require (address = stakeAccountAddress) StakePoolError.invalidStakeAccountAddress.into

/-- `TRANSIENT_STAKE_SEED_PREFIX` -/
def transientStakeSeedPrefix : List UInt8 := "transient".toUTF8.toList

/-- `check_transient_stake_address` -/
def checkTransientStakeAddress (rt : WithdrawRuntime)
    (stakePoolAddress stakeAccountAddress voteAddress : Pubkey) (seed : Nat) :
    Except ProgramError Unit :=
  let (address, _) := rt.findProgramAddress
    [transientStakeSeedPrefix, voteAddress.toList, stakePoolAddress.toList, leBytes 8 seed]
    rt.programId
  require (address = stakeAccountAddress) StakePoolError.invalidStakeAccountAddress.into

/-- The preferred validator is emptied first. -/
def checkPreferredWithdraw (pool : PoolAccount) (validators : List ValidatorRecord)
    (voteAccountAddress : Pubkey) (minimumLamportsWithTolerance : Nat) :
    Except ProgramError Unit :=
  match pool.preferredWithdrawValidatorVoteAddress with
  | none => .ok ()
  | some preferred => do
      let info ← okOr (validators.find? fun v => v.voteAccountAddress = preferred)
        StakePoolError.validatorNotFound.into
      require (preferred = voteAccountAddress ∨
        info.activeStakeLamports - minimumLamportsWithTolerance = 0)
        StakePoolError.incorrectWithdrawVoteAddress.into

/-- The kind of account that is split: active stake before transient stake, and a whole account
    only where there is neither. -/
def withdrawSource (rt : WithdrawRuntime) (ctx : WithdrawStake) (validator : ValidatorRecord)
    (voteAccountAddress : Pubkey) (hasActiveStake hasTransientStake : Bool) :
    Except ProgramError StakeWithdrawSource :=
  if hasActiveStake then do
    checkValidatorStakeAddress rt ctx.stakePool.key ctx.stakeSplitFrom.key voteAccountAddress
      validator.validatorSeedSuffix
    .ok .active
  else if hasTransientStake then do
    checkTransientStakeAddress rt ctx.stakePool.key ctx.stakeSplitFrom.key voteAccountAddress
      validator.transientSeedSuffix
    .ok .transient
  else do
    checkValidatorStakeAddress rt ctx.stakePool.key ctx.stakeSplitFrom.key voteAccountAddress
      validator.validatorSeedSuffix
    .ok .validatorRemoval

/-- The lamports that are split off. -/
def splitLamports (source : StakeWithdrawSource)
    (withdrawLamports splitFromLamports requiredLamports lamportsPerPoolToken : Nat) :
    Except ProgramError Nat :=
  match source with
  | .active | .transient => do
      require (requiredLamports ≤ splitFromLamports - withdrawLamports)
        StakePoolError.stakeLamportsNotEqualToMinimum.into
      .ok withdrawLamports
  | .validatorRemoval => do
      require (splitFromLamports ≤ withdrawLamports ∧
        withdrawLamports ≤ saturatingAdd 64 splitFromLamports lamportsPerPoolToken)
        StakePoolError.stakeLamportsNotEqualToMinimum.into
      -- no more than the account holds
      .ok splitFromLamports

/-- The validator after the withdrawal. -/
def debitValidator (source : StakeWithdrawSource) (validator : ValidatorRecord)
    (withdrawLamports : Nat) : Except ProgramError ValidatorRecord :=
  match source with
  | .active => do
      let activeStakeLamports ← calculated
        (checkedSub validator.activeStakeLamports withdrawLamports)
      .ok { validator with activeStakeLamports }
  | .transient => do
      let transientStakeLamports ← calculated
        (checkedSub validator.transientStakeLamports withdrawLamports)
      .ok { validator with transientStakeLamports }
  | .validatorRemoval => do
      let activeStakeLamports ← calculated
        (checkedSub validator.activeStakeLamports withdrawLamports)
      require (activeStakeLamports = 0) StakePoolError.stakeListAndPoolOutOfDate.into
      .ok { validator with activeStakeLamports, status := .readyForRemoval }

/-- What a withdrawal takes, and from which validator; none for the reserve. -/
structure SplitPlan where
  lamports : Nat
  validator : Option (ValidatorRecord × StakeWithdrawSource)

/-- The source of the withdrawal and the amount it gives. -/
def planSplit (rt : WithdrawRuntime) (pool : PoolAccount) (ctx : WithdrawStake)
    (validators : List ValidatorRecord) (withdrawLamports : Nat) :
    Except ProgramError SplitPlan := do
  let minimumDelegation ← rt.minimumDelegation
  let state ← rt.stakeStateV2 ctx.stakeSplitFrom.data
  let info ← okOr state.info StakePoolError.wrongStakeStake.into
  let requiredLamports := minimumStakeLamports info minimumDelegation
  let lamportsPerPoolToken ← calculated pool.getLamportsPerPoolToken
  let tolerance := saturatingAdd 64 requiredLamports lamportsPerPoolToken
  let hasActiveStake := validators.any fun v => tolerance < v.activeStakeLamports
  let hasTransientStake := validators.any fun v => tolerance < v.transientStakeLamports
  if ctx.stakeSplitFrom.key = pool.reserveStake then do
    require (¬(hasTransientStake = true ∨ hasActiveStake = true))
      StakePoolError.stakeLamportsNotEqualToMinimum.into
    let _ ← okOr (checkedSub ctx.stakeSplitFrom.lamports (minimumReserveLamports info))
      StakePoolError.stakeLamportsNotEqualToMinimum.into
    .ok { lamports := withdrawLamports, validator := none }
  else do
    let delegation ← okOr state.delegation StakePoolError.wrongStakeStake.into
    checkPreferredWithdraw pool validators delegation.voterPubkey tolerance
    let validator ← okOr
      (validators.find? fun v => v.voteAccountAddress = delegation.voterPubkey)
      StakePoolError.validatorNotFound.into
    let source ← withdrawSource rt ctx validator delegation.voterPubkey hasActiveStake
      hasTransientStake
    require (validator.status = .active) StakePoolError.validatorNotFound.into
    let lamports ← splitLamports source withdrawLamports ctx.stakeSplitFrom.lamports
      requiredLamports lamportsPerPoolToken
    .ok { lamports, validator := some (validator, source) }

/-- The validators after the withdrawal. -/
def debitValidators (validators : List ValidatorRecord) (plan : SplitPlan) :
    Except ProgramError (List ValidatorRecord) :=
  match plan.validator with
  | none => .ok validators
  | some (validator, source) => do
      let debited ← debitValidator source validator plan.lamports
      let index := validators.findIdx fun v => v.voteAccountAddress = validator.voteAccountAddress
      .ok (validators.set index debited)

/-- `process_withdraw_stake`: the pool, the supply of its mint and the validators afterwards. -/
def processWithdrawStake (rt : WithdrawRuntime) (accounts : List AccountInfo) (poolTokens : Nat)
    (minimumLamportsOut : Option Nat) (supply : Nat) :
    Except ProgramError (PoolAccount × Nat × List ValidatorRecord) := do
  let ctx ← WithdrawStake.ofAccounts rt accounts
  require (ctx.stakeProgram.key = stakeProgramId) .incorrectProgramId
  let pool ← loadPoolAccount rt ctx.stakePool
  let decimals ← pool.checkMint rt.toPoolRuntime ctx.poolMint
  pool.checkValidatorList ctx.validatorList
  pool.checkAuthorityWithdraw rt.toPoolRuntime ctx.withdrawAuthority.key ctx.stakePool.key
  require (pool.managerFeeAccount = ctx.managerFee.key) StakePoolError.invalidFeeAccount.into
  require (pool.tokenProgramId = ctx.tokenProgram.key) .incorrectProgramId
  require (ctx.clockEpoch ≤ pool.lastUpdateEpoch) StakePoolError.stakeListAndPoolOutOfDate.into
  checkAccountOwner ctx.validatorList rt.programId
  let (header, validators) ← rt.validatorRecords ctx.validatorList.data
  require (header = .validatorList) StakePoolError.invalidState.into
  let poolTokensFee ← withdrawalFee rt pool ctx.burnFromPool ctx.managerFee
    (pool.calcPoolTokensStakeWithdrawalFee poolTokens)
  let parts ← withdrawalParts pool poolTokens poolTokensFee minimumLamportsOut
  let plan ← planSplit rt pool ctx validators parts.withdrawLamports
  let supply ← burnPoolTokens rt ctx.burnFromPool.key ctx.poolMint.key
    ctx.userTransferAuthority.key parts.poolTokensBurnt supply
  rt.stakeSplit ctx.stakeSplitFrom.key ctx.stakeSplitTo.key ctx.withdrawAuthority.key
    plan.lamports
  rt.stakeAuthorize ctx.stakeSplitTo.key ctx.withdrawAuthority.key ctx.userStakeAuthority.key
    [ctx.stakePool.key.toList, authorityWithdraw, [pool.stakeWithdrawBumpSeed]]
  transferFee rt ctx.burnFromPool.key ctx.poolMint.key ctx.managerFee.key
    ctx.userTransferAuthority.key poolTokensFee decimals
  let pool ← debitWithdrawal pool parts.poolTokensBurnt plan.lamports
  let validators ← debitValidators validators plan
  .ok (pool, supply, validators)

/-! ## UpdateStakePoolBalance -/

/-- The accounts of `UpdateStakePoolBalance`. -/
structure UpdateBalance where
  stakePool : AccountInfo
  withdraw : AccountInfo
  validatorList : AccountInfo
  reserveStake : AccountInfo
  managerFee : AccountInfo
  poolMint : AccountInfo
  tokenProgram : AccountInfo

def UpdateBalance.ofAccounts : List AccountInfo → Except ProgramError UpdateBalance
  | stakePool :: withdraw :: validatorList :: reserveStake :: managerFee :: poolMint
      :: tokenProgram :: _ =>
      .ok { stakePool, withdraw, validatorList, reserveStake, managerFee, poolMint, tokenProgram }
  | _ => .error .notEnoughAccountKeys

/-- The reserve above its minimum. -/
def reserveLamports (rt : WithdrawRuntime) (reserveStake : AccountInfo) :
    Except ProgramError Nat := do
  let state ← rt.stakeStateV2 reserveStake.data
  match state with
  | .initialized info =>
      calculated (checkedSub reserveStake.lamports (minimumReserveLamports info))
  | _ => .error StakePoolError.wrongStakeStake.into

/-- The lamports of the validators, added up. -/
def addStake (epoch : Nat) : List ValidatorRecord → Nat → Except ProgramError Nat
  | [], totalLamports => .ok totalLamports
  | v :: validators, totalLamports => do
      require (epoch ≤ v.lastUpdateEpoch) StakePoolError.stakeListOutOfDate.into
      let stake ← calculated (checkedAdd 64 v.activeStakeLamports v.transientStakeLamports)
      let totalLamports ← calculated (checkedAdd 64 totalLamports stake)
      addStake epoch validators totalLamports

/-- The fee of the manager on the rewards. -/
def epochFee (rt : WithdrawRuntime) (pool : PoolAccount) (managerFee : AccountInfo)
    (rewardLamports : Nat) : Except ProgramError Nat :=
  if (pool.checkManagerFeeInfo rt managerFee).isOk = true then
    calculated (pool.calcEpochFeeAmount rewardLamports)
  else .ok 0

/-- The mint of the fee, and the supply after it. -/
def mintEpochFee (rt : WithdrawRuntime) (ctx : UpdateBalance) (fee supply : Nat) :
    Except ProgramError Nat :=
  if 0 < fee then do
    rt.tokenMintTo ctx.poolMint.key ctx.managerFee.key ctx.withdraw.key fee
    okOr (checkedAdd 64 supply fee) tokenOverflow
  else .ok supply

/-- What changes with the epoch. -/
def PoolAccount.nextEpoch (pool : PoolAccount) (epoch : Nat) : PoolAccount :=
  if pool.lastUpdateEpoch < epoch then
    { pool with
      epochFee := pool.nextEpochFee.get.getD pool.epochFee
      nextEpochFee := pool.nextEpochFee.updateEpoch
      stakeWithdrawalFee := pool.nextStakeWithdrawalFee.get.getD pool.stakeWithdrawalFee
      nextStakeWithdrawalFee := pool.nextStakeWithdrawalFee.updateEpoch
      solWithdrawalFee := pool.nextSolWithdrawalFee.get.getD pool.solWithdrawalFee
      nextSolWithdrawalFee := pool.nextSolWithdrawalFee.updateEpoch
      lastUpdateEpoch := epoch
      lastEpochTotalLamports := pool.totalLamports
      lastEpochPoolTokenSupply := pool.poolTokenSupply }
  else pool

/-- `process_update_stake_pool_balance`: the pool and the supply of its mint afterwards. -/
def processUpdateStakePoolBalance (rt : WithdrawRuntime) (accounts : List AccountInfo)
    (supply : Nat) : Except ProgramError (PoolAccount × Nat) := do
  let ctx ← UpdateBalance.ofAccounts accounts
  let pool ← loadPoolAccount rt ctx.stakePool
  let _ ← pool.checkMint rt.toPoolRuntime ctx.poolMint
  pool.checkAuthorityWithdraw rt.toPoolRuntime ctx.withdraw.key ctx.stakePool.key
  pool.checkReserveStake ctx.reserveStake
  require (pool.managerFeeAccount = ctx.managerFee.key) StakePoolError.invalidFeeAccount.into
  require (ctx.validatorList.key = pool.validatorList)
    StakePoolError.invalidValidatorStakeList.into
  require (pool.tokenProgramId = ctx.tokenProgram.key) .incorrectProgramId
  checkAccountOwner ctx.validatorList rt.programId
  let (header, validators) ← rt.validatorRecords ctx.validatorList.data
  require (header = .validatorList) StakePoolError.invalidState.into
  let reserve ← reserveLamports rt ctx.reserveStake
  let totalLamports ← addStake rt.epoch validators reserve
  let fee ← epochFee rt pool ctx.managerFee (totalLamports - pool.totalLamports)
  let supply ← mintEpochFee rt ctx fee supply
  .ok ({ pool.nextEpoch rt.epoch with totalLamports, poolTokenSupply := supply }, supply)

end Albus.Integration
