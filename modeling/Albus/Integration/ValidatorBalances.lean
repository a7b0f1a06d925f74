import Albus.Lib.Redistribution
import Albus.Lib.Run
import Albus.Integration.BigVec
import Albus.Integration.StakePoolWithdrawals

/-! # The balances of the validators

    `programs/albus-stake-pool`: `UpdateValidatorListBalance` looks at the two stake accounts
    of a slice of the validators, moves to the reserve what is not at work any more and notes
    down the rest; `UpdateStakePoolBalance` adds up what is noted down.  The merges and the
    withdrawals of the stake program are parameters. -/

namespace Albus.Integration

open Albus.Lib Albus.Program

/-! ## Stake accounts -/

structure Lockup where
  unixTimestamp : Int
  epoch : Nat
  custodian : Pubkey
  deriving DecidableEq

/-- `Meta`, with what says who can move the stake. -/
structure StakeMeta extends Meta where
  staker : Pubkey
  withdrawer : Pubkey
  lockup : Lockup

/-- `Stake`, with the epochs of its delegation. -/
structure StakeDelegation extends Stake where
  activationEpoch : Nat
  deactivationEpoch : Nat

/-- `StakeStateV2`, with all that the update reads. -/
inductive StakeState where
  | uninitialized
  | initialized (info : StakeMeta)
  | stake (info : StakeMeta) (stake : StakeDelegation)
  | rewardsPool

structure StakeAccount where
  lamports : Nat
  /-- `try_from_slice_unchecked::<StakeStateV2>(..).ok()` -/
  state : Option StakeState

/-- The accounts the stake program moves lamports between. -/
abbrev Bank := Pubkey → StakeAccount

/-- What the update runs on. -/
structure UpdateRuntime extends WithdrawRuntime where
  /-- The lockup of a pool. -/
  lockup : List UInt8 → Lockup
  /-- `stake_merge` -/
  merge : (source destination authority : Pubkey) → Bank → Except ProgramError Bank
  /-- `stake_withdraw` -/
  withdraw : (source destination authority : Pubkey) → (lamports : Nat) → Bank →
    Except ProgramError Bank

/-- `stake_is_usable_by_pool` -/
def stakeIsUsableByPool (info : StakeMeta) (expectedAuthority : Pubkey)
    (expectedLockup : Lockup) : Bool :=
  info.staker = expectedAuthority ∧ info.withdrawer = expectedAuthority ∧
    info.lockup = expectedLockup

/-- `stake_is_inactive_without_history` -/
def stakeIsInactiveWithoutHistory (stake : StakeDelegation) (epoch : Nat) : Bool :=
  stake.deactivationEpoch < epoch ∨
    (stake.activationEpoch = epoch ∧ stake.deactivationEpoch = epoch)

/-- `remove_validator_stake` -/
def StakeStatus.removeValidatorStake : StakeStatus → StakeStatus
  | .deactivatingAll => .deactivatingTransient
  | .deactivatingValidator => .readyForRemoval
  | status => status

/-- `remove_transient_stake` -/
def StakeStatus.removeTransientStake : StakeStatus → StakeStatus
  | .deactivatingAll => .deactivatingValidator
  | .deactivatingTransient => .readyForRemoval
  | status => status

/-! ## One validator -/

/-- What is the same for all validators of an update. -/
structure UpdateScope where
  stakePool : Pubkey
  withdrawAuthority : Pubkey
  reserveStake : Pubkey
  lockup : Lockup
  epoch : Nat
  noMerge : Bool

/-- The stake account and the transient stake account of a validator. -/
structure StakePair where
  validatorStake : Pubkey
  transientStake : Pubkey

/-- What is noted down for an account, and what has changed until then. -/
structure Settled where
  lamports : Nat
  status : StakeStatus
  bank : Bank

namespace UpdateScope

variable (rt : UpdateRuntime) (scope : UpdateScope)

def usable (info : StakeMeta) : Bool :=
  stakeIsUsableByPool info scope.withdrawAuthority scope.lockup

/-- The merge into the reserve. -/
def absorb (source : Pubkey) (status : StakeStatus) (bank : Bank) :
    Except ProgramError Settled := do
  let bank ← rt.merge source scope.reserveStake scope.withdrawAuthority bank
  .ok { lamports := 0, status, bank }

/-- The transient stake: inactive stake goes to the reserve, active stake to the validator's. -/
def settleTransient (pair : StakePair) (status : StakeStatus) (bank : Bank) :
    Except ProgramError Settled :=
  let counted := { lamports := (bank pair.transientStake).lamports, status, bank }
  match (bank pair.transientStake).state with
  | some (.initialized info) =>
      if scope.usable info then
        if scope.noMerge then .ok counted
        else scope.absorb rt pair.transientStake status.removeTransientStake bank
      else .ok { lamports := 0, status, bank }
  | some (.stake info stake) =>
      if scope.usable info then
        if scope.noMerge then .ok counted
        else if stakeIsInactiveWithoutHistory stake scope.epoch then
          scope.absorb rt pair.transientStake status.removeTransientStake bank
        else if stake.activationEpoch < scope.epoch then
          match (bank pair.validatorStake).state with
          | some (.stake _ validatorStake) =>
              if validatorStake.activationEpoch < scope.epoch then do
                let bank ← rt.merge pair.transientStake pair.validatorStake
                  scope.withdrawAuthority bank
                .ok { lamports := 0, status, bank }
              else .ok counted
          | _ => .ok counted
        else .ok counted
      else .ok { lamports := 0, status, bank }
  | _ => .ok { lamports := 0, status, bank }

/-- What a validator's stake account holds beyond its stake goes to the reserve. -/
def withdrawAdditional (validatorStake : Pubkey) (info : StakeMeta) (stake : StakeDelegation)
    (bank : Bank) : Except ProgramError Bank :=
  let additionalLamports :=
    (bank validatorStake).lamports - stake.stake - info.rentExemptReserve
  if 0 < additionalLamports ∧ scope.usable info = true then
    rt.withdraw validatorStake scope.reserveStake scope.withdrawAuthority additionalLamports bank
  else .ok bank

/-- The validator's stake: only an active one stays, with what it holds. -/
def settleValidator (pair : StakePair) (status : StakeStatus) (bank : Bank) :
    Except ProgramError Settled :=
  match (bank pair.validatorStake).state with
  | some (.stake info stake) => do
      let bank ← scope.withdrawAdditional rt pair.validatorStake info stake bank
      let counted := { lamports := (bank pair.validatorStake).lamports, status, bank }
      match status with
      | .active => .ok counted
      | .deactivatingValidator | .deactivatingAll =>
          if scope.noMerge then .ok counted
          else if scope.usable info = true ∧
              stakeIsInactiveWithoutHistory stake scope.epoch = true then
            scope.absorb rt pair.validatorStake status.removeValidatorStake bank
          else .ok { lamports := 0, status, bank }
      | .deactivatingTransient | .readyForRemoval => .ok { lamports := 0, status, bank }
  | some (.initialized info) =>
      if scope.usable info then
        scope.absorb rt pair.validatorStake status.removeValidatorStake bank
      else .ok { lamports := 0, status, bank }
  | _ => .ok { lamports := 0, status, bank }

/-- The accounts are those of the validator. -/
def checkPair (validator : ValidatorRecord) (pair : StakePair) : Bool :=
  (checkValidatorStakeAddress rt.toWithdrawRuntime scope.stakePool pair.validatorStake
    validator.voteAccountAddress validator.validatorSeedSuffix).isOk &&
  (checkTransientStakeAddress rt.toWithdrawRuntime scope.stakePool pair.transientStake
    validator.voteAccountAddress validator.transientSeedSuffix).isOk

/-- A round of the loop: a validator that came with other accounts is left out. -/
def updateValidator (entry : ValidatorRecord × StakePair) (bank : Bank) :
    Except ProgramError (ValidatorRecord × Bank) :=
  let (validator, pair) := entry
  if scope.checkPair rt validator pair then do
    let transient ← scope.settleTransient rt pair validator.status bank
    let active ← scope.settleValidator rt pair transient.status transient.bank
    .ok
      ({ validator with
          activeStakeLamports := active.lamports
          transientStakeLamports := transient.lamports
          status := active.status
          lastUpdateEpoch := scope.epoch },
        active.bank)
  else .ok (validator, bank)

end UpdateScope

/-! ## UpdateValidatorListBalance -/

/-- The accounts of `UpdateValidatorListBalance`. -/
structure UpdateListBalance where
  stakePool : AccountInfo
  withdrawAuthority : AccountInfo
  validatorList : AccountInfo
  reserveStake : AccountInfo
  /-- The epoch of the clock account. -/
  clockEpoch : Nat
  stakeProgram : AccountInfo
  validatorStakeAccounts : List AccountInfo

def UpdateListBalance.ofAccounts (rt : UpdateRuntime) :
    List AccountInfo → Except ProgramError UpdateListBalance
  | stakePool :: withdrawAuthority :: validatorList :: reserveStake :: clock :: rest => do
      let clockEpoch ← rt.clockEpoch clock
      match rest with
      | _stakeHistory :: stakeProgram :: validatorStakeAccounts =>
          .ok
            { stakePool, withdrawAuthority, validatorList, reserveStake, clockEpoch
              stakeProgram, validatorStakeAccounts }
      | _ => .error .notEnoughAccountKeys
  | _ => .error .notEnoughAccountKeys

/-- `chunks_exact(2)` -/
def stakePairs : List AccountInfo → List StakePair
  | validatorStake :: transientStake :: rest =>
      { validatorStake := validatorStake.key, transientStake := transientStake.key }
        :: stakePairs rest
  | _ => []

/-- The validator list of a pool, and the accounts that hold lamports. -/
structure ListedStake where
  header : AccountType
  validators : List ValidatorRecord
  bank : Bank

/-- What the update fails with. -/
inductive UpdateError where
  | program (e : ProgramError)
  | vector (e : BigVecError)
  deriving DecidableEq

def liftProgram {α : Type} : Except ProgramError α → Except UpdateError α
  | .ok a => .ok a
  | .error e => .error (.program e)

/-- The scope of an update, from its accounts. -/
def updateScope (rt : UpdateRuntime) (accounts : List AccountInfo) (noMerge : Bool) :
    Except ProgramError (UpdateScope × List StakePair) := do
  let ctx ← UpdateListBalance.ofAccounts rt accounts
  let pool ← loadPoolAccount rt.toWithdrawRuntime ctx.stakePool
  pool.checkValidatorList ctx.validatorList
  pool.checkAuthorityWithdraw rt.toPoolRuntime ctx.withdrawAuthority.key ctx.stakePool.key
  pool.checkReserveStake ctx.reserveStake
  require (ctx.stakeProgram.key = stakeProgramId) .incorrectProgramId
  require (ctx.validatorStakeAccounts.length % 2 = 0)
    StakePoolError.unexpectedValidatorListAccountSize.into
  checkAccountOwner ctx.validatorList rt.programId
  .ok
    ({ stakePool := ctx.stakePool.key
       withdrawAuthority := ctx.withdrawAuthority.key
       reserveStake := ctx.reserveStake.key
       lockup := rt.lockup ctx.stakePool.data
       epoch := ctx.clockEpoch
       noMerge },
      stakePairs ctx.validatorStakeAccounts)

/-- `process_update_validator_list_balance`: the list and the accounts afterwards. -/
def processUpdateValidatorListBalance (rt : UpdateRuntime) (accounts : List AccountInfo)
    (startIndex : Nat) (noMerge : Bool) (s : ListedStake) : Except UpdateError ListedStake := do
  let (scope, pairs) ← liftProgram (updateScope rt accounts noMerge)
  if s.validators.length < startIndex + pairs.length then .error (.vector .accountDataTooSmall)
  else do
    liftProgram (require (s.header = .validatorList) StakePoolError.invalidState.into)
    let slice := (s.validators.drop startIndex).take pairs.length
    let (updated, bank) ← liftProgram (sweep (scope.updateValidator rt) (slice.zip pairs) s.bank)
    .ok
      { s with
        validators := s.validators.take startIndex ++ updated
          ++ s.validators.drop (startIndex + pairs.length)
        bank }

/-! ## What the stake program promises -/

/-- The stake account is delegated. -/
def StakeAccount.IsStake (acc : StakeAccount) : Prop :=
  ∃ info stake, acc.state = some (.stake info stake)

/-- A merge closes its source. -/
structure MergedInto (source destination : Pubkey) (bank bank' : Bank) : Prop where
  ne : source ≠ destination
  drained : (bank' source).lamports = 0
  closed : (bank' source).state = some .uninitialized
  received :
    (bank' destination).lamports = (bank destination).lamports + (bank source).lamports
  isStake : (bank destination).IsStake → (bank' destination).IsStake
  frame : ∀ k, k ≠ source → k ≠ destination → bank' k = bank k

/-- A withdrawal leaves its source as it is, or closes it when nothing is left. -/
structure TakenOut (source destination : Pubkey) (lamports : Nat) (bank bank' : Bank) :
    Prop where
  taken : (bank' source).lamports + lamports = (bank source).lamports
  received : (bank' destination).lamports = (bank destination).lamports + lamports
  state : (bank' source).state = (bank source).state ∨
    ((bank' source).lamports = 0 ∧ (bank' source).state = some .uninitialized)
  frame : ∀ k, k ≠ source → k ≠ destination → bank' k = bank k

/-- What the two calls do when they succeed. -/
structure UpdateRuntime.Lawful (rt : UpdateRuntime) : Prop where
  merged : ∀ {source destination authority : Pubkey} {bank bank' : Bank},
    rt.merge source destination authority bank = .ok bank' →
      MergedInto source destination bank bank'
  withdrawn : ∀ {source destination authority : Pubkey} {lamports : Nat} {bank bank' : Bank},
    source ≠ destination →
      rt.withdraw source destination authority lamports bank = .ok bank' →
        TakenOut source destination lamports bank bank'

theorem MergedInto.redistributes {source destination : Pubkey} {bank bank' : Bank}
    (h : MergedInto source destination bank bank') :
    Redistributes StakeAccount.lamports [source, destination] bank bank' :=
  Redistributes.move (by rw [h.drained, Nat.zero_add]) h.received h.frame

theorem TakenOut.redistributes {source destination : Pubkey} {lamports : Nat}
    {bank bank' : Bank} (h : TakenOut source destination lamports bank bank') :
    Redistributes StakeAccount.lamports [source, destination] bank bank' :=
  Redistributes.move h.taken h.received h.frame

/-! ## What is done with an account -/

namespace UpdateScope

variable {rt : UpdateRuntime} {scope : UpdateScope}

/-- A stake account that the pool can move. -/
def Usable (scope : UpdateScope) (acc : StakeAccount) : Prop :=
  ∃ info, scope.usable info = true ∧
    (acc.state = some (.initialized info) ∨ ∃ stake, acc.state = some (.stake info stake))

theorem absorb_ok {source : Pubkey} {status : StakeStatus} {bank : Bank} {result : Settled}
    (h : scope.absorb rt source status bank = .ok result) :
    ∃ bank', rt.merge source scope.reserveStake scope.withdrawAuthority bank = .ok bank' ∧
      result = { lamports := 0, status, bank := bank' } := by
  obtain ⟨bank', hmerge, h⟩ := bind_ok h
  exact ⟨bank', hmerge, (Except.ok.inj h).symm⟩

/-- **THE TRANSIENT STAKE** of another authority is ignored; that of the pool is noted down, or
    goes to the reserve, or to a delegated stake account. -/
theorem settleTransient_ok {pair : StakePair} {status : StakeStatus} {bank : Bank}
    {result : Settled} (h : scope.settleTransient rt pair status bank = .ok result) :
    (¬scope.Usable (bank pair.transientStake) ∧
      result = { lamports := 0, status, bank }) ∨
    (scope.Usable (bank pair.transientStake) ∧
      result = { lamports := (bank pair.transientStake).lamports, status, bank }) ∨
    (∃ bank', rt.merge pair.transientStake scope.reserveStake scope.withdrawAuthority bank
        = .ok bank' ∧
      result = { lamports := 0, status := status.removeTransientStake, bank := bank' }) ∨
    ((bank pair.validatorStake).IsStake ∧ ∃ bank',
      rt.merge pair.transientStake pair.validatorStake scope.withdrawAuthority bank
        = .ok bank' ∧
      result = { lamports := 0, status, bank := bank' }) := by
  unfold settleTransient at h
  split at h
  · rename_i info hstate
    by_cases husable : scope.usable info = true
    · rw [if_pos husable] at h
      split at h
      · exact .inr (.inl ⟨⟨info, husable, .inl hstate⟩, (Except.ok.inj h).symm⟩)
      · exact .inr (.inr (.inl (absorb_ok h)))
    · rw [if_neg husable] at h
      refine .inl ⟨?_, (Except.ok.inj h).symm⟩
      rintro ⟨info', husable', hstate' | ⟨stake, hstate'⟩⟩
      · cases hstate.symm.trans hstate'
        exact husable husable'
      · exact nomatch hstate.symm.trans hstate'
  · rename_i info stake hstate
    by_cases husable : scope.usable info = true
    · have hcounted : scope.Usable (bank pair.transientStake) :=
        ⟨info, husable, .inr ⟨stake, hstate⟩⟩
      rw [if_pos husable] at h
      split at h
      · exact .inr (.inl ⟨hcounted, (Except.ok.inj h).symm⟩)
      split at h
      · exact .inr (.inr (.inl (absorb_ok h)))
      split at h
      · split at h
        · rename_i validatorInfo validatorStake hvalidator
          split at h
          · obtain ⟨bank', hmerge, h⟩ := bind_ok h
            exact .inr (.inr (.inr ⟨⟨validatorInfo, validatorStake, hvalidator⟩, bank', hmerge,
              (Except.ok.inj h).symm⟩))
          · exact .inr (.inl ⟨hcounted, (Except.ok.inj h).symm⟩)
        · exact .inr (.inl ⟨hcounted, (Except.ok.inj h).symm⟩)
      · exact .inr (.inl ⟨hcounted, (Except.ok.inj h).symm⟩)
    · rw [if_neg husable] at h
      refine .inl ⟨?_, (Except.ok.inj h).symm⟩
      rintro ⟨info', husable', hstate' | ⟨stake', hstate'⟩⟩
      · exact nomatch hstate.symm.trans hstate'
      · cases hstate.symm.trans hstate'
        exact husable husable'
  · rename_i hinitialized hstake
    refine .inl ⟨?_, (Except.ok.inj h).symm⟩
    rintro ⟨info, -, hstate | ⟨stake, hstate⟩⟩
    · exact hinitialized info hstate
    · exact hstake info stake hstate

theorem withdrawAdditional_ok (hlaw : rt.Lawful) {validatorStake : Pubkey} {info : StakeMeta}
    {stake : StakeDelegation} {bank bank' : Bank} (hne : validatorStake ≠ scope.reserveStake)
    (h : scope.withdrawAdditional rt validatorStake info stake bank = .ok bank') :
    bank' = bank ∨
      ∃ lamports, TakenOut validatorStake scope.reserveStake lamports bank bank' := by
  unfold withdrawAdditional at h
  dsimp only at h
  split at h
  · exact .inr ⟨_, hlaw.withdrawn hne h⟩
  · exact .inl (Except.ok.inj h).symm

/-- **THE VALIDATOR'S STAKE**, after the withdrawal, is noted down if the validator is active;
    otherwise it is noted down, left out, or goes to the reserve. -/
theorem settleValidator_ok {pair : StakePair} {status : StakeStatus} {bank : Bank}
    {result : Settled} (h : scope.settleValidator rt pair status bank = .ok result) :
    (¬(bank pair.validatorStake).IsStake ∧ ¬scope.Usable (bank pair.validatorStake) ∧
      result = { lamports := 0, status, bank }) ∨
    (¬(bank pair.validatorStake).IsStake ∧ ∃ bank',
      rt.merge pair.validatorStake scope.reserveStake scope.withdrawAuthority bank = .ok bank' ∧
      result = { lamports := 0, status := status.removeValidatorStake, bank := bank' }) ∨
    (∃ info stake bank',
      scope.withdrawAdditional rt pair.validatorStake info stake bank = .ok bank' ∧
      (bank pair.validatorStake).IsStake ∧
      (result = { lamports := (bank' pair.validatorStake).lamports, status, bank := bank' } ∨
        (status ≠ .active ∧ result = { lamports := 0, status, bank := bank' }) ∨
        (∃ bank'', rt.merge pair.validatorStake scope.reserveStake scope.withdrawAuthority bank'
            = .ok bank'' ∧
          result = { lamports := 0, status := status.removeValidatorStake, bank := bank'' }))) := by
  unfold settleValidator at h
  split at h
  · rename_i info stake hstate
    obtain ⟨bank', hwithdraw, h⟩ := bind_ok h
    refine .inr (.inr ⟨info, stake, bank', hwithdraw, ⟨info, stake, hstate⟩, ?_⟩)
    split at h
    · exact .inl (Except.ok.inj h).symm
    all_goals try exact .inr (.inl ⟨nofun, (Except.ok.inj h).symm⟩)
    all_goals
      split at h
      · exact .inl (Except.ok.inj h).symm
      split at h
      · exact .inr (.inr (absorb_ok h))
      · exact .inr (.inl ⟨nofun, (Except.ok.inj h).symm⟩)
  · rename_i info hstate
    have hstake : ¬(bank pair.validatorStake).IsStake := by
      rintro ⟨info', stake, hstate'⟩
      exact nomatch hstate.symm.trans hstate'
    by_cases husable : scope.usable info = true
    · rw [if_pos husable] at h
      exact .inr (.inl ⟨hstake, absorb_ok h⟩)
    · rw [if_neg husable] at h
      refine .inl ⟨hstake, ?_, (Except.ok.inj h).symm⟩
      rintro ⟨info', husable', hstate' | ⟨stake, hstate'⟩⟩
      · cases hstate.symm.trans hstate'
        exact husable husable'
      · exact nomatch hstate.symm.trans hstate'
  · rename_i hstake hinitialized
    refine .inl ⟨?_, ?_, (Except.ok.inj h).symm⟩
    · rintro ⟨info, stake, hstate⟩
      exact hstake info stake hstate
    · rintro ⟨info, -, hstate | ⟨stake, hstate⟩⟩
      · exact hinitialized info hstate
      · exact hstake info stake hstate

end UpdateScope

end Albus.Integration
