import Albus.Integration.StakePoolShares
import Albus.Integration.ValidatorBalances

/-! # What the pool's balance counts

    Every update of the validator balances moves lamports between the reserve and the two
    accounts of each validator it treats, and notes down no more than these two accounts hold
    afterwards.  So however the list is cut into updates, the total that
    `UpdateStakePoolBalance` adds up is backed; and where every account is one that the
    update knows what to do with, nothing is left out. -/

namespace Albus.Integration

open Albus.Lib Albus.Program

/-! ## The accounts of a validator -/

/-- `find_stake_program_address` -/
def validatorStakeAddress (rt : WithdrawRuntime) (stakePool : Pubkey)
    (validator : ValidatorRecord) : Pubkey :=
  let seed := if validator.validatorSeedSuffix = 0 then []
    else leBytes 4 validator.validatorSeedSuffix.toNat
  (rt.findProgramAddress
    [validator.voteAccountAddress.toList, stakePool.toList, seed] rt.programId).1

/-- `find_transient_stake_program_address` -/
def transientStakeAddress (rt : WithdrawRuntime) (stakePool : Pubkey)
    (validator : ValidatorRecord) : Pubkey :=
  (rt.findProgramAddress
    [transientStakeSeedPrefix, validator.voteAccountAddress.toList, stakePool.toList,
      leBytes 8 validator.transientSeedSuffix] rt.programId).1

def ownPair (rt : WithdrawRuntime) (stakePool : Pubkey) (validator : ValidatorRecord) :
    StakePair where
  validatorStake := validatorStakeAddress rt stakePool validator
  transientStake := transientStakeAddress rt stakePool validator

def ownAccounts (rt : WithdrawRuntime) (stakePool : Pubkey) (validator : ValidatorRecord) :
    List Pubkey :=
  [validatorStakeAddress rt stakePool validator, transientStakeAddress rt stakePool validator]

theorem of_isOk_require {cond : Prop} [Decidable cond] {e : ProgramError}
    (h : (require cond e).isOk = true) : cond := by
  obtain ⟨u, hu⟩ := exists_ok h
  exact require_ok hu

namespace UpdateScope

variable {rt : UpdateRuntime} {scope : UpdateScope}

/-- The pair that is let through is the validator's own. -/
theorem eq_ownPair {validator : ValidatorRecord} {pair : StakePair}
    (h : scope.checkPair rt validator pair = true) :
    pair = ownPair rt.toWithdrawRuntime scope.stakePool validator := by
  obtain ⟨hvalidator, htransient⟩ := Bool.and_eq_true_iff.mp h
  have h1 := of_isOk_require hvalidator
  have h2 := of_isOk_require htransient
  cases pair with
  | mk validatorStake transientStake =>
      rw [ownPair, StakePair.mk.injEq]
      exact ⟨h1.symm, h2.symm⟩

/-! ## Accounts that the update knows what to do with -/

/-- A transient stake account is the pool's, or empty. -/
def SoundTransient (scope : UpdateScope) (acc : StakeAccount) : Prop :=
  acc.lamports = 0 ∨ scope.Usable acc

/-- A validator's stake account is delegated for an active validator, or the pool's to absorb,
    or empty. -/
def SoundValidator (scope : UpdateScope) (status : StakeStatus) (acc : StakeAccount) : Prop :=
  (acc.IsStake ∧ status = .active) ∨
    (¬acc.IsStake ∧ (acc.lamports = 0 ∨ scope.Usable acc))

theorem not_isStake_of_closed {acc : StakeAccount} (h : acc.state = some .uninitialized) :
    ¬acc.IsStake := by
  rintro ⟨info, stake, hstate⟩
  exact nomatch h.symm.trans hstate

/-- An empty account that is closed is sound, whatever the status. -/
theorem soundValidator_of_closed {status : StakeStatus} {acc : StakeAccount}
    (hlamports : acc.lamports = 0) (hstate : acc.state = some .uninitialized) :
    scope.SoundValidator status acc :=
  .inr ⟨not_isStake_of_closed hstate, .inl hlamports⟩

theorem SoundValidator.active {status : StakeStatus} {acc : StakeAccount}
    (h : scope.SoundValidator status acc) (hstake : acc.IsStake) : status = .active := by
  rcases h with ⟨-, hactive⟩ | ⟨hnot, -⟩
  · exact hactive
  · exact absurd hstake hnot

/-- Removing the transient stake leaves an active validator active. -/
theorem SoundValidator.removeTransientStake {status : StakeStatus} {acc : StakeAccount}
    (h : scope.SoundValidator status acc) :
    scope.SoundValidator status.removeTransientStake acc := by
  rcases h with ⟨hstake, rfl⟩ | hnot
  · exact .inl ⟨hstake, rfl⟩
  · exact .inr hnot

/-! ## What the two parts of a round leave -/

/-- What a part of a round did with an account: the lamports stay in these places, and what is
    noted down is there. -/
structure Noting (places : List Pubkey) (account : Pubkey) (bank : Bank) (result : Settled) :
    Prop where
  moves : Redistributes StakeAccount.lamports places bank result.bank
  noted_le : result.lamports ≤ (result.bank account).lamports

variable {pair : StakePair} {status : StakeStatus} {bank : Bank} {result : Settled}

theorem noting_settleTransient (hlaw : rt.Lawful)
    (hdistinct : [scope.reserveStake, pair.validatorStake, pair.transientStake].Nodup)
    (h : scope.settleTransient rt pair status bank = .ok result) :
    Noting [scope.reserveStake, pair.validatorStake, pair.transientStake]
      pair.transientStake bank result := by
  rcases settleTransient_ok h with ⟨-, rfl⟩ | ⟨-, rfl⟩ | ⟨bank', hmerge, rfl⟩ |
    ⟨-, bank', hmerge, rfl⟩
  · exact ⟨Redistributes.refl _ _, Nat.zero_le _⟩
  · exact ⟨Redistributes.refl _ _, Nat.le_refl _⟩
  · have hmerged := hlaw.merged hmerge
    refine ⟨hmerged.redistributes.mono ?_ hdistinct ?_, Nat.zero_le _⟩
    · simp [hmerged.ne]
    · simp
  · have hmerged := hlaw.merged hmerge
    refine ⟨hmerged.redistributes.mono ?_ hdistinct ?_, Nat.zero_le _⟩
    · simp [hmerged.ne]
    · simp

/-- **NOTHING OF A SOUND TRANSIENT STAKE** is left out, and the validator's stake stays
    sound. -/
theorem exact_settleTransient (hlaw : rt.Lawful)
    (hdistinct : [scope.reserveStake, pair.validatorStake, pair.transientStake].Nodup)
    (h : scope.settleTransient rt pair status bank = .ok result)
    (htransient : scope.SoundTransient (bank pair.transientStake))
    (hvalidator : scope.SoundValidator status (bank pair.validatorStake)) :
    result.lamports = (result.bank pair.transientStake).lamports ∧
      scope.SoundTransient (result.bank pair.transientStake) ∧
      scope.SoundValidator result.status (result.bank pair.validatorStake) := by
  simp only [List.nodup_cons, List.mem_cons, List.not_mem_nil, or_false, not_or] at hdistinct
  obtain ⟨⟨hreserveValidator, -⟩, hpair, -⟩ := hdistinct
  rcases settleTransient_ok h with ⟨hignored, rfl⟩ | ⟨-, rfl⟩ | ⟨bank', hmerge, rfl⟩ |
    ⟨hstake, bank', hmerge, rfl⟩
  · exact ⟨(htransient.resolve_right hignored).symm, htransient, hvalidator⟩
  · exact ⟨rfl, htransient, hvalidator⟩
  · have hmerged := hlaw.merged hmerge
    have hkept := hmerged.frame _ hpair (Ne.symm hreserveValidator)
    refine ⟨hmerged.drained.symm, .inl hmerged.drained, ?_⟩
    show scope.SoundValidator _ (bank' pair.validatorStake)
    rw [hkept]
    exact hvalidator.removeTransientStake
  · have hmerged := hlaw.merged hmerge
    exact ⟨hmerged.drained.symm, .inl hmerged.drained,
      .inl ⟨hmerged.isStake hstake, hvalidator.active hstake⟩⟩

theorem redistributes_withdrawAdditional (hlaw : rt.Lawful) {validatorStake : Pubkey}
    {info : StakeMeta} {stake : StakeDelegation} {bank' : Bank}
    (hne : validatorStake ≠ scope.reserveStake)
    (h : scope.withdrawAdditional rt validatorStake info stake bank = .ok bank') :
    Redistributes StakeAccount.lamports [validatorStake, scope.reserveStake] bank bank' := by
  rcases withdrawAdditional_ok hlaw hne h with rfl | ⟨lamports, htaken⟩
  · exact Redistributes.refl _ _
  · exact htaken.redistributes

theorem noting_settleValidator (hlaw : rt.Lawful)
    (hne : pair.validatorStake ≠ scope.reserveStake)
    (h : scope.settleValidator rt pair status bank = .ok result) :
    Noting [pair.validatorStake, scope.reserveStake] pair.validatorStake bank result := by
  rcases settleValidator_ok h with ⟨-, -, rfl⟩ | ⟨-, bank', hmerge, rfl⟩ |
    ⟨info, stake, bank', hwithdraw, -, hresult⟩
  · exact ⟨Redistributes.refl _ _, Nat.zero_le _⟩
  · exact ⟨(hlaw.merged hmerge).redistributes, Nat.zero_le _⟩
  · have hmoves := redistributes_withdrawAdditional hlaw hne hwithdraw
    rcases hresult with rfl | ⟨-, rfl⟩ | ⟨bank'', hmerge, rfl⟩
    · exact ⟨hmoves, Nat.le_refl _⟩
    · exact ⟨hmoves, Nat.zero_le _⟩
    · exact ⟨hmoves.trans (hlaw.merged hmerge).redistributes, Nat.zero_le _⟩

/-- A withdrawal leaves a validator's stake account sound. -/
theorem soundValidator_withdrawAdditional (hlaw : rt.Lawful) {validatorStake : Pubkey}
    {info : StakeMeta} {stake : StakeDelegation} {bank' : Bank}
    (hne : validatorStake ≠ scope.reserveStake)
    (h : scope.withdrawAdditional rt validatorStake info stake bank = .ok bank')
    (hstake : (bank validatorStake).IsStake) :
    scope.SoundValidator .active (bank' validatorStake) := by
  rcases withdrawAdditional_ok hlaw hne h with rfl | ⟨lamports, htaken⟩
  · exact .inl ⟨hstake, rfl⟩
  · rcases htaken.state with hsame | ⟨hempty, hclosed⟩
    · obtain ⟨info', stake', hstate⟩ := hstake
      exact .inl ⟨⟨info', stake', hsame.trans hstate⟩, rfl⟩
    · exact soundValidator_of_closed hempty hclosed

/-- **NOTHING OF A SOUND VALIDATOR'S STAKE** is left out. -/
theorem exact_settleValidator (hlaw : rt.Lawful)
    (hne : pair.validatorStake ≠ scope.reserveStake)
    (h : scope.settleValidator rt pair status bank = .ok result)
    (hvalidator : scope.SoundValidator status (bank pair.validatorStake)) :
    result.lamports = (result.bank pair.validatorStake).lamports ∧
      scope.SoundValidator result.status (result.bank pair.validatorStake) := by
  rcases settleValidator_ok h with ⟨hnot, hignored, rfl⟩ | ⟨hnot, bank', hmerge, rfl⟩ |
    ⟨info, stake, bank', hwithdraw, hstake, hresult⟩
  · rcases hvalidator with ⟨hstake, -⟩ | ⟨-, hempty⟩
    · exact absurd hstake hnot
    · have hempty' := hempty.resolve_right hignored
      exact ⟨hempty'.symm, .inr ⟨hnot, .inl hempty'⟩⟩
  · have hmerged := hlaw.merged hmerge
    exact ⟨hmerged.drained.symm, soundValidator_of_closed hmerged.drained hmerged.closed⟩
  · have hactive := hvalidator.active hstake
    rcases hresult with rfl | ⟨hother, rfl⟩ | ⟨bank'', hmerge, rfl⟩
    · refine ⟨rfl, ?_⟩
      show scope.SoundValidator status _
      rw [hactive]
      exact soundValidator_withdrawAdditional hlaw hne hwithdraw hstake
    · exact absurd hactive hother
    · have hmerged := hlaw.merged hmerge
      exact ⟨hmerged.drained.symm, soundValidator_of_closed hmerged.drained hmerged.closed⟩

/-! ## A round -/

/-- Both accounts of a validator are sound. -/
def SoundPair (scope : UpdateScope) (own : StakePair) (status : StakeStatus) (bank : Bank) :
    Prop :=
  scope.SoundTransient (bank own.transientStake) ∧
    scope.SoundValidator status (bank own.validatorStake)

/-- A validator has noted down no more than its accounts hold. -/
def NotesAtMost (own : StakePair) (validator : ValidatorRecord) (bank : Bank) : Prop :=
  validator.activeStakeLamports ≤ (bank own.validatorStake).lamports ∧
    validator.transientStakeLamports ≤ (bank own.transientStake).lamports

/-- A validator has noted down all that its accounts hold. -/
def NotesAll (own : StakePair) (validator : ValidatorRecord) (bank : Bank) : Prop :=
  validator.activeStakeLamports = (bank own.validatorStake).lamports ∧
    validator.transientStakeLamports = (bank own.transientStake).lamports

/-- What a round leaves of a validator that came with its own accounts. -/
structure Updated (scope : UpdateScope) (own : StakePair) (validator : ValidatorRecord)
    (bank : Bank) (validator' : ValidatorRecord) (bank' : Bank) : Prop where
  vote_eq : validator'.voteAccountAddress = validator.voteAccountAddress
  validatorSeed_eq : validator'.validatorSeedSuffix = validator.validatorSeedSuffix
  transientSeed_eq : validator'.transientSeedSuffix = validator.transientSeedSuffix
  moves : Redistributes StakeAccount.lamports
    [scope.reserveStake, own.validatorStake, own.transientStake] bank bank'
  notesAtMost : NotesAtMost own validator' bank'
  notesAll : scope.SoundPair own validator.status bank →
    NotesAll own validator' bank' ∧ scope.SoundPair own validator'.status bank'

/-- **A ROUND** leaves a validator that came with other accounts as it is; otherwise it moves
    lamports between the reserve and the validator's accounts, and notes down no more than
    these hold: exactly that, if they are sound. -/
theorem updateValidator_ok (hlaw : rt.Lawful) {validator validator' : ValidatorRecord}
    {bank' : Bank}
    (hdistinct : (scope.reserveStake ::
      ownAccounts rt.toWithdrawRuntime scope.stakePool validator).Nodup)
    (h : scope.updateValidator rt (validator, pair) bank = .ok (validator', bank')) :
    (validator' = validator ∧ bank' = bank) ∨
    scope.Updated (ownPair rt.toWithdrawRuntime scope.stakePool validator)
      validator bank validator' bank' := by
  rw [updateValidator] at h
  split at h
  · rename_i hcheck
    obtain ⟨transient, htransient, h⟩ := bind_ok h
    obtain ⟨active, hactive, h⟩ := bind_ok h
    cases h
    rw [eq_ownPair hcheck] at htransient hactive
    have hne := hdistinct
    simp only [ownAccounts, List.nodup_cons, List.mem_cons, List.not_mem_nil, or_false,
      not_or] at hne
    obtain ⟨⟨hreserveValidator, hreserveTransient⟩, hpair, -⟩ := hne
    have hfirst := noting_settleTransient hlaw hdistinct htransient
    have hsecond := noting_settleValidator hlaw (Ne.symm hreserveValidator) hactive
    -- the second part does not touch the transient stake
    have hkept : active.bank (transientStakeAddress rt.toWithdrawRuntime scope.stakePool
        validator) = transient.bank (transientStakeAddress rt.toWithdrawRuntime scope.stakePool
        validator) := by
      refine hsecond.moves.frame _ ?_
      simp only [ownPair, List.mem_cons, List.not_mem_nil, or_false, not_or]
      exact ⟨Ne.symm hpair, Ne.symm hreserveTransient⟩
    have hmoves : Redistributes StakeAccount.lamports (scope.reserveStake ::
        ownAccounts rt.toWithdrawRuntime scope.stakePool validator) bank active.bank := by
      refine hfirst.moves.trans (hsecond.moves.mono ?_ hdistinct ?_)
      · simp only [List.nodup_cons, List.mem_cons, List.not_mem_nil, or_false, not_false_eq_true,
          List.nodup_nil, and_true]
        exact Ne.symm hreserveValidator
      · simp [ownPair]
    refine .inr ⟨rfl, rfl, rfl, hmoves, ⟨hsecond.noted_le, ?_⟩, ?_⟩
    · show transient.lamports ≤ (active.bank _).lamports
      rw [ownPair, hkept]
      exact hfirst.noted_le
    · rintro ⟨hsoundTransient, hsoundValidator⟩
      obtain ⟨hall, hsoundTransient', hsoundValidator'⟩ :=
        exact_settleTransient hlaw hdistinct htransient hsoundTransient hsoundValidator
      obtain ⟨hall', hsound⟩ :=
        exact_settleValidator hlaw (Ne.symm hreserveValidator) hactive hsoundValidator'
      refine ⟨⟨hall', ?_⟩, ?_, hsound⟩
      · show transient.lamports = (active.bank _).lamports
        rw [ownPair, hkept]
        exact hall
      · show scope.SoundTransient (active.bank _)
        rw [ownPair, hkept]
        exact hsoundTransient'
  · cases h
    exact .inl ⟨rfl, rfl⟩

end UpdateScope

/-! ## An update -/

section Update

variable {rt : UpdateRuntime} {poolInfo : AccountInfo} {pool : PoolAccount}

/-- The scopes of the updates of one pool. -/
structure OfPool (rt : UpdateRuntime) (poolInfo : AccountInfo) (pool : PoolAccount)
    (scope : UpdateScope) : Prop where
  stakePool : scope.stakePool = poolInfo.key
  reserveStake : scope.reserveStake = pool.reserveStake
  authority : rt.createProgramAddress
    [poolInfo.key.toList, authorityWithdraw, [pool.stakeWithdrawBumpSeed]] rt.programId
      = some scope.withdrawAuthority
  lockup : scope.lockup = rt.lockup poolInfo.data

theorem UpdateListBalance.ofAccounts_cons {accounts : List AccountInfo}
    {ctx : UpdateListBalance}
    (h : UpdateListBalance.ofAccounts rt (poolInfo :: accounts) = .ok ctx) :
    ctx.stakePool = poolInfo := by
  unfold UpdateListBalance.ofAccounts at h
  split at h
  · rename_i heq
    obtain ⟨clockEpoch, -, h⟩ := bind_ok h
    split at h
    · cases h
      exact (List.cons.inj heq).1.symm
    · exact nomatch h
  · exact nomatch h

theorem updateScope_ok {accounts : List AccountInfo} {noMerge : Bool}
    {result : UpdateScope × List StakePair} (hpool : rt.poolAccount poolInfo.data = .ok pool)
    (h : updateScope rt (poolInfo :: accounts) noMerge = .ok result) :
    OfPool rt poolInfo pool result.1 := by
  rw [updateScope] at h
  obtain ⟨ctx, hctx, h⟩ := bind_ok h
  have hinfo := UpdateListBalance.ofAccounts_cons hctx
  obtain ⟨pool', hload, h⟩ := bind_ok h
  have hpool' := loadPoolAccount_ok hload
  rw [hinfo] at hpool'
  cases hpool.symm.trans hpool'
  obtain ⟨-, -, h⟩ := bind_ok h
  obtain ⟨_, hauthority, h⟩ := bind_ok h
  obtain ⟨expected, hexpected, hauthority⟩ := bind_ok hauthority
  obtain ⟨_, hreserve, h⟩ := bind_ok h
  obtain ⟨-, h⟩ := require_bind_ok h
  obtain ⟨-, h⟩ := require_bind_ok h
  obtain ⟨-, -, h⟩ := bind_ok h
  cases h
  have hexpected' := okOr_ok hexpected
  rw [← require_ok hauthority, hinfo] at hexpected'
  exact ⟨congrArg AccountInfo.key hinfo, require_ok hreserve, hexpected',
    congrArg (fun info => rt.lockup info.data) hinfo⟩

/-- The accounts that the pool's lamports are in. -/
def poolAccounts (rt : UpdateRuntime) (poolInfo : AccountInfo) (pool : PoolAccount)
    (validators : List ValidatorRecord) : List Pubkey :=
  pool.reserveStake :: validators.flatMap (ownAccounts rt.toWithdrawRuntime poolInfo.key)

theorem nodup_ownAccounts {validators : List ValidatorRecord} {validator : ValidatorRecord}
    (hdistinct : (poolAccounts rt poolInfo pool validators).Nodup)
    (hmem : validator ∈ validators) :
    (pool.reserveStake :: ownAccounts rt.toWithdrawRuntime poolInfo.key validator).Nodup := by
  refine hdistinct.sublist (List.Sublist.cons_cons _ ?_)
  rw [List.flatMap_def]
  exact List.sublist_flatten_of_mem (List.mem_map_of_mem hmem)

theorem liftProgram_ok {α : Type} {x : Except ProgramError α} {a : α}
    (h : liftProgram x = .ok a) : x = .ok a := by
  cases x with
  | error e => exact nomatch h
  | ok b => exact congrArg Except.ok (Except.ok.inj h)

/-- What holds of a validator by what its own accounts hold, and stays so in a round. -/
structure KeptByRounds (rt : UpdateRuntime) (poolInfo : AccountInfo) (pool : PoolAccount)
    (P : ValidatorRecord → Bank → Prop) : Prop where
  own : ∀ validator bank bank',
    (∀ k ∈ ownAccounts rt.toWithdrawRuntime poolInfo.key validator, bank' k = bank k) →
      P validator bank → P validator bank'
  round : ∀ scope validator bank validator' bank', OfPool rt poolInfo pool scope →
    scope.Updated (ownPair rt.toWithdrawRuntime poolInfo.key validator) validator bank
      validator' bank' → P validator bank → P validator' bank'

/-- **AN UPDATE** moves lamports between the accounts of the pool, leaves the validators their
    accounts, and keeps what every round keeps. -/
theorem processUpdateValidatorListBalance_ok (hlaw : rt.Lawful)
    (hpool : rt.poolAccount poolInfo.data = .ok pool) {P : ValidatorRecord → Bank → Prop}
    (hkept : KeptByRounds rt poolInfo pool P) {accounts : List AccountInfo} {startIndex : Nat}
    {noMerge : Bool} {s s' : ListedStake}
    (hdistinct : (poolAccounts rt poolInfo pool s.validators).Nodup)
    (hP : ∀ v ∈ s.validators, P v s.bank)
    (h : processUpdateValidatorListBalance rt (poolInfo :: accounts) startIndex noMerge s
      = .ok s') :
    Redistributes StakeAccount.lamports (poolAccounts rt poolInfo pool s.validators)
        s.bank s'.bank ∧
      s'.validators.map (ownAccounts rt.toWithdrawRuntime poolInfo.key)
        = s.validators.map (ownAccounts rt.toWithdrawRuntime poolInfo.key) ∧
      ∀ v ∈ s'.validators, P v s'.bank := by
  rw [processUpdateValidatorListBalance] at h
  obtain ⟨⟨scope, pairs⟩, hscope, h⟩ := bind_ok h
  have hof := updateScope_ok hpool (liftProgram_ok hscope)
  dsimp only at h hof
  split at h
  · cases h
  obtain ⟨-, -, h⟩ := bind_ok h
  obtain ⟨⟨updated, bank⟩, hsweep, h⟩ := bind_ok h
  cases h
  have hround : ∀ v ∈ s.validators, ∀ pair bank v' bank', P v bank →
      scope.updateValidator rt (v, pair) bank = .ok (v', bank') →
      Redistributes StakeAccount.lamports
          ([pool.reserveStake] ++ ownAccounts rt.toWithdrawRuntime poolInfo.key v) bank bank' ∧
        ownAccounts rt.toWithdrawRuntime poolInfo.key v'
          = ownAccounts rt.toWithdrawRuntime poolInfo.key v ∧ P v' bank' := by
    intro v hv pair bank v' bank' hPv hupdate
    have hown := nodup_ownAccounts hdistinct hv
    rw [← hof.reserveStake, ← hof.stakePool] at hown
    rcases UpdateScope.updateValidator_ok hlaw hown hupdate with ⟨rfl, rfl⟩ | hupdated
    · exact ⟨Redistributes.refl _ _, rfl, hPv⟩
    · rw [hof.stakePool] at hupdated
      refine ⟨hof.reserveStake ▸ hupdated.moves, ?_, hkept.round scope v bank v' bank' hof
        hupdated hPv⟩
      rw [ownAccounts, ownAccounts, validatorStakeAddress, validatorStakeAddress,
        transientStakeAddress, transientStakeAddress, hupdated.vote_eq,
        hupdated.validatorSeed_eq, hupdated.transientSeed_eq]
  exact sweep_slice hdistinct hkept.own hround hP (liftProgram_ok hsweep)

/-! ## What updates keep -/

/-- A round leaves a validator its accounts. -/
theorem UpdateScope.Updated.ownPair_eq {scope : UpdateScope} {own : StakePair}
    {validator validator' : ValidatorRecord} {bank bank' : Bank}
    (h : scope.Updated own validator bank validator' bank') (rt : WithdrawRuntime)
    (stakePool : Pubkey) : ownPair rt stakePool validator' = ownPair rt stakePool validator := by
  rw [ownPair, ownPair, validatorStakeAddress, validatorStakeAddress, transientStakeAddress,
    transientStakeAddress, h.vote_eq, h.validatorSeed_eq, h.transientSeed_eq]

theorem mem_ownAccounts (rt : WithdrawRuntime) (stakePool : Pubkey)
    (validator : ValidatorRecord) :
    (ownPair rt stakePool validator).validatorStake ∈ ownAccounts rt stakePool validator ∧
      (ownPair rt stakePool validator).transientStake ∈ ownAccounts rt stakePool validator :=
  ⟨List.mem_cons_self, List.mem_cons_of_mem _ List.mem_cons_self⟩

/-- A validator is out of date, or has noted down no more than its accounts hold. -/
def BackedNote (rt : UpdateRuntime) (stakePool : Pubkey) (epoch : Nat)
    (validator : ValidatorRecord) (bank : Bank) : Prop :=
  validator.lastUpdateEpoch < epoch ∨
    UpdateScope.NotesAtMost (ownPair rt.toWithdrawRuntime stakePool validator) validator bank

theorem keptByRounds_backedNote (epoch : Nat) :
    KeptByRounds rt poolInfo pool (BackedNote rt poolInfo.key epoch) where
  own := by
    intro validator bank bank' hsame hbacked
    obtain ⟨hvalidator, htransient⟩ := mem_ownAccounts rt.toWithdrawRuntime poolInfo.key validator
    refine hbacked.imp id ?_
    rintro ⟨hactive, hpending⟩
    exact ⟨(hsame _ hvalidator).symm ▸ hactive, (hsame _ htransient).symm ▸ hpending⟩
  round := by
    intro scope validator bank validator' bank' _ hupdated _
    refine .inr ?_
    rw [hupdated.ownPair_eq]
    exact hupdated.notesAtMost

/-- The accounts of a validator are sound, and it is out of date or has noted down all of
    them. -/
def FullNote (rt : UpdateRuntime) (stakePool : Pubkey) (scope : UpdateScope) (epoch : Nat)
    (validator : ValidatorRecord) (bank : Bank) : Prop :=
  scope.SoundPair (ownPair rt.toWithdrawRuntime stakePool validator) validator.status bank ∧
    (validator.lastUpdateEpoch < epoch ∨
      UpdateScope.NotesAll (ownPair rt.toWithdrawRuntime stakePool validator) validator bank)

/-- All updates of a pool agree on what is sound. -/
theorem OfPool.soundPair_iff {scope scope' : UpdateScope} (h : OfPool rt poolInfo pool scope)
    (h' : OfPool rt poolInfo pool scope') {own : StakePair} {status : StakeStatus}
    {bank : Bank} : scope.SoundPair own status bank ↔ scope'.SoundPair own status bank := by
  have hauthority : scope.withdrawAuthority = scope'.withdrawAuthority :=
    Option.some.inj (h.authority.symm.trans h'.authority)
  have husable : scope.usable = scope'.usable := by
    funext info
    rw [UpdateScope.usable, UpdateScope.usable, hauthority, h.lockup, h'.lockup]
  simp only [UpdateScope.SoundPair, UpdateScope.SoundTransient, UpdateScope.SoundValidator,
    UpdateScope.Usable, husable]

theorem keptByRounds_fullNote {scope : UpdateScope} (hof : OfPool rt poolInfo pool scope)
    (epoch : Nat) : KeptByRounds rt poolInfo pool (FullNote rt poolInfo.key scope epoch) where
  own := by
    intro validator bank bank' hsame hfull
    obtain ⟨hvalidator, htransient⟩ := mem_ownAccounts rt.toWithdrawRuntime poolInfo.key validator
    rw [FullNote, UpdateScope.SoundPair, UpdateScope.NotesAll, hsame _ hvalidator,
      hsame _ htransient]
    exact hfull
  round := by
    intro scope' validator bank validator' bank' hof' hupdated hfull
    obtain ⟨hnotes, hsound⟩ := hupdated.notesAll ((hof.soundPair_iff hof').mp hfull.1)
    rw [FullNote, hupdated.ownPair_eq]
    exact ⟨(hof'.soundPair_iff hof).mp hsound, .inr hnotes⟩

/-! ## Runs of updates -/

/-- An update, with the accounts behind the pool's. -/
structure UpdateCall where
  accounts : List AccountInfo
  startIndex : Nat
  noMerge : Bool

/-- An update of the list of this pool. -/
def updateStep (rt : UpdateRuntime) (poolInfo : AccountInfo) (s : ListedStake)
    (call : UpdateCall) : Except UpdateError ListedStake :=
  processUpdateValidatorListBalance rt (poolInfo :: call.accounts) call.startIndex call.noMerge s

/-- What the pool's accounts hold together. -/
def heldLamports (rt : UpdateRuntime) (poolInfo : AccountInfo) (pool : PoolAccount)
    (s : ListedStake) : Nat :=
  total StakeAccount.lamports (poolAccounts rt poolInfo pool s.validators) s.bank

/-- **A RUN OF UPDATES** keeps the lamports in the accounts of the pool, and keeps what every
    round keeps. -/
theorem run_updates (hlaw : rt.Lawful) (hpool : rt.poolAccount poolInfo.data = .ok pool)
    {P : ValidatorRecord → Bank → Prop} (hkept : KeptByRounds rt poolInfo pool P)
    {start : ListedStake}
    (hdistinct : (poolAccounts rt poolInfo pool start.validators).Nodup)
    (hstart : ∀ v ∈ start.validators, P v start.bank) (calls : List UpdateCall) :
    heldLamports rt poolInfo pool (exec (updateStep rt poolInfo) start calls).2
        = heldLamports rt poolInfo pool start ∧
      ∀ v ∈ (exec (updateStep rt poolInfo) start calls).2.validators,
        P v (exec (updateStep rt poolInfo) start calls).2.bank := by
  have hrun : poolAccounts rt poolInfo pool
        (exec (updateStep rt poolInfo) start calls).2.validators
      = poolAccounts rt poolInfo pool start.validators ∧
      heldLamports rt poolInfo pool (exec (updateStep rt poolInfo) start calls).2
        = heldLamports rt poolInfo pool start ∧
      ∀ v ∈ (exec (updateStep rt poolInfo) start calls).2.validators,
        P v (exec (updateStep rt poolInfo) start calls).2.bank := by
    refine (run_exec (updateStep rt poolInfo) start calls).preserves
      (P := fun s => poolAccounts rt poolInfo pool s.validators
          = poolAccounts rt poolInfo pool start.validators ∧
        heldLamports rt poolInfo pool s = heldLamports rt poolInfo pool start ∧
        ∀ v ∈ s.validators, P v s.bank) ⟨rfl, rfl, hstart⟩ ?_
    rintro s call s' ⟨haccounts, hheld, hP⟩ hstep
    obtain ⟨hmoves, hmap, hP'⟩ :=
      processUpdateValidatorListBalance_ok hlaw hpool hkept (haccounts ▸ hdistinct) hP hstep
    have hsame : poolAccounts rt poolInfo pool s'.validators
        = poolAccounts rt poolInfo pool s.validators := by
      rw [poolAccounts, poolAccounts, List.flatMap_def, List.flatMap_def, hmap]
    refine ⟨hsame.trans haccounts, ?_, hP'⟩
    rw [heldLamports, hsame, hmoves.total_eq]
    exact hheld
  exact hrun.2

end Update

/-! ## The balance of the pool -/

/-- What a validator has noted down. -/
def noted (v : ValidatorRecord) : Nat := v.activeStakeLamports + v.transientStakeLamports

/-- Only a list that is up to date is added up. -/
theorem addStake_ok {epoch : Nat} {validators : List ValidatorRecord}
    {totalLamports result : Nat}
    (h : addStake epoch validators totalLamports = .ok result) :
    (∀ v ∈ validators, epoch ≤ v.lastUpdateEpoch) ∧
      result = totalLamports + (validators.map noted).sum := by
  induction validators generalizing totalLamports with
  | nil =>
      cases h
      exact ⟨List.forall_mem_nil _, rfl⟩
  | cons v validators ih =>
      rw [addStake] at h
      obtain ⟨hepoch, h⟩ := require_bind_ok h
      obtain ⟨stake, hstake, h⟩ := bind_ok h
      obtain ⟨sum, hsum, h⟩ := bind_ok h
      obtain ⟨hrest, hresult⟩ := ih h
      have hstake' := checkedAdd_eq_some (okOr_ok hstake)
      have hsum' := checkedAdd_eq_some (okOr_ok hsum)
      refine ⟨List.forall_mem_cons.mpr ⟨hepoch, hrest⟩, ?_⟩
      rw [hresult, hsum', hstake', List.map_cons, List.sum_cons, noted]
      omega

/-- The accounts of `UpdateStakePoolBalance` are those of the pool, as they are. -/
structure ShowsBalance (rt : UpdateRuntime) (poolInfo : AccountInfo) (s : ListedStake)
    (ctx : UpdateBalance) : Prop where
  stakePool : ctx.stakePool = poolInfo
  validatorList : rt.validatorRecords ctx.validatorList.data = .ok (s.header, s.validators)
  reserveStake : ctx.reserveStake.lamports = (s.bank ctx.reserveStake.key).lamports

section Balance

variable {rt : UpdateRuntime} {poolInfo : AccountInfo} {pool : PoolAccount}

/-- The balance is the reserve above its minimum, and what the validators have noted down. -/
theorem totalLamports_eq {s : ListedStake} {accounts : List AccountInfo} {ctx : UpdateBalance}
    {supply supply' : Nat} {pool' : PoolAccount}
    (hpool : rt.poolAccount poolInfo.data = .ok pool)
    (hctx : UpdateBalance.ofAccounts accounts = .ok ctx)
    (hshow : ShowsBalance rt poolInfo s ctx)
    (h : processUpdateStakePoolBalance rt.toWithdrawRuntime accounts supply
      = .ok (pool', supply')) :
    ∃ info, rt.stakeStateV2 ctx.reserveStake.data = .ok (.initialized info) ∧
      (∀ v ∈ s.validators, rt.epoch ≤ v.lastUpdateEpoch) ∧
      pool'.totalLamports + minimumReserveLamports info
        = (s.bank pool.reserveStake).lamports + (s.validators.map noted).sum := by
  obtain ⟨ctx', hctx', h⟩ := bind_ok h
  cases hctx.symm.trans hctx'
  obtain ⟨pool₁, hload, h⟩ := bind_ok h
  have hpool₁ := loadPoolAccount_ok hload
  rw [hshow.stakePool] at hpool₁
  cases hpool.symm.trans hpool₁
  obtain ⟨_, -, h⟩ := bind_ok h
  obtain ⟨_, -, h⟩ := bind_ok h
  obtain ⟨_, hkey, h⟩ := bind_ok h
  obtain ⟨-, h⟩ := require_bind_ok h
  obtain ⟨-, h⟩ := require_bind_ok h
  obtain ⟨-, h⟩ := require_bind_ok h
  obtain ⟨_, -, h⟩ := bind_ok h
  obtain ⟨⟨header, validators⟩, hrecords, h⟩ := bind_ok h
  cases hshow.validatorList.symm.trans hrecords
  obtain ⟨-, h⟩ := require_bind_ok h
  obtain ⟨reserve, hreserve, h⟩ := bind_ok h
  obtain ⟨total, htotal, h⟩ := bind_ok h
  obtain ⟨fee, -, h⟩ := bind_ok h
  obtain ⟨supply₁, -, h⟩ := bind_ok h
  cases h
  obtain ⟨hupToDate, hsum⟩ := addStake_ok htotal
  obtain ⟨state, hstate, hreserve⟩ := bind_ok hreserve
  cases state with
  | initialized info =>
      obtain ⟨hminimum, hrest⟩ := checkedSub_eq_some (okOr_ok hreserve)
      refine ⟨info, hstate, hupToDate, ?_⟩
      rw [← require_ok hkey, ← hshow.reserveStake]
      show total + _ = _
      omega
  | stake info delegated => exact nomatch hreserve
  | other => exact nomatch hreserve

/-- What the two accounts of a validator hold. -/
def heldBy (rt : UpdateRuntime) (stakePool : Pubkey) (bank : Bank) (v : ValidatorRecord) : Nat :=
  (bank (validatorStakeAddress rt.toWithdrawRuntime stakePool v)).lamports
    + (bank (transientStakeAddress rt.toWithdrawRuntime stakePool v)).lamports

theorem heldLamports_eq (s : ListedStake) :
    heldLamports rt poolInfo pool s = (s.bank pool.reserveStake).lamports
      + (s.validators.map (heldBy rt poolInfo.key s.bank)).sum := by
  have hvalidators : ∀ vs : List ValidatorRecord, total StakeAccount.lamports
      (vs.flatMap (ownAccounts rt.toWithdrawRuntime poolInfo.key)) s.bank
        = (vs.map (heldBy rt poolInfo.key s.bank)).sum := by
    intro vs
    induction vs with
    | nil => rfl
    | cons v vs ih =>
        rw [List.flatMap_cons, total_append, ih, List.map_cons, List.sum_cons, ownAccounts,
          total_cons, total_cons, heldBy]
        rfl
  rw [heldLamports, poolAccounts, total_cons, hvalidators]

/-- **THE BALANCE IS BACKED**: after any updates, in any order and of any slices, from a list
    whose validators are out of date or have noted down no more than their accounts hold, the
    balance and the minimum of the reserve are no more than the accounts of the pool held at
    the start. -/
theorem totalLamports_le_held (hlaw : rt.Lawful)
    (hpool : rt.poolAccount poolInfo.data = .ok pool) {start : ListedStake}
    (hdistinct : (poolAccounts rt poolInfo pool start.validators).Nodup)
    (hstart : ∀ v ∈ start.validators, BackedNote rt poolInfo.key rt.epoch v start.bank)
    (calls : List UpdateCall) {accounts : List AccountInfo} {ctx : UpdateBalance}
    {supply supply' : Nat} {pool' : PoolAccount}
    (hctx : UpdateBalance.ofAccounts accounts = .ok ctx)
    (hshow : ShowsBalance rt poolInfo (exec (updateStep rt poolInfo) start calls).2 ctx)
    (h : processUpdateStakePoolBalance rt.toWithdrawRuntime accounts supply
      = .ok (pool', supply')) :
    ∃ info, rt.stakeStateV2 ctx.reserveStake.data = .ok (.initialized info) ∧
      pool'.totalLamports + minimumReserveLamports info
        ≤ heldLamports rt poolInfo pool start := by
  obtain ⟨hheld, hnotes⟩ := run_updates hlaw hpool
    (keptByRounds_backedNote rt.epoch) hdistinct hstart calls
  obtain ⟨info, hstate, hupToDate, htotal⟩ := totalLamports_eq hpool hctx hshow h
  refine ⟨info, hstate, ?_⟩
  rw [htotal, ← hheld, heldLamports_eq]
  refine Nat.add_le_add_left (List.sum_le_sum fun v hv => ?_) _
  obtain ⟨hactive, htransient⟩ :=
    (hnotes v hv).resolve_left (Nat.not_lt.mpr (hupToDate v hv))
  exact Nat.add_le_add hactive htransient

/-- **THE BALANCE IS COMPLETE**: where every validator is out of date or has noted down exactly
    what its accounts hold, and these are sound, the balance and the minimum of the reserve
    are all that the accounts held at the start. -/
theorem totalLamports_eq_held (hlaw : rt.Lawful)
    (hpool : rt.poolAccount poolInfo.data = .ok pool) {scope : UpdateScope}
    (hof : OfPool rt poolInfo pool scope) {start : ListedStake}
    (hdistinct : (poolAccounts rt poolInfo pool start.validators).Nodup)
    (hstart : ∀ v ∈ start.validators, FullNote rt poolInfo.key scope rt.epoch v start.bank)
    (calls : List UpdateCall) {accounts : List AccountInfo} {ctx : UpdateBalance}
    {supply supply' : Nat} {pool' : PoolAccount}
    (hctx : UpdateBalance.ofAccounts accounts = .ok ctx)
    (hshow : ShowsBalance rt poolInfo (exec (updateStep rt poolInfo) start calls).2 ctx)
    (h : processUpdateStakePoolBalance rt.toWithdrawRuntime accounts supply
      = .ok (pool', supply')) :
    ∃ info, rt.stakeStateV2 ctx.reserveStake.data = .ok (.initialized info) ∧
      pool'.totalLamports + minimumReserveLamports info
        = heldLamports rt poolInfo pool start := by
  obtain ⟨hheld, hnotes⟩ := run_updates hlaw hpool
    (keptByRounds_fullNote hof rt.epoch) hdistinct hstart calls
  obtain ⟨info, hstate, hupToDate, htotal⟩ := totalLamports_eq hpool hctx hshow h
  refine ⟨info, hstate, ?_⟩
  rw [htotal, ← hheld, heldLamports_eq]
  refine congrArg _ (congrArg List.sum (List.map_congr_left fun v hv => ?_))
  obtain ⟨hactive, htransient⟩ :=
    (hnotes v hv).2.resolve_left (Nat.not_lt.mpr (hupToDate v hv))
  exact congrArg₂ _ hactive htransient

end Balance

/-! ## Two validators -/

namespace BalanceSample

open RoundTrip (key account)

def lockup : Lockup := ⟨0, 0, key 0⟩

/-- The pool's authority, and fifty lamports of rent. -/
def info : StakeMeta := ⟨⟨50⟩, key 3, key 3, lockup⟩

def delegation (vote : Pubkey) (stake activation deactivation : Nat) : StakeDelegation :=
  ⟨⟨vote, stake⟩, activation, deactivation⟩

/-- Validator 30 is active, with a transient stake that is inactive by now; validator 31 is
    not delegated any more. -/
def bank : Bank := fun k =>
  if k = key 8 then ⟨5000, some (.initialized info)⟩
  else if k = key 80 then ⟨1100, some (.stake info (delegation (key 30) 1000 100 900))⟩
  else if k = key 130 then ⟨300, some (.stake info (delegation (key 30) 250 100 498))⟩
  else if k = key 81 then ⟨700, some (.initialized info)⟩
  else ⟨0, none⟩

def validator (vote : UInt8) (status : StakeStatus) : ValidatorRecord where
  activeStakeLamports := 0
  validatorSeedSuffix := 0
  status := status
  voteAccountAddress := key vote
  transientStakeLamports := 0
  lastUpdateEpoch := 499
  transientSeedSuffix := 0

def start : ListedStake :=
  ⟨.validatorList, [validator 30 .active, validator 31 .deactivatingValidator], bank⟩

/-- The list after the two updates below. -/
def updated : List ValidatorRecord :=
  [{ validator 30 .active with activeStakeLamports := 1050, lastUpdateEpoch := 500 },
    { validator 31 .readyForRemoval with lastUpdateEpoch := 500 }]

/-- The source is closed; a delegation grows by the stake that comes. -/
def merge (source destination : Pubkey) (bank : Bank) : Bank := fun k =>
  if k = source then ⟨0, some .uninitialized⟩
  else if k = destination then
    { lamports := (bank destination).lamports + (bank source).lamports
      state :=
        match (bank destination).state, (bank source).state with
        | some (.stake info held), some (.stake _ added) =>
            some (.stake info { held with stake := held.stake + added.stake })
        | state, _ => state }
  else bank k

def withdraw (source destination : Pubkey) (lamports : Nat) (bank : Bank) : Bank := fun k =>
  if k = source then
    { lamports := (bank source).lamports - lamports
      state := if (bank source).lamports = lamports then some .uninitialized
        else (bank source).state }
  else if k = destination then
    { bank destination with lamports := (bank destination).lamports + lamports }
  else bank k

def runtime : UpdateRuntime where
  toWithdrawRuntime :=
    { RoundTrip.runtime with
      findProgramAddress := fun seeds _ =>
        match seeds with
        | [vote, _, _] => (key (vote.headD 0 + 50), 255)
        | [_, vote, _, _] => (key (vote.headD 0 + 100), 255)
        | _ => (key 0, 255)
      poolAccount := fun _ => .ok RoundTrip.pool
      validatorRecords := fun _ => .ok (.validatorList, updated) }
  lockup _ := lockup
  merge source destination _ bank :=
    if source = destination then .error .invalidAccountData else .ok (merge source destination bank)
  withdraw source destination _ lamports bank :=
    if (bank source).lamports < lamports then .error .invalidAccountData
    else .ok (withdraw source destination lamports bank)

theorem lawful : runtime.Lawful where
  merged := by
    intro source destination authority bank bank' h
    replace h : (if source = destination then _ else Except.ok (merge source destination bank))
      = Except.ok bank' := h
    split at h
    · exact nomatch h
    rename_i hne
    cases h
    refine ⟨hne, ?_, ?_, ?_, ?_, ?_⟩
    · simp [merge]
    · simp [merge]
    · simp [merge, Ne.symm hne]
    · rintro ⟨info', held, hstate⟩
      simp only [StakeAccount.IsStake, merge, if_neg (Ne.symm hne), if_true, hstate]
      split
      · exact ⟨_, _, rfl⟩
      · exact ⟨_, _, rfl⟩
    · intro k hsource hdestination
      simp [merge, hsource, hdestination]
  withdrawn := by
    intro source destination authority lamports bank bank' hne h
    replace h : (if (bank source).lamports < lamports then _
      else Except.ok (withdraw source destination lamports bank)) = Except.ok bank' := h
    split at h
    · exact nomatch h
    rename_i hle
    cases h
    refine ⟨?_, ?_, ?_, ?_⟩
    · simp only [withdraw, if_true]
      omega
    · simp [withdraw, Ne.symm hne]
    · simp only [withdraw, if_true]
      split
      · exact .inr ⟨by omega, rfl⟩
      · exact .inl rfl
    · intro k hsource hdestination
      simp [withdraw, hsource, hdestination]

def poolInfo : AccountInfo := account 22 0 (key 1) []

/-- An update of one validator. -/
def call (startIndex : Nat) (noMerge : Bool) (validatorStake transientStake : UInt8) :
    UpdateCall where
  accounts :=
    [account 3 0 (key 0) [], account 7 0 (key 1) [], account 8 0 stakeProgramId [],
      account 25 0 (key 0) [], account 26 0 (key 0) [],
      { account 0 0 (key 0) [] with key := stakeProgramId },
      account validatorStake 0 stakeProgramId [], account transientStake 0 stakeProgramId []]
  startIndex := startIndex
  noMerge := noMerge

def calls : List UpdateCall := [call 1 false 81 131, call 0 false 80 130]

/-- The accounts of the update of the balance. -/
def balance : UpdateBalance where
  stakePool := poolInfo
  withdraw := account 3 0 (key 0) []
  validatorList := account 7 0 (key 1) []
  reserveStake := account 8 6050 stakeProgramId []
  managerFee := RoundTrip.managerFee
  poolMint := account 9 0 (key 11) []
  tokenProgram := account 11 0 (key 0) []

def accounts : List AccountInfo :=
  [poolInfo, balance.withdraw, balance.validatorList, balance.reserveStake, balance.managerFee,
    balance.poolMint, balance.tokenProgram]

/-- The state after both updates. -/
def after : ListedStake := (exec (updateStep runtime poolInfo) start calls).2

/-- The pool with its new balance. -/
def result : Except ProgramError (PoolAccount × Nat) :=
  processUpdateStakePoolBalance runtime.toWithdrawRuntime accounts 1

def balanced : PoolAccount × Nat :=
  match result with
  | .ok p => p
  | .error _ => (RoundTrip.pool, 0)

deriving instance DecidableEq for ValidatorStakeInfo
deriving instance DecidableEq for ValidatorRecord

/-- The updates and the balance in one evaluation. -/
theorem computed :
    (after.header = .validatorList ∧ after.validators = updated ∧
      balance.reserveStake.lamports = (after.bank balance.reserveStake.key).lamports) ∧
    result.isOk = true ∧
    (poolAccounts runtime poolInfo RoundTrip.pool start.validators).Nodup ∧
    heldLamports runtime poolInfo RoundTrip.pool start = 7100 := by decide +kernel

theorem shows : ShowsBalance runtime poolInfo
    (exec (updateStep runtime poolInfo) start calls).2 balance := by
  have hafter : ShowsBalance runtime poolInfo after balance := by
    refine ⟨rfl, ?_, computed.1.2.2⟩
    rw [computed.1.1, computed.1.2.1]
    rfl
  rw [after] at hafter
  exact hafter

theorem result_eq : processUpdateStakePoolBalance runtime.toWithdrawRuntime accounts 1
    = .ok (balanced.1, balanced.2) := ok_of_isOk computed.2.1 (RoundTrip.pool, 0)

def scope : UpdateScope := ⟨key 22, key 3, key 8, lockup, 500, false⟩

theorem scope_ofPool : OfPool runtime poolInfo RoundTrip.pool scope := ⟨rfl, rfl, rfl, rfl⟩

theorem full : ∀ v ∈ start.validators,
    FullNote runtime poolInfo.key scope runtime.epoch v start.bank := by
  have husable : scope.usable info = true := by decide
  refine List.forall_mem_cons.mpr ⟨⟨⟨.inr ?_, .inl ⟨?_, rfl⟩⟩, .inl (by decide)⟩,
    List.forall_mem_cons.mpr ⟨⟨⟨.inl ?_, .inr ⟨?_, .inr ?_⟩⟩, .inl (by decide)⟩,
      List.forall_mem_nil _⟩⟩
  · exact ⟨info, husable, .inr ⟨delegation (key 30) 250 100 498, by rfl⟩⟩
  · exact ⟨info, delegation (key 30) 1000 100 900, by rfl⟩
  · decide +kernel
  · rintro ⟨info', stake, hstate⟩
    exact nomatch hstate
  · exact ⟨info, husable, .inl (by rfl)⟩

theorem stale : ∀ v ∈ start.validators,
    BackedNote runtime poolInfo.key runtime.epoch v start.bank :=
  fun v hv => (full v hv).2.imp id fun hnotes =>
    ⟨Nat.le_of_eq hnotes.1, Nat.le_of_eq hnotes.2⟩

theorem totalLamports_le_held_sample :
    ∃ info, runtime.stakeStateV2 balance.reserveStake.data = .ok (.initialized info) ∧
      balanced.1.totalLamports + minimumReserveLamports info
        ≤ heldLamports runtime poolInfo RoundTrip.pool start :=
  totalLamports_le_held lawful rfl computed.2.2.1 stale calls rfl shows result_eq

theorem totalLamports_eq_held_sample :
    ∃ info, runtime.stakeStateV2 balance.reserveStake.data = .ok (.initialized info) ∧
      balanced.1.totalLamports + minimumReserveLamports info = 7100 := by
  rw [← computed.2.2.2]
  exact totalLamports_eq_held lawful rfl scope_ofPool computed.2.2.1 full calls rfl shows result_eq

end BalanceSample

end Albus.Integration
