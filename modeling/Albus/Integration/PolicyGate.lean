import Albus.Integration.Swap
import Albus.Integration.StakePool

/-! # Who passes a policy gate

    The five guarded operations of the two programs as one type, and what their
    guards are for: the supplied proof request is verified, unexpired, of the
    policy, and the acting user's own.  Four of the guards ask for the owner; the
    guard of `DepositStake` does not, so there it depends on the proof it was
    given. -/

namespace Albus.Integration

open Albus.Lib Albus.Program

/-! ## The operations -/

structure Deployment where
  swap : SwapRuntime
  pool : PoolRuntime

inductive Operation where
  | swap (ctx : Swap) (amountIn minimumAmountOut : Nat)
  | depositAllTokenTypes (ctx : DepositAllTokenTypes)
      (poolTokenAmount maximumTokenAAmount maximumTokenBAmount : Nat)
  | depositSingleTokenType (ctx : DepositSingleTokenType)
      (sourceTokenAmount minimumPoolTokenAmount : Nat)
  | depositSol (accounts : List AccountInfo) (depositLamports : Nat)
      (minimumPoolTokensOut : Option Nat)
  | depositStake (accounts : List AccountInfo) (minimumPoolTokensOut : Option Nat)

namespace Operation

def Succeeds (d : Deployment) : Operation → Prop
  | .swap ctx amountIn minimum => Integration.swap d.swap ctx amountIn minimum = .ok ()
  | .depositAllTokenTypes ctx amount maximumA maximumB =>
      Integration.depositAllTokenTypes d.swap ctx amount maximumA maximumB = .ok ()
  | .depositSingleTokenType ctx amount minimum =>
      Integration.depositSingleTokenType d.swap ctx amount minimum = .ok ()
  | .depositSol accounts lamports minimum =>
      ∃ pool, processDepositSol d.pool accounts lamports minimum = .ok pool
  | .depositStake accounts minimum =>
      ∃ after, processDepositStake d.pool accounts minimum = .ok after

/-- The deposit policy of the stake pool among the accounts. -/
def depositPolicy (rt : PoolRuntime) (accounts : List AccountInfo) : Option Pubkey := do
  let stakePool ← accounts[0]?
  let pool ← (rt.stakePool stakePool.data).toOption
  pool.depositPolicy

/-- The policy that guards the operation. -/
def policy (d : Deployment) : Operation → Option Pubkey
  | .swap ctx _ _ => ctx.tokenSwap.data.swapPolicy
  | .depositAllTokenTypes ctx _ _ _ => ctx.tokenSwap.data.addLiquidityPolicy
  | .depositSingleTokenType ctx _ _ => ctx.tokenSwap.data.addLiquidityPolicy
  | .depositSol accounts _ _ => depositPolicy d.pool accounts
  | .depositStake accounts _ => depositPolicy d.pool accounts

/-- The account supplied as proof. -/
def proofRequest : Operation → Option AccountInfo
  | .swap ctx _ _ => ctx.proofRequest
  | .depositAllTokenTypes ctx _ _ _ => ctx.proofRequest
  | .depositSingleTokenType ctx _ _ => ctx.proofRequest
  | .depositSol accounts _ _ => accounts[10]?
  | .depositStake accounts _ => accounts[15]?

/-- The owner of a token account: the second key of its data. -/
def tokenAccountOwner (acc : AccountInfo) : List UInt8 := (acc.data.drop 32).take 32

/-- The acting user: the transfer authority, the payer, or the owner of the destination of
    the pool tokens. -/
def user : Operation → Option (List UInt8)
  | .swap ctx _ _ => some ctx.userTransferAuthority.key.toList
  | .depositAllTokenTypes ctx _ _ _ => some ctx.userTransferAuthority.key.toList
  | .depositSingleTokenType ctx _ _ => some ctx.userTransferAuthority.key.toList
  | .depositSol accounts _ _ => accounts[3]?.map fun acc => acc.key.toList
  | .depositStake accounts _ => accounts[7]?.map tokenAccountOwner

def now (d : Deployment) : Operation → Int
  | .swap _ _ _ => d.swap.unixTimestamp
  | .depositAllTokenTypes _ _ _ _ => d.swap.unixTimestamp
  | .depositSingleTokenType _ _ _ => d.swap.unixTimestamp
  | .depositSol _ _ _ => d.pool.unixTimestamp
  | .depositStake _ _ => d.pool.unixTimestamp

end Operation

/-! ## What a guard is for -/

/-- The account is a verified, unexpired request of the policy. -/
structure ProofFor (acc : AccountInfo) (policy : Pubkey) (now : Int)
    (read : AlbusVerifier.Prefix) : Prop where
  programOwned : AlbusVerifier.ProgramOwned acc
  stored : AlbusVerifier.readPrefix acc.data = .ok read
  discriminator : read.discriminator = proofRequestDiscriminator
  policy : read.policy = policy.toList
  status : read.status = ProofRequestStatus.verified.toByte
  unexpired : ¬ (read.expiredAt > 0 ∧ read.expiredAt < now)

/-- Where a policy is set, the supplied proof is one, and the user's own. -/
def DoneByOwner (d : Deployment) (op : Operation) : Prop :=
  ∀ policy, op.policy d = some policy →
    ∃ acc read, op.proofRequest = some acc ∧ ProofFor acc policy (op.now d) read ∧
      op.user = some read.owner

/-- A guarded `DepositStake` was given a proof that names the owner of the destination; of
    the other operations nothing is asked. -/
def GivenOwnProof (d : Deployment) : Operation → Prop
  | .depositStake accounts minimum =>
      (Operation.depositStake accounts minimum).policy d = none ∨
        ∃ acc read dest, accounts[15]? = some acc ∧
          AlbusVerifier.readPrefix acc.data = .ok read ∧ accounts[7]? = some dest ∧
          Operation.tokenAccountOwner dest = read.owner
  | _ => True

/-! ## The guards -/

theorem arrayRef_ok {data piece : List UInt8} {offset len : Nat}
    (h : arrayRef data offset len = .ok piece) : piece.length = len := by
  rw [arrayRef] at h
  split at h
  · cases h
  · rw [← Except.ok.inj h, List.length_take, List.length_drop]
    omega

/-- The keys of a prefix are whole. -/
theorem readPrefix_lengths {data : List UInt8} {read : AlbusVerifier.Prefix}
    (h : AlbusVerifier.readPrefix data = .ok read) :
    read.policy.length = 32 ∧ read.owner.length = 32 := by
  obtain ⟨piece, hpiece, h⟩ := bind_ok h
  have hlen := arrayRef_ok hpiece
  split at h
  · rename_i heq
    obtain rfl := Except.ok.inj h
    simp only [arrayRefs, List.drop_drop, List.cons.injEq] at heq
    obtain ⟨-, -, hpolicy, -, -, howner, -⟩ := heq
    constructor
    · rw [← hpolicy, List.length_take, List.length_drop]
      omega
    · rw [← howner, List.length_take, List.length_drop]
      omega
  · cases h

/-- **A GUARD'S VERDICT**, with the filter on the policy alone. -/
theorem proofFor_of_run {v : AlbusVerifier} {now : Int} (h : v.run now = .ok ())
    {policy : Pubkey} (hpolicy : v.policy = some policy) :
    ∃ read, ProofFor v.proofRequest policy now read ∧
      ∀ owner, v.proofRequestOwner = some owner → read.owner = owner.toList := by
  obtain ⟨howned, read, hread, haccepted⟩ := (AlbusVerifier.run_ok_iff v now).mp h
  obtain ⟨hlenPolicy, hlenOwner⟩ := readPrefix_lengths hread
  refine ⟨read, ⟨howned, hread, haccepted.discriminator, ?_, haccepted.status,
    haccepted.unexpired⟩, ?_⟩
  · exact (AlbusVerifier.cmpPubkeys_stored hlenPolicy).mp (haccepted.policy policy hpolicy)
  · intro owner howner
    exact (AlbusVerifier.cmpPubkeys_stored hlenOwner).mp (haccepted.owner owner howner)

/-- The guard of the token swap. -/
theorem checkProof_ok {rt : SwapRuntime} {policy : Pubkey} {proofRequest : Option AccountInfo}
    {userTransferAuthority : Pubkey}
    (h : checkProof rt (some policy) proofRequest userTransferAuthority = .ok ()) :
    ∃ acc read, proofRequest = some acc ∧ ProofFor acc policy rt.unixTimestamp read ∧
      read.owner = userTransferAuthority.toList := by
  cases proofRequest with
  | none => exact nomatch h
  | some acc =>
      obtain ⟨read, hproof, howner⟩ := proofFor_of_run h rfl
      exact ⟨acc, read, rfl, hproof, howner _ rfl⟩

theorem nextAccountInfo_ok {accounts : List AccountInfo} {acc : AccountInfo}
    (h : nextAccountInfo accounts = .ok acc) : accounts[0]? = some acc := by
  cases accounts with
  | nil => exact nomatch h
  | cons first rest => exact congrArg some (Except.ok.inj h)

/-- The accounts of a `DepositSol` stand where the names say. -/
theorem DepositSol.ofAccounts_ok {accounts : List AccountInfo} {ctx : DepositSol}
    (h : DepositSol.ofAccounts accounts = .ok ctx) :
    accounts[0]? = some ctx.stakePool ∧ accounts[3]? = some ctx.fromUserLamports ∧
      accounts[10]? = ctx.rest[0]? := by
  unfold DepositSol.ofAccounts at h
  split at h
  · obtain rfl := Except.ok.inj h
    exact ⟨rfl, rfl, rfl⟩
  · exact nomatch h

theorem DepositStake.ofAccounts_ok {rt : PoolRuntime} {accounts : List AccountInfo}
    {ctx : DepositStake} (h : DepositStake.ofAccounts rt accounts = .ok ctx) :
    accounts[0]? = some ctx.stakePool ∧ accounts[7]? = some ctx.destUserPool ∧
      accounts[15]? = ctx.rest[0]? := by
  unfold DepositStake.ofAccounts at h
  split at h
  · obtain ⟨epoch, -, h⟩ := bind_ok h
    split at h
    · obtain rfl := Except.ok.inj h
      exact ⟨rfl, rfl, rfl⟩
    · exact nomatch h
  · exact nomatch h

/-- The policy is that of the pool the accounts begin with. -/
theorem depositPolicy_eq {rt : PoolRuntime} {accounts : List AccountInfo} {acc : AccountInfo}
    {pool : StakePool} (hacc : accounts[0]? = some acc) (h : loadStakePool rt acc = .ok pool) :
    Operation.depositPolicy rt accounts = pool.depositPolicy := by
  simp only [Operation.depositPolicy, hacc, loadStakePool_ok h, bind, Option.bind_some,
    Except.toOption]

/-! ## Each operation -/

theorem doneByOwner_of_checkProof {d : Deployment} {op : Operation} {policy : Option Pubkey}
    {proofRequest : Option AccountInfo} {userTransferAuthority : Pubkey}
    (hguard : checkProof d.swap policy proofRequest userTransferAuthority = .ok ())
    (hpolicy : op.policy d = policy) (hproof : op.proofRequest = proofRequest)
    (huser : op.user = some userTransferAuthority.toList)
    (hnow : op.now d = d.swap.unixTimestamp) : DoneByOwner d op := by
  intro p hp
  rw [hpolicy] at hp
  rw [hp] at hguard
  obtain ⟨acc, read, hacc, hfor, howner⟩ := checkProof_ok hguard
  refine ⟨acc, read, hproof.trans hacc, ?_, ?_⟩
  · rw [hnow]
    exact hfor
  · rw [huser, howner]

theorem swap_doneByOwner {d : Deployment} {ctx : Swap} {amountIn minimum : Nat}
    (h : swap d.swap ctx amountIn minimum = .ok ()) :
    DoneByOwner d (.swap ctx amountIn minimum) := by
  obtain ⟨-, h⟩ := require_bind_ok h
  obtain ⟨_, hguard, -⟩ := bind_ok h
  exact doneByOwner_of_checkProof hguard rfl rfl rfl rfl

theorem depositAllTokenTypes_doneByOwner {d : Deployment} {ctx : DepositAllTokenTypes}
    {amount maximumA maximumB : Nat}
    (h : depositAllTokenTypes d.swap ctx amount maximumA maximumB = .ok ()) :
    DoneByOwner d (.depositAllTokenTypes ctx amount maximumA maximumB) := by
  obtain ⟨-, h⟩ := require_bind_ok h
  obtain ⟨_, hguard, -⟩ := bind_ok h
  exact doneByOwner_of_checkProof hguard rfl rfl rfl rfl

theorem depositSingleTokenType_doneByOwner {d : Deployment} {ctx : DepositSingleTokenType}
    {amount minimum : Nat} (h : depositSingleTokenType d.swap ctx amount minimum = .ok ()) :
    DoneByOwner d (.depositSingleTokenType ctx amount minimum) := by
  obtain ⟨-, h⟩ := require_bind_ok h
  obtain ⟨_, hguard, -⟩ := bind_ok h
  exact doneByOwner_of_checkProof hguard rfl rfl rfl rfl

theorem processDepositSol_doneByOwner {d : Deployment} {accounts : List AccountInfo}
    {lamports : Nat} {minimum : Option Nat} {after : StakePool}
    (h : processDepositSol d.pool accounts lamports minimum = .ok after) :
    DoneByOwner d (.depositSol accounts lamports minimum) := by
  obtain ⟨ctx, hctx, h⟩ := bind_ok h
  obtain ⟨pool, hpool, h⟩ := bind_ok h
  obtain ⟨rest, hguard, -⟩ := bind_ok h
  obtain ⟨hfirst, hfrom, hproof⟩ := DepositSol.ofAccounts_ok hctx
  intro policy hpolicy
  rw [Operation.policy, depositPolicy_eq hfirst hpool] at hpolicy
  rw [checkSolDeposit, hpolicy] at hguard
  obtain ⟨acc, hacc, hguard⟩ := bind_ok hguard
  obtain ⟨_, hrun, -⟩ := bind_ok hguard
  obtain ⟨read, hfor, howner⟩ := proofFor_of_run hrun rfl
  refine ⟨acc, read, hproof.trans (nextAccountInfo_ok hacc), hfor, ?_⟩
  rw [Operation.user, hfrom, howner _ rfl]
  rfl

/-- **`DepositStake`**: the proof is one of the policy; whose it is, the guard leaves open. -/
theorem processDepositStake_proofFor {d : Deployment} {accounts : List AccountInfo}
    {minimum : Option Nat} {after : StakePool × List ValidatorStakeInfo}
    (h : processDepositStake d.pool accounts minimum = .ok after) {policy : Pubkey}
    (hpolicy : (Operation.depositStake accounts minimum).policy d = some policy) :
    ∃ acc read dest, accounts[15]? = some acc ∧ accounts[7]? = some dest ∧
      ProofFor acc policy d.pool.unixTimestamp read := by
  obtain ⟨ctx, hctx, h⟩ := bind_ok h
  obtain ⟨-, h⟩ := require_bind_ok h
  obtain ⟨pool, hpool, h⟩ := bind_ok h
  obtain ⟨_, hguard, -⟩ := bind_ok h
  obtain ⟨hfirst, hdest, hproof⟩ := DepositStake.ofAccounts_ok hctx
  rw [Operation.policy, depositPolicy_eq hfirst hpool] at hpolicy
  rw [checkStakeDeposit, hpolicy] at hguard
  obtain ⟨acc, hacc, hrun⟩ := bind_ok hguard
  obtain ⟨read, hfor, -⟩ := proofFor_of_run hrun rfl
  exact ⟨acc, read, ctx.destUserPool, hproof.trans (nextAccountInfo_ok hacc), hdest, hfor⟩

theorem processDepositStake_doneByOwner_iff {d : Deployment} {accounts : List AccountInfo}
    {minimum : Option Nat} {after : StakePool × List ValidatorStakeInfo}
    (h : processDepositStake d.pool accounts minimum = .ok after) :
    DoneByOwner d (.depositStake accounts minimum) ↔
      GivenOwnProof d (.depositStake accounts minimum) := by
  cases hpolicy : (Operation.depositStake accounts minimum).policy d with
  | none =>
      refine iff_of_true ?_ (Or.inl hpolicy)
      intro policy hsome
      rw [hpolicy] at hsome
      exact nomatch hsome
  | some policy =>
      obtain ⟨acc, read, dest, hacc, hdest, hfor⟩ := processDepositStake_proofFor h hpolicy
      -- the proof account decodes to one prefix, so both sides speak of one owner
      constructor
      · intro hdone
        obtain ⟨acc', read', hacc', hfor', huser⟩ := hdone policy hpolicy
        rw [Operation.user, hdest, Option.map_some] at huser
        exact Or.inr ⟨acc', read', dest, hacc', hfor'.stored, hdest, Option.some.inj huser⟩
      · rintro (hnone | ⟨acc', read', dest', hacc', hread', hdest', howner⟩)
        · rw [hpolicy] at hnone
          exact nomatch hnone
        · obtain rfl := Option.some.inj (hacc.symm.trans hacc')
          obtain rfl := Except.ok.inj (hfor.stored.symm.trans hread')
          intro policy' hpolicy'
          obtain rfl := Option.some.inj (hpolicy.symm.trans hpolicy')
          refine ⟨acc, read, hacc, hfor, ?_⟩
          rw [Operation.user, hdest', Option.map_some, howner]

/-- **WHO PASSES A GATE.**  A guarded operation that succeeds was done by the owner of a
    verified, unexpired proof of exactly its policy; a `DepositStake`, exactly when the
    proof it was given names the owner of the destination. -/
theorem doneByOwner_iff (d : Deployment) (op : Operation) (h : op.Succeeds d) :
    DoneByOwner d op ↔ GivenOwnProof d op := by
  cases op with
  | swap ctx amountIn minimum => exact iff_of_true (swap_doneByOwner h) trivial
  | depositAllTokenTypes ctx amount maximumA maximumB =>
      exact iff_of_true (depositAllTokenTypes_doneByOwner h) trivial
  | depositSingleTokenType ctx amount minimum =>
      exact iff_of_true (depositSingleTokenType_doneByOwner h) trivial
  | depositSol accounts lamports minimum =>
      obtain ⟨pool, hpool⟩ := h
      exact iff_of_true (processDepositSol_doneByOwner hpool) trivial
  | depositStake accounts minimum =>
      obtain ⟨after, hafter⟩ := h
      exact processDepositStake_doneByOwner_iff hafter

/-! ## A deposit of stake

    A new pool with one validator and no fees.  The stake program moves lamports
    and delegation as asked; every derived address is the one expected. -/

namespace StakeDeposit

def key (n : UInt8) : Pubkey := Vector.replicate 32 n

def alice : Pubkey := key 100

def bob : Pubkey := key 101

def policy : Pubkey := key 12

def noFee : Fee := ⟨0, 0⟩

def pool : StakePool where
  accountType := .stakePool
  stakeDepositAuthority := key 4
  stakeWithdrawBumpSeed := 255
  validatorList := key 7
  reserveStake := key 8
  poolMint := key 9
  managerFeeAccount := key 10
  tokenProgramId := key 11
  totalLamports := 0
  poolTokenSupply := 0
  lastUpdateEpoch := 500
  preferredDepositValidatorVoteAddress := none
  stakeDepositFee := noFee
  stakeReferralFee := 0
  solDepositAuthority := none
  solDepositFee := noFee
  solReferralFee := 0
  depositPolicy := some policy

def validator : ValidatorStakeInfo where
  activeStakeLamports := 1000
  validatorSeedSuffix := 0
  status := .active
  voteAccountAddress := key 6

/-- An account of the stake program holds its delegation in these examples. -/
def runtime : PoolRuntime where
  programId := key 1
  unixTimestamp := 1700000000
  epoch := 500
  clockEpoch _ := .ok 500
  createProgramAddress _ _ := some (key 3)
  findProgramAddress seeds _ := if seeds.length = 2 then (key 4, 255) else (key 5, 254)
  stakePool data := if data = [1] then .ok pool else .error .invalidAccountData
  validatorList data :=
    if data = [2] then .ok (.validatorList, [validator]) else .error .invalidAccountData
  mintDecimals _ := .ok 9
  stakeState data := .ok ⟨key 6, leNat data⟩
  stakeAuthorize _ _ _ _ := .ok ()
  stakeMerge source destination _ :=
    .ok
      { destination with
        lamports := destination.lamports + source.lamports
        data := leBytes 8 (leNat destination.data + leNat source.data) }
  stakeWithdraw source _ _ lamports :=
    .ok { source with lamports := source.lamports - lamports }
  solTransfer _ _ _ := .ok ()
  tokenMintTo _ _ _ _ := .ok ()

/-- No instruction of the swap is called. -/
def deployment : Deployment where
  swap :=
    { programId := key 2
      unixTimestamp := 1700000000
      createProgramAddress _ _ := none
      curve _ := .error .invalidAccountData
      token _ := .ok () }
  pool := runtime

/-- A verified request without expiry. -/
def request (owner : Pubkey) : ProofRequest :=
  { ProofRequest.zeroed with policy, owner, verifiedAt := 1690000000, status := .verified }

def account (n : UInt8) (lamports : Nat) (owner : Pubkey) (data : List UInt8) : AccountInfo where
  key := key n
  isSigner := false
  lamports := lamports
  owner := owner
  data := data

/-- The token account of a user. -/
def destUserPool (user : Pubkey) : AccountInfo :=
  account 20 0 (key 11) ((key 9).toList ++ user.toList ++ leBytes 8 0)

def proofRequest (owner : Pubkey) : AccountInfo :=
  account 21 0 albusProgramId (request owner).serialize

/-- `user` receives the pool tokens on a proof of `owner`. -/
def accounts (user owner : Pubkey) : List AccountInfo :=
  [account 22 0 (key 1) [1], account 7 0 (key 1) [2], account 4 0 (key 0) [],
    account 3 0 (key 0) [], account 23 600 stakeProgramId (leBytes 8 500),
    account 5 1000 stakeProgramId (leBytes 8 900), account 8 0 stakeProgramId [],
    destUserPool user, account 10 0 (key 11) [], account 24 0 (key 11) [],
    account 9 0 (key 11) [], account 25 0 (key 0) [], account 26 0 (key 0) [],
    account 11 0 (key 0) [], { account 0 0 (key 0) [] with key := stakeProgramId },
    proofRequest owner]

def deposit (user owner : Pubkey) : Operation := .depositStake (accounts user owner) none

/-- Both deposits in one evaluation. -/
theorem computed :
    (processDepositStake runtime (accounts bob bob) none).isOk = true ∧
      (processDepositStake runtime (accounts bob alice) none).isOk = true := by decide +kernel

theorem succeeds_own : (deposit bob bob).Succeeds deployment := exists_ok computed.1

theorem succeeds_another : (deposit bob alice).Succeeds deployment := exists_ok computed.2

theorem policy_deposit (user owner : Pubkey) :
    (deposit user owner).policy deployment = some policy := rfl

theorem stored (owner : Pubkey) :
    AlbusVerifier.readPrefix (proofRequest owner).data
      = .ok (AlbusVerifier.Prefix.ofRequest (request owner)) := by
  have hexp : InI64 (request owner).expiredAt := show InI64 0 by decide
  have hread := AlbusVerifier.readPrefix_serialize (request owner) hexp []
  rwa [List.append_nil] at hread

end StakeDeposit

/-- A depositor with his own proof passes the gate. -/
theorem doneByOwner_own : DoneByOwner StakeDeposit.deployment
    (StakeDeposit.deposit StakeDeposit.bob StakeDeposit.bob) :=
  (doneByOwner_iff StakeDeposit.deployment _ StakeDeposit.succeeds_own).mpr
    (Or.inr ⟨_, _, _, rfl, StakeDeposit.stored StakeDeposit.bob, rfl, by decide⟩)

/-- **A PROOF OF ANOTHER SUFFICES**: Bob deposits stake under the policy on Alice's proof. -/
theorem depositStake_on_anothers_proof :
    (StakeDeposit.deposit StakeDeposit.bob StakeDeposit.alice).Succeeds
        StakeDeposit.deployment ∧
      (StakeDeposit.deposit StakeDeposit.bob StakeDeposit.alice).policy
        StakeDeposit.deployment = some StakeDeposit.policy ∧
      ¬ DoneByOwner StakeDeposit.deployment
        (StakeDeposit.deposit StakeDeposit.bob StakeDeposit.alice) := by
  refine ⟨StakeDeposit.succeeds_another, StakeDeposit.policy_deposit _ _, ?_⟩
  intro hdone
  obtain ⟨acc, read, hacc, hfor, huser⟩ := hdone _ (StakeDeposit.policy_deposit _ _)
  obtain rfl := Option.some.inj hacc
  obtain rfl := Except.ok.inj (hfor.stored.symm.trans (StakeDeposit.stored StakeDeposit.alice))
  exact absurd (Option.some.inj huser) (by decide)

end Albus.Integration
