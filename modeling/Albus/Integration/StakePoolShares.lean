import Albus.Integration.StakePoolWithdrawals
import Albus.Lib.Run
import Albus.Lib.Shares

/-! # What a pool token of the stake pool is worth

    The lamports of the pool against the supply of its tokens.  Deposits round the
    tokens they mint down, withdrawals the lamports they pay, and the fee of an
    epoch is paid out of the rewards in new tokens.  So the price only rises; and
    since rounding leaves lamports behind, one user's deposit can raise it for
    another. -/

namespace Albus.Integration

open Albus.Lib Albus.Program

/-! ## The machine -/

structure StakePoolState where
  pool : PoolAccount
  /-- The supply that the pool's mint has. -/
  mintSupply : Nat

inductive StakePoolInstruction where
  | depositSol (accounts : List AccountInfo) (depositLamports : Nat)
      (minimumPoolTokensOut : Option Nat)
  | depositStake (accounts : List AccountInfo) (minimumPoolTokensOut : Option Nat)
  | withdrawSol (accounts : List AccountInfo) (poolTokens : Nat)
      (minimumLamportsOut : Option Nat)
  | withdrawStake (accounts : List AccountInfo) (poolTokens : Nat)
      (minimumLamportsOut : Option Nat)
  | updateStakePoolBalance (accounts : List AccountInfo)

/-- An instruction, with all that it finds on the chain apart from the pool. -/
structure StakePoolCall where
  rt : WithdrawRuntime
  instruction : StakePoolInstruction

/-- The pool account is read as what is stored in it. -/
def WithdrawRuntime.holding (rt : WithdrawRuntime) (pool : PoolAccount) : WithdrawRuntime :=
  { rt with stakePool := fun _ => .ok pool.toStakePool, poolAccount := fun _ => .ok pool }

namespace StakePoolState

/-- A deposit mints what the supply of the pool gains. -/
def deposited (s : StakePoolState) (pool : StakePool) : Except ProgramError StakePoolState := do
  let mintSupply ← okOr
    (checkedAdd 64 s.mintSupply (pool.poolTokenSupply - s.pool.poolTokenSupply)) tokenOverflow
  .ok { pool := { s.pool with toStakePool := pool }, mintSupply }

def step (s : StakePoolState) (call : StakePoolCall) : Except ProgramError StakePoolState :=
  let rt := call.rt.holding s.pool
  match call.instruction with
  | .depositSol accounts depositLamports minimumPoolTokensOut => do
      let pool ← processDepositSol rt.toPoolRuntime accounts depositLamports minimumPoolTokensOut
      s.deposited pool
  | .depositStake accounts minimumPoolTokensOut => do
      let (pool, _) ← processDepositStake rt.toPoolRuntime accounts minimumPoolTokensOut
      s.deposited pool
  | .withdrawSol accounts poolTokens minimumLamportsOut => do
      let (pool, mintSupply) ← processWithdrawSol rt accounts poolTokens minimumLamportsOut
        s.mintSupply
      .ok { pool, mintSupply }
  | .withdrawStake accounts poolTokens minimumLamportsOut => do
      let (pool, mintSupply, _) ← processWithdrawStake rt accounts poolTokens minimumLamportsOut
        s.mintSupply
      .ok { pool, mintSupply }
  | .updateStakePoolBalance accounts => do
      let (pool, mintSupply) ← processUpdateStakePoolBalance rt accounts s.mintSupply
      .ok { pool, mintSupply }

end StakePoolState

/-! ## What the calculations give -/

theorem tryU64_eq_some {n m : Nat} (h : tryU64 n = some m) : m = n := by
  unfold tryU64 at h
  split at h
  · exact (Option.some.inj h).symm
  · exact nomatch h

/-- A fee of at most a hundred percent. -/
def Fee.AtMostAll (f : Fee) : Prop := f.numerator ≤ f.denominator

theorem Fee.apply_le {f : Fee} (hf : f.AtMostAll) {amt fee : Nat} (h : f.apply amt = some fee) :
    fee ≤ amt := by
  unfold Fee.apply at h
  split at h
  · rw [← Option.some.inj h]
    exact Nat.zero_le _
  · obtain ⟨product, hproduct, h⟩ := Option.bind_eq_some_iff.mp h
    obtain ⟨hpos, rfl⟩ := checkedDiv_eq_some h
    rw [checkedMul_eq_some hproduct]
    calc amt * f.numerator / f.denominator ≤ amt * f.denominator / f.denominator :=
          Nat.div_le_div_right (Nat.mul_le_mul_left amt hf)
      _ = amt := Nat.mul_div_cancel amt hpos

/-- The tokens of a deposit are rounded down. -/
theorem calcPoolTokensForDeposit_le {pool : StakePool} {lamports minted : Nat}
    (hL : 0 < pool.totalLamports) (hS : 0 < pool.poolTokenSupply)
    (h : pool.calcPoolTokensForDeposit lamports = some minted) :
    pool.totalLamports * minted ≤ lamports * pool.poolTokenSupply := by
  unfold StakePool.calcPoolTokensForDeposit at h
  rw [if_neg (by omega)] at h
  obtain ⟨product, hproduct, h⟩ := Option.bind_eq_some_iff.mp h
  obtain ⟨tokens, htokens, h⟩ := Option.bind_eq_some_iff.mp h
  obtain ⟨-, rfl⟩ := checkedDiv_eq_some htokens
  rw [tryU64_eq_some h, checkedMul_eq_some hproduct]
  exact Nat.mul_div_le _ _

/-- The lamports of a withdrawal are rounded down. -/
theorem calcLamportsWithdrawAmount_le {pool : PoolAccount} {burnt lamports : Nat}
    (h : pool.calcLamportsWithdrawAmount burnt = some lamports) :
    lamports * pool.poolTokenSupply ≤ pool.totalLamports * burnt := by
  obtain ⟨numerator, hnumerator, h⟩ := Option.bind_eq_some_iff.mp h
  rw [Nat.mul_comm pool.totalLamports, ← checkedMul_eq_some hnumerator]
  split at h
  · rw [← Option.some.inj h, Nat.zero_mul]
    exact Nat.zero_le _
  · obtain ⟨quotient, hquotient, h⟩ := Option.bind_eq_some_iff.mp h
    obtain ⟨-, rfl⟩ := checkedDiv_eq_some hquotient
    rw [tryU64_eq_some h]
    exact Nat.div_mul_le_self _ _

/-- The tokens of the epoch fee are worth no more than its part of the rewards. -/
theorem calcEpochFeeAmount_kept {pool : PoolAccount} {reward fee : Nat}
    (hL : 0 < pool.totalLamports) (hS : 0 < pool.poolTokenSupply)
    (hbound : pool.epochFee.AtMostAll) (h : pool.calcEpochFeeAmount reward = some fee) :
    PriceKept pool.totalLamports pool.poolTokenSupply (pool.totalLamports + reward)
      (pool.poolTokenSupply + fee) := by
  unfold PoolAccount.calcEpochFeeAmount at h
  split at h
  · rename_i hzero
    rw [← Option.some.inj h, hzero]
    exact PriceKept.refl _ _
  · obtain ⟨total, htotal, h⟩ := Option.bind_eq_some_iff.mp h
    obtain ⟨feeLamports, hfee, h⟩ := Option.bind_eq_some_iff.mp h
    have hle := Fee.apply_le hbound hfee
    rw [checkedAdd_eq_some htotal] at h
    rw [if_neg (by omega)] at h
    obtain ⟨product, hproduct, h⟩ := Option.bind_eq_some_iff.mp h
    obtain ⟨rest, hrest, h⟩ := Option.bind_eq_some_iff.mp h
    obtain ⟨tokens, htokens, h⟩ := Option.bind_eq_some_iff.mp h
    obtain ⟨-, rfl⟩ := checkedSub_eq_some hrest
    obtain ⟨-, rfl⟩ := checkedDiv_eq_some htokens
    refine priceKept_reward hle ?_
    rw [tryU64_eq_some h, checkedMul_eq_some hproduct]
    exact Nat.div_mul_le_self _ _

/-! ## What the instructions do to the pool -/

theorem calculated_ok {α : Type} {o : Option α} {a : α} (h : calculated o = .ok a) : o = some a :=
  okOr_ok h

theorem loadPoolAccount_ok {rt : WithdrawRuntime} {info : AccountInfo} {pool : PoolAccount}
    (h : loadPoolAccount rt info = .ok pool) : rt.poolAccount info.data = .ok pool := by
  obtain ⟨-, -, h⟩ := bind_ok h
  obtain ⟨pool', hpool, h⟩ := bind_ok h
  obtain ⟨-, h⟩ := require_bind_ok h
  rw [← Except.ok.inj h]
  exact hpool

theorem creditDeposit_ok {pool pool' : StakePool} {minted lamports : Nat}
    (h : creditDeposit pool minted lamports = .ok pool') :
    pool' = { pool with
      poolTokenSupply := pool.poolTokenSupply + minted
      totalLamports := pool.totalLamports + lamports } := by
  obtain ⟨supply, hsupply, h⟩ := bind_ok h
  obtain ⟨total, htotal, h⟩ := bind_ok h
  rw [checkedAdd_eq_some (calculated_ok hsupply), checkedAdd_eq_some (calculated_ok htotal)] at h
  exact (Except.ok.inj h).symm

/-- A deposit of lamports: the tokens it mints, in parts, and what it adds to the pool. -/
structure Deposited (rt : PoolRuntime) (pool pool' : StakePool) (lamports minted : Nat) :
    Prop where
  minted_eq : pool.calcPoolTokensForDeposit lamports = some minted
  parts : ∃ accounts poolTokensUser managerFee referralFee,
    mintParts rt accounts poolTokensUser managerFee referralFee = .ok () ∧
      poolTokensUser + managerFee + referralFee = minted
  pool_eq : pool' = { pool with
    poolTokenSupply := pool.poolTokenSupply + minted
    totalLamports := pool.totalLamports + lamports }

theorem processDepositSol_ok {rt : PoolRuntime} {pool pool' : StakePool}
    (hpool : ∀ data, rt.stakePool data = .ok pool) {accounts : List AccountInfo} {lamports : Nat}
    {minimum : Option Nat} (h : processDepositSol rt accounts lamports minimum = .ok pool') :
    ∃ minted, Deposited rt pool pool' lamports minted := by
  obtain ⟨ctx, -, h⟩ := bind_ok h
  obtain ⟨pool₁, hload, h⟩ := bind_ok h
  rw [Except.ok.inj ((loadStakePool_ok hload).symm.trans (hpool _))] at h
  obtain ⟨_, -, h⟩ := bind_ok h
  obtain ⟨_, -, h⟩ := bind_ok h
  obtain ⟨_, -, h⟩ := bind_ok h
  obtain ⟨_, -, h⟩ := bind_ok h
  obtain ⟨_, -, h⟩ := bind_ok h
  obtain ⟨-, h⟩ := require_bind_ok h
  obtain ⟨-, h⟩ := require_bind_ok h
  obtain ⟨-, h⟩ := require_bind_ok h
  obtain ⟨-, h⟩ := require_bind_ok h
  obtain ⟨minted, hminted, h⟩ := bind_ok h
  obtain ⟨fee, -, h⟩ := bind_ok h
  obtain ⟨user, huser, h⟩ := bind_ok h
  obtain ⟨referral, -, h⟩ := bind_ok h
  obtain ⟨manager, hmanager, h⟩ := bind_ok h
  obtain ⟨_, -, h⟩ := bind_ok h
  obtain ⟨_, -, h⟩ := bind_ok h
  obtain ⟨⟨⟩, hmint, h⟩ := bind_ok h
  obtain ⟨hleUser, hequser⟩ := checkedSub_eq_some (calculated_ok huser)
  obtain ⟨hleManager, heqmanager⟩ := checkedSub_eq_some (calculated_ok hmanager)
  exact ⟨minted, calculated_ok hminted, ⟨_, user, manager, referral, hmint, by omega⟩,
    creditDeposit_ok h⟩

theorem processDepositStake_ok {rt : PoolRuntime} {pool pool' : StakePool}
    (hpool : ∀ data, rt.stakePool data = .ok pool) {accounts : List AccountInfo}
    {minimum : Option Nat} {validators : List ValidatorStakeInfo}
    (h : processDepositStake rt accounts minimum = .ok (pool', validators)) :
    ∃ lamports minted, Deposited rt pool pool' lamports minted := by
  obtain ⟨ctx, -, h⟩ := bind_ok h
  obtain ⟨-, h⟩ := require_bind_ok h
  obtain ⟨pool₁, hload, h⟩ := bind_ok h
  rw [Except.ok.inj ((loadStakePool_ok hload).symm.trans (hpool _))] at h
  obtain ⟨_, -, h⟩ := bind_ok h
  obtain ⟨_, -, h⟩ := bind_ok h
  obtain ⟨_, -, h⟩ := bind_ok h
  obtain ⟨_, -, h⟩ := bind_ok h
  obtain ⟨_, -, h⟩ := bind_ok h
  obtain ⟨_, -, h⟩ := bind_ok h
  obtain ⟨-, h⟩ := require_bind_ok h
  obtain ⟨-, h⟩ := require_bind_ok h
  obtain ⟨-, h⟩ := require_bind_ok h
  obtain ⟨_, -, h⟩ := bind_ok h
  obtain ⟨⟨header, validators₁⟩, -, h⟩ := bind_ok h
  obtain ⟨-, h⟩ := require_bind_ok h
  obtain ⟨_, -, h⟩ := bind_ok h
  obtain ⟨validator, -, h⟩ := bind_ok h
  obtain ⟨_, -, h⟩ := bind_ok h
  obtain ⟨merged, -, h⟩ := bind_ok h
  obtain ⟨_, -, h⟩ := bind_ok h
  obtain ⟨lamports, -, h⟩ := bind_ok h
  obtain ⟨stakeLamports, -, h⟩ := bind_ok h
  obtain ⟨solLamports, -, h⟩ := bind_ok h
  obtain ⟨minted, hminted, h⟩ := bind_ok h
  obtain ⟨_, -, h⟩ := bind_ok h
  obtain ⟨_, -, h⟩ := bind_ok h
  obtain ⟨_, -, h⟩ := bind_ok h
  obtain ⟨_, -, h⟩ := bind_ok h
  obtain ⟨fee, -, h⟩ := bind_ok h
  obtain ⟨user, huser, h⟩ := bind_ok h
  obtain ⟨referral, -, h⟩ := bind_ok h
  obtain ⟨manager, hmanager, h⟩ := bind_ok h
  obtain ⟨_, -, h⟩ := bind_ok h
  obtain ⟨⟨⟩, hmint, h⟩ := bind_ok h
  have hcredit : creditDeposit pool minted lamports = .ok pool' := by
    change (if 0 < solLamports then _ else _) = _ at h
    split at h
    · obtain ⟨_, -, h⟩ := bind_ok h
      obtain ⟨pool₂, hcredit, h⟩ := bind_ok h
      rw [hcredit, (Prod.mk.inj (Except.ok.inj h)).1]
    · obtain ⟨_, -, h⟩ := bind_ok h
      obtain ⟨pool₂, hcredit, h⟩ := bind_ok h
      rw [hcredit, (Prod.mk.inj (Except.ok.inj h)).1]
  obtain ⟨hleUser, hequser⟩ := checkedSub_eq_some (calculated_ok huser)
  obtain ⟨hleManager, heqmanager⟩ := checkedSub_eq_some (calculated_ok hmanager)
  exact ⟨lamports, minted, calculated_ok hminted, ⟨_, user, manager, referral, hmint, by omega⟩,
    creditDeposit_ok hcredit⟩

/-- A withdrawal: the tokens it burns, and the lamports it pays, at most what they are worth. -/
structure Withdrawn (pool pool' : PoolAccount) (supply supply' burnt lamports : Nat) :
    Prop where
  worth : ∃ worth, pool.calcLamportsWithdrawAmount burnt = some worth ∧ lamports ≤ worth
  burnt_le : burnt ≤ pool.poolTokenSupply
  lamports_le : lamports ≤ pool.totalLamports
  supply_eq : supply' + burnt = supply
  pool_eq : pool' = { pool with
    poolTokenSupply := pool.poolTokenSupply - burnt
    totalLamports := pool.totalLamports - lamports }

theorem withdrawalParts_ok {pool : PoolAccount} {poolTokens fee : Nat} {minimum : Option Nat}
    {parts : WithdrawalParts} (h : withdrawalParts pool poolTokens fee minimum = .ok parts) :
    pool.calcLamportsWithdrawAmount parts.poolTokensBurnt = some parts.withdrawLamports := by
  obtain ⟨burnt, -, h⟩ := bind_ok h
  obtain ⟨lamports, hlamports, h⟩ := bind_ok h
  obtain ⟨-, h⟩ := require_bind_ok h
  obtain ⟨-, h⟩ := require_bind_ok h
  rw [← Except.ok.inj h]
  exact calculated_ok hlamports

theorem burnPoolTokens_ok {rt : WithdrawRuntime} {account mint authority : Pubkey}
    {amount supply supply' : Nat}
    (h : burnPoolTokens rt account mint authority amount supply = .ok supply') :
    supply' + amount = supply := by
  obtain ⟨_, -, h⟩ := bind_ok h
  obtain ⟨hle, rfl⟩ := checkedSub_eq_some (okOr_ok h)
  exact Nat.sub_add_cancel hle

theorem debitWithdrawal_ok {pool pool' : PoolAccount} {burnt lamports : Nat}
    (h : debitWithdrawal pool burnt lamports = .ok pool') :
    burnt ≤ pool.poolTokenSupply ∧ lamports ≤ pool.totalLamports ∧
      pool' = { pool with
        poolTokenSupply := pool.poolTokenSupply - burnt
        totalLamports := pool.totalLamports - lamports } := by
  obtain ⟨supply, hsupply, h⟩ := bind_ok h
  obtain ⟨total, htotal, h⟩ := bind_ok h
  obtain ⟨hleS, heqS⟩ := checkedSub_eq_some (calculated_ok hsupply)
  obtain ⟨hleL, heqL⟩ := checkedSub_eq_some (calculated_ok htotal)
  rw [heqS, heqL] at h
  exact ⟨hleS, hleL, (Except.ok.inj h).symm⟩

theorem processWithdrawSol_ok {rt : WithdrawRuntime} {pool pool' : PoolAccount}
    (hpool : ∀ data, rt.poolAccount data = .ok pool) {accounts : List AccountInfo}
    {poolTokens supply supply' : Nat} {minimum : Option Nat}
    (h : processWithdrawSol rt accounts poolTokens minimum supply = .ok (pool', supply')) :
    ∃ burnt lamports, Withdrawn pool pool' supply supply' burnt lamports := by
  obtain ⟨ctx, -, h⟩ := bind_ok h
  obtain ⟨pool₁, hload, h⟩ := bind_ok h
  rw [Except.ok.inj ((loadPoolAccount_ok hload).symm.trans (hpool _))] at h
  obtain ⟨_, -, h⟩ := bind_ok h
  obtain ⟨_, -, h⟩ := bind_ok h
  obtain ⟨_, -, h⟩ := bind_ok h
  obtain ⟨_, -, h⟩ := bind_ok h
  obtain ⟨-, h⟩ := require_bind_ok h
  obtain ⟨-, h⟩ := require_bind_ok h
  obtain ⟨-, h⟩ := require_bind_ok h
  obtain ⟨-, h⟩ := require_bind_ok h
  obtain ⟨fee, -, h⟩ := bind_ok h
  obtain ⟨parts, hparts, h⟩ := bind_ok h
  obtain ⟨_, -, h⟩ := bind_ok h
  obtain ⟨supply₁, hburn, h⟩ := bind_ok h
  obtain ⟨_, -, h⟩ := bind_ok h
  obtain ⟨_, -, h⟩ := bind_ok h
  obtain ⟨pool₂, hdebit, h⟩ := bind_ok h
  obtain ⟨hleS, hleL, heq⟩ := debitWithdrawal_ok hdebit
  have hsupply := burnPoolTokens_ok hburn
  have hresult := Prod.mk.inj (Except.ok.inj h)
  rw [hresult.1] at heq
  rw [hresult.2] at hsupply
  exact ⟨_, _, ⟨_, withdrawalParts_ok hparts, Nat.le_refl _⟩, hleS, hleL, hsupply, heq⟩

/-- A whole account gives no more than was asked for. -/
theorem splitLamports_le {source : StakeWithdrawSource}
    {withdrawLamports splitFrom required perToken lamports : Nat}
    (h : splitLamports source withdrawLamports splitFrom required perToken = .ok lamports) :
    lamports ≤ withdrawLamports := by
  cases source with
  | active =>
      obtain ⟨-, h⟩ := require_bind_ok h
      rw [Except.ok.inj h]
  | transient =>
      obtain ⟨-, h⟩ := require_bind_ok h
      rw [Except.ok.inj h]
  | validatorRemoval =>
      obtain ⟨hrange, h⟩ := require_bind_ok h
      rw [← Except.ok.inj h]
      exact hrange.1

theorem planSplit_le {rt : WithdrawRuntime} {pool : PoolAccount} {ctx : WithdrawStake}
    {validators : List ValidatorRecord} {withdrawLamports : Nat} {plan : SplitPlan}
    (h : planSplit rt pool ctx validators withdrawLamports = .ok plan) :
    plan.lamports ≤ withdrawLamports := by
  obtain ⟨_, -, h⟩ := bind_ok h
  obtain ⟨state, -, h⟩ := bind_ok h
  obtain ⟨info, -, h⟩ := bind_ok h
  obtain ⟨perToken, -, h⟩ := bind_ok h
  simp only at h
  split at h
  · obtain ⟨-, h⟩ := require_bind_ok h
    obtain ⟨_, -, h⟩ := bind_ok h
    rw [← Except.ok.inj h]
  · obtain ⟨_, -, h⟩ := bind_ok h
    obtain ⟨_, -, h⟩ := bind_ok h
    obtain ⟨_, -, h⟩ := bind_ok h
    obtain ⟨_, -, h⟩ := bind_ok h
    obtain ⟨-, h⟩ := require_bind_ok h
    obtain ⟨lamports, hlamports, h⟩ := bind_ok h
    rw [← Except.ok.inj h]
    exact splitLamports_le hlamports

theorem processWithdrawStake_ok {rt : WithdrawRuntime} {pool pool' : PoolAccount}
    (hpool : ∀ data, rt.poolAccount data = .ok pool) {accounts : List AccountInfo}
    {poolTokens supply supply' : Nat} {minimum : Option Nat} {validators : List ValidatorRecord}
    (h : processWithdrawStake rt accounts poolTokens minimum supply =
      .ok (pool', supply', validators)) :
    ∃ burnt lamports, Withdrawn pool pool' supply supply' burnt lamports := by
  obtain ⟨ctx, -, h⟩ := bind_ok h
  obtain ⟨-, h⟩ := require_bind_ok h
  obtain ⟨pool₁, hload, h⟩ := bind_ok h
  rw [Except.ok.inj ((loadPoolAccount_ok hload).symm.trans (hpool _))] at h
  obtain ⟨_, -, h⟩ := bind_ok h
  obtain ⟨_, -, h⟩ := bind_ok h
  obtain ⟨_, -, h⟩ := bind_ok h
  obtain ⟨-, h⟩ := require_bind_ok h
  obtain ⟨-, h⟩ := require_bind_ok h
  obtain ⟨-, h⟩ := require_bind_ok h
  obtain ⟨_, -, h⟩ := bind_ok h
  obtain ⟨⟨header, validators₁⟩, -, h⟩ := bind_ok h
  obtain ⟨-, h⟩ := require_bind_ok h
  obtain ⟨fee, -, h⟩ := bind_ok h
  obtain ⟨parts, hparts, h⟩ := bind_ok h
  obtain ⟨plan, hplan, h⟩ := bind_ok h
  obtain ⟨supply₁, hburn, h⟩ := bind_ok h
  obtain ⟨_, -, h⟩ := bind_ok h
  obtain ⟨_, -, h⟩ := bind_ok h
  obtain ⟨_, -, h⟩ := bind_ok h
  obtain ⟨pool₂, hdebit, h⟩ := bind_ok h
  obtain ⟨_, -, h⟩ := bind_ok h
  obtain ⟨hleS, hleL, heq⟩ := debitWithdrawal_ok hdebit
  have hsupply := burnPoolTokens_ok hburn
  have hresult := Prod.mk.inj (Except.ok.inj h)
  rw [hresult.1] at heq
  rw [(Prod.mk.inj hresult.2).1] at hsupply
  exact ⟨_, _, ⟨_, withdrawalParts_ok hparts, planSplit_le hplan⟩, hleS, hleL, hsupply, heq⟩

/-- An update: the lamports it observed, and the fee on what they gained. -/
structure Updated (pool pool' : PoolAccount) (supply supply' total fee epoch : Nat) : Prop where
  fee_eq : fee = 0 ∨ pool.calcEpochFeeAmount (total - pool.totalLamports) = some fee
  supply_eq : supply' = supply + fee
  pool_eq : pool' =
    { pool.nextEpoch epoch with totalLamports := total, poolTokenSupply := supply' }

theorem processUpdateStakePoolBalance_ok {rt : WithdrawRuntime} {pool pool' : PoolAccount}
    (hpool : ∀ data, rt.poolAccount data = .ok pool) {accounts : List AccountInfo}
    {supply supply' : Nat}
    (h : processUpdateStakePoolBalance rt accounts supply = .ok (pool', supply')) :
    ∃ total fee, Updated pool pool' supply supply' total fee rt.epoch := by
  obtain ⟨ctx, -, h⟩ := bind_ok h
  obtain ⟨pool₁, hload, h⟩ := bind_ok h
  rw [Except.ok.inj ((loadPoolAccount_ok hload).symm.trans (hpool _))] at h
  obtain ⟨_, -, h⟩ := bind_ok h
  obtain ⟨_, -, h⟩ := bind_ok h
  obtain ⟨_, -, h⟩ := bind_ok h
  obtain ⟨-, h⟩ := require_bind_ok h
  obtain ⟨-, h⟩ := require_bind_ok h
  obtain ⟨-, h⟩ := require_bind_ok h
  obtain ⟨_, -, h⟩ := bind_ok h
  obtain ⟨⟨header, validators⟩, -, h⟩ := bind_ok h
  obtain ⟨-, h⟩ := require_bind_ok h
  obtain ⟨reserve, -, h⟩ := bind_ok h
  obtain ⟨total, -, h⟩ := bind_ok h
  obtain ⟨fee, hfee, h⟩ := bind_ok h
  obtain ⟨supply₁, hmint, h⟩ := bind_ok h
  have hresult := Prod.mk.inj (Except.ok.inj h)
  refine ⟨total, fee, ?_, ?_, ?_⟩
  · unfold epochFee at hfee
    split at hfee
    · exact Or.inr (calculated_ok hfee)
    · exact Or.inl (Except.ok.inj hfee).symm
  · rw [← hresult.2]
    unfold mintEpochFee at hmint
    split at hmint
    · obtain ⟨_, -, hmint⟩ := bind_ok hmint
      exact checkedAdd_eq_some (okOr_ok hmint)
    · rename_i hzero
      rw [← Except.ok.inj hmint, Nat.eq_zero_of_not_pos hzero, Nat.add_zero]
  · rw [← hresult.1, hresult.2]

/-! ## The price -/

/-- The price of a pool token has not fallen. -/
def StakePoolState.PriceKept (s s' : StakePoolState) : Prop :=
  Lib.PriceKept s.pool.totalLamports s.pool.poolTokenSupply s'.pool.totalLamports
    s'.pool.poolTokenSupply

theorem Deposited.priceKept {rt : PoolRuntime} {pool pool' : StakePool} {lamports minted : Nat}
    (h : Deposited rt pool pool' lamports minted) (hL : 0 < pool.totalLamports)
    (hS : 0 < pool.poolTokenSupply) :
    PriceKept pool.totalLamports pool.poolTokenSupply pool'.totalLamports
      pool'.poolTokenSupply := by
  rw [h.pool_eq]
  exact priceKept_deposit_iff.mpr (calcPoolTokensForDeposit_le hL hS h.minted_eq)

theorem Withdrawn.priceKept {pool pool' : PoolAccount} {supply supply' burnt lamports : Nat}
    (h : Withdrawn pool pool' supply supply' burnt lamports) :
    PriceKept pool.totalLamports pool.poolTokenSupply pool'.totalLamports
      pool'.poolTokenSupply := by
  obtain ⟨worth, hworth, hle⟩ := h.worth
  rw [h.pool_eq]
  refine (priceKept_withdraw_iff h.lamports_le h.burnt_le).mpr ?_
  exact le_trans (Nat.mul_le_mul_right _ hle) (calcLamportsWithdrawAmount_le hworth)

/-- Every value that waits is one of these. -/
def FutureEpoch.All {α : Type} (P : α → Prop) : FutureEpoch α → Prop
  | .none => True
  | .one value => P value
  | .two value => P value

/-- The epoch fee is at most a hundred percent, now and next. -/
structure PoolAccount.FeeBounded (pool : PoolAccount) : Prop where
  now : pool.epochFee.AtMostAll
  next : pool.nextEpochFee.All Fee.AtMostAll

theorem PoolAccount.FeeBounded.nextEpoch {pool : PoolAccount} (h : pool.FeeBounded)
    (epoch : Nat) : (pool.nextEpoch epoch).FeeBounded := by
  unfold PoolAccount.nextEpoch
  split
  · obtain ⟨hnow, hnext⟩ := h
    cases hfuture : pool.nextEpochFee with
    | none => exact ⟨hnow, trivial⟩
    | one value =>
        rw [hfuture] at hnext
        exact ⟨hnext, trivial⟩
    | two value =>
        rw [hfuture] at hnext
        exact ⟨hnow, hnext⟩
  · exact h

/-- What a run needs: something on both sides, a mint that has issued no more than the pool
    knows of, and an epoch fee within bounds. -/
structure StakePoolState.Sound (s : StakePoolState) : Prop where
  lamports : 0 < s.pool.totalLamports
  supply : 0 < s.pool.poolTokenSupply
  mint : s.mintSupply ≤ s.pool.poolTokenSupply
  fee : s.pool.FeeBounded

def StakePoolInstruction.IsUpdate : StakePoolInstruction → Prop
  | .updateStakePoolBalance _ => True
  | _ => False

theorem deposited_ok {s s' : StakePoolState} {pool : StakePool}
    (h : s.deposited pool = .ok s') :
    s'.pool = { s.pool with toStakePool := pool } ∧
      s'.mintSupply = s.mintSupply + (pool.poolTokenSupply - s.pool.poolTokenSupply) := by
  obtain ⟨supply, hsupply, h⟩ := bind_ok h
  rw [← Except.ok.inj h]
  exact ⟨rfl, checkedAdd_eq_some (okOr_ok hsupply)⟩

/-- A deposit keeps the price, the mint and the fees. -/
theorem deposit_step {s s' : StakePoolState} {rt : PoolRuntime} {pool : StakePool}
    {lamports minted : Nat} (hs : s.Sound)
    (hdeposited : Deposited rt s.pool.toStakePool pool lamports minted)
    (h : s.deposited pool = .ok s') :
    s.PriceKept s' ∧ s'.mintSupply ≤ s'.pool.poolTokenSupply ∧ s'.pool.FeeBounded := by
  obtain ⟨hpool, hmint⟩ := deposited_ok h
  have hprice := hdeposited.priceKept hs.lamports hs.supply
  have hsupply : pool.poolTokenSupply = s.pool.poolTokenSupply + minted := by
    rw [hdeposited.pool_eq]
  have hle := hs.mint
  unfold StakePoolState.PriceKept
  rw [hpool]
  refine ⟨hprice, ?_, ⟨hs.fee.now, hs.fee.next⟩⟩
  rw [hmint]
  show _ ≤ pool.poolTokenSupply
  omega

/-- A withdrawal keeps the price, the mint and the fees. -/
theorem withdrawal_step {s s' : StakePoolState} {burnt lamports : Nat} (hs : s.Sound)
    (h : Withdrawn s.pool s'.pool s.mintSupply s'.mintSupply burnt lamports) :
    s.PriceKept s' ∧ s'.mintSupply ≤ s'.pool.poolTokenSupply ∧ s'.pool.FeeBounded := by
  refine ⟨h.priceKept, ?_, ?_⟩
  · have hmint := hs.mint
    have hsupply := h.supply_eq
    rw [h.pool_eq]
    show s'.mintSupply ≤ s.pool.poolTokenSupply - burnt
    omega
  · rw [h.pool_eq]
    exact ⟨hs.fee.now, hs.fee.next⟩

/-- So does an update that observes no loss. -/
theorem update_step {s s' : StakePoolState} {total fee epoch : Nat} (hs : s.Sound)
    (hloss : s.pool.totalLamports ≤ s'.pool.totalLamports)
    (h : Updated s.pool s'.pool s.mintSupply s'.mintSupply total fee epoch) :
    s.PriceKept s' ∧ s'.mintSupply ≤ s'.pool.poolTokenSupply ∧ s'.pool.FeeBounded := by
  have hmint := hs.mint
  have htotal : s'.pool.totalLamports = total := by rw [h.pool_eq]
  have hsupply : s'.pool.poolTokenSupply = s.mintSupply + fee := by
    rw [h.pool_eq]
    exact h.supply_eq
  rw [htotal] at hloss
  refine ⟨?_, ?_, ?_⟩
  · unfold StakePoolState.PriceKept
    rw [htotal, hsupply]
    have hreward : s.pool.totalLamports + (total - s.pool.totalLamports) = total := by omega
    have hprice : PriceKept s.pool.totalLamports s.pool.poolTokenSupply total
        (s.pool.poolTokenSupply + fee) := by
      rcases h.fee_eq with rfl | hfee
      · exact Nat.mul_le_mul_right _ hloss
      · rw [← hreward]
        exact calcEpochFeeAmount_kept hs.lamports hs.supply hs.fee.now hfee
    exact hprice.of_le (by omega)
  · rw [hsupply, h.supply_eq]
  · rw [h.pool_eq]
    have hnext := hs.fee.nextEpoch epoch
    exact ⟨hnext.now, hnext.next⟩

/-- **STEP.** No instruction lowers the price, an update with a loss apart. -/
theorem stakePool_step {s s' : StakePoolState} {call : StakePoolCall} (hs : s.Sound)
    (h : s.step call = .ok s')
    (hloss : call.instruction.IsUpdate → s.pool.totalLamports ≤ s'.pool.totalLamports) :
    s.PriceKept s' ∧ s'.mintSupply ≤ s'.pool.poolTokenSupply ∧ s'.pool.FeeBounded := by
  unfold StakePoolState.step at h
  cases hcall : call.instruction with
  | depositSol accounts lamports minimum =>
      rw [hcall] at h
      obtain ⟨pool, hpool, h⟩ := bind_ok h
      obtain ⟨minted, hdeposited⟩ := processDepositSol_ok (fun _ => rfl) hpool
      exact deposit_step hs hdeposited h
  | depositStake accounts minimum =>
      rw [hcall] at h
      obtain ⟨⟨pool, validators⟩, hpool, h⟩ := bind_ok h
      obtain ⟨lamports, minted, hdeposited⟩ := processDepositStake_ok (fun _ => rfl) hpool
      exact deposit_step hs hdeposited h
  | withdrawSol accounts poolTokens minimum =>
      rw [hcall] at h
      obtain ⟨⟨pool, supply⟩, hpool, h⟩ := bind_ok h
      obtain ⟨burnt, lamports, hwithdrawn⟩ := processWithdrawSol_ok (fun _ => rfl) hpool
      rw [← Except.ok.inj h]
      exact withdrawal_step hs hwithdrawn
  | withdrawStake accounts poolTokens minimum =>
      rw [hcall] at h
      obtain ⟨⟨pool, supply, validators⟩, hpool, h⟩ := bind_ok h
      obtain ⟨burnt, lamports, hwithdrawn⟩ := processWithdrawStake_ok (fun _ => rfl) hpool
      rw [← Except.ok.inj h]
      exact withdrawal_step hs hwithdrawn
  | updateStakePoolBalance accounts =>
      rw [hcall] at h hloss
      obtain ⟨⟨pool, supply⟩, hpool, h⟩ := bind_ok h
      obtain ⟨total, fee, hupdated⟩ := processUpdateStakePoolBalance_ok (fun _ => rfl) hpool
      rw [← Except.ok.inj h] at hloss ⊢
      exact update_step hs (hloss trivial) hupdated

/-! ## Runs -/

/-- The lamports that a step pays into the pool. -/
def paidIn : Transition StakePoolState StakePoolCall → Nat :=
  Transition.gain fun s => s.pool.totalLamports

/-- The lamports that it pays out. -/
def paidOut : Transition StakePoolState StakePoolCall → Nat :=
  Transition.loss fun s => s.pool.totalLamports

/-- The pool tokens that a step mints. -/
def minted : Transition StakePoolState StakePoolCall → Nat :=
  Transition.gain fun s => s.pool.poolTokenSupply

/-- The pool tokens that it burns. -/
def burnt : Transition StakePoolState StakePoolCall → Nat :=
  Transition.loss fun s => s.pool.poolTokenSupply

section

variable {start final : StakePoolState} {history : List (Transition StakePoolState StakePoolCall)}

/-- The price rises from its start, and the pool stays sound. -/
theorem stakePool_run (hrun : Run StakePoolState.step start history final) (hstart : start.Sound)
    (hsteps : ∀ t ∈ history, 0 < t.post.pool.poolTokenSupply ∧
      (t.call.instruction.IsUpdate → t.pre.pool.totalLamports ≤ t.post.pool.totalLamports)) :
    ∀ t ∈ history, start.PriceKept t.post ∧ t.post.Sound := by
  refine hrun.forall_post (P := fun s => start.PriceKept s ∧ s.Sound) ⟨PriceKept.refl _ _, hstart⟩
    ?_ hsteps
  rintro s call s' ⟨hkept, hs⟩ hstep ⟨hsupply, hloss⟩
  obtain ⟨hprice, hmint, hfee⟩ := stakePool_step hs hstep hloss
  have hkept' : start.PriceKept s' := PriceKept.trans hkept hprice hs.supply
  refine ⟨hkept', ?_, hsupply, hmint, hfee⟩
  -- what is held in shares that are there is there itself
  refine Nat.pos_of_ne_zero ?_
  intro hzero
  have hle : s.pool.totalLamports * s'.pool.poolTokenSupply ≤ 0 := by
    have hle := hprice
    rwa [StakePoolState.PriceKept, PriceKept, hzero, Nat.zero_mul] at hle
  exact absurd hle (Nat.not_le_of_lt (Nat.mul_pos hs.lamports hsupply))

/-- A run that ends with no fewer pool tokens ends with no fewer lamports. -/
theorem lamports_le_of_priceKept (hkept : start.PriceKept final)
    (hsupply : 0 < start.pool.poolTokenSupply)
    (hle : start.pool.poolTokenSupply ≤ final.pool.poolTokenSupply) :
    start.pool.totalLamports ≤ final.pool.totalLamports :=
  Nat.le_of_mul_le_mul_right (le_trans (Nat.mul_le_mul_left _ hle) hkept) hsupply

/-- **PRICE OF A POOL TOKEN.** No step of a run without losses lowers it from its start.  And
    where the run burns no more pool tokens than it mints, it pays out no more lamports than come
    in, by deposits and as rewards. -/
theorem poolTokenPrice_kept (hrun : Run StakePoolState.step start history final)
    (hstart : start.Sound)
    (hsteps : ∀ t ∈ history, 0 < t.post.pool.poolTokenSupply ∧
      (t.call.instruction.IsUpdate → t.pre.pool.totalLamports ≤ t.post.pool.totalLamports)) :
    (∀ t ∈ history, start.PriceKept t.post) ∧
      ((history.map burnt).sum ≤ (history.map minted).sum →
        (history.map paidOut).sum ≤ (history.map paidIn).sum) := by
  have hall := stakePool_run hrun hstart hsteps
  refine ⟨fun t ht => (hall t ht).1, ?_⟩
  intro hburnt
  have hkept : start.PriceKept final :=
    hrun.at_end (P := fun s => start.PriceKept s) (PriceKept.refl _ _) (fun t ht => (hall t ht).1)
  have htokens := hrun.sum_gain fun s => s.pool.poolTokenSupply
  have hlamports := hrun.sum_gain fun s => s.pool.totalLamports
  have hle := lamports_le_of_priceKept hkept hstart.supply (by
    change _ + (history.map minted).sum = _ + (history.map burnt).sum at htokens
    omega)
  change _ + (history.map paidIn).sum = _ + (history.map paidOut).sum at hlamports
  omega

end

/-- A deposit and a later withdrawal of no more tokens than it minted, without an update in
    between, that pays more than was paid in. -/
def GainsByRoundTrip (history : List (Transition StakePoolState StakePoolCall)) : Prop :=
  ∃ later between earlier deposit withdrawal,
    history = later ++ withdrawal :: (between ++ deposit :: earlier) ∧
      (∀ t ∈ between, ¬t.call.instruction.IsUpdate) ∧ burnt withdrawal ≤ minted deposit ∧
      paidIn deposit < paidOut withdrawal

/-! ## Rounding for another -/

namespace RoundTrip

def key (n : UInt8) : Pubkey := Vector.replicate 32 n

def noFee : Fee := ⟨0, 0⟩

/-- A thousand lamports for one pool token. -/
def pool : PoolAccount where
  accountType := .stakePool
  stakeDepositAuthority := key 4
  stakeWithdrawBumpSeed := 255
  validatorList := key 7
  reserveStake := key 8
  poolMint := key 9
  managerFeeAccount := key 10
  tokenProgramId := key 11
  totalLamports := 1000
  poolTokenSupply := 1
  lastUpdateEpoch := 500
  preferredDepositValidatorVoteAddress := none
  stakeDepositFee := noFee
  stakeReferralFee := 0
  solDepositAuthority := none
  solDepositFee := noFee
  solReferralFee := 0
  depositPolicy := none
  epochFee := noFee
  nextEpochFee := .none
  preferredWithdrawValidatorVoteAddress := none
  stakeWithdrawalFee := noFee
  nextStakeWithdrawalFee := .none
  solWithdrawAuthority := none
  solWithdrawalFee := noFee
  nextSolWithdrawalFee := .none
  lastEpochPoolTokenSupply := 1
  lastEpochTotalLamports := 1000

/-- Only the reserve is read, and holds nothing back; all calls succeed. -/
def runtime : WithdrawRuntime where
  programId := key 1
  unixTimestamp := 1700000000
  epoch := 500
  clockEpoch _ := .ok 500
  createProgramAddress _ _ := some (key 3)
  findProgramAddress _ _ := (key 4, 255)
  stakePool _ := .error .invalidAccountData
  validatorList _ := .error .invalidAccountData
  mintDecimals _ := .ok 9
  stakeState _ := .error .invalidAccountData
  stakeAuthorize _ _ _ _ := .ok ()
  stakeMerge _ destination _ := .ok destination
  stakeWithdraw source _ _ lamports :=
    .ok { source with lamports := source.lamports - lamports }
  solTransfer _ _ _ := .ok ()
  tokenMintTo _ _ _ _ := .ok ()
  poolAccount _ := .error .invalidAccountData
  validatorRecords _ := .error .invalidAccountData
  stakeStateV2 _ := .ok (.initialized ⟨0⟩)
  feeTokenAccount data := if data = [1] then .ok ⟨key 9, true, true⟩ else .error .invalidAccountData
  minimumDelegation := .ok 0
  tokenBurn _ _ _ _ := .ok ()
  tokenTransfer _ _ _ _ _ _ := .ok ()
  stakeSplit _ _ _ _ := .ok ()

def account (n : UInt8) (lamports : Nat) (owner : Pubkey) (data : List UInt8) : AccountInfo where
  key := key n
  isSigner := false
  lamports := lamports
  owner := owner
  data := data

/-- The fee account of the manager. -/
def managerFee : AccountInfo := account 10 0 (key 11) [1]

/-- A deposit from the account of a user, for his account of pool tokens. -/
def deposit (user tokens : UInt8) (lamports : Nat) : StakePoolCall where
  rt := runtime
  instruction := .depositSol
    [account 22 0 (key 1) [], account 3 0 (key 0) [], account 8 1000 stakeProgramId [],
      account user lamports (key 0) [], account tokens 0 (key 11) [], managerFee, managerFee,
      account 9 0 (key 11) [], { account 0 0 (key 0) [] with key := systemProgramId },
      account 11 0 (key 0) []] lamports none

/-- A withdrawal from his account of pool tokens. -/
def withdrawal (user tokens : UInt8) (poolTokens : Nat) : StakePoolCall where
  rt := runtime
  instruction := .withdrawSol
    [account 22 0 (key 1) [], account 3 0 (key 0) [], account user 0 (key 0) [],
      account tokens 0 (key 11) [], account 8 3999 stakeProgramId [], account user 0 (key 0) [],
      managerFee, account 9 0 (key 11) [], account 25 0 (key 0) [], account 26 0 (key 0) [],
      { account 0 0 (key 0) [] with key := stakeProgramId }, account 11 0 (key 0) []]
    poolTokens none

def after (s : StakePoolState) (call : StakePoolCall) : StakePoolState :=
  afterCall StakePoolState.step s call

def start : StakePoolState := ⟨pool, 1⟩

/-- User 100 pays a thousand lamports for a token. -/
def first : StakePoolState := after start (deposit 100 120 1000)

/-- User 101 pays almost two thousand for another. -/
def second : StakePoolState := after first (deposit 101 121 1999)

/-- User 100 gives his token back. -/
def third : StakePoolState := after second (withdrawal 100 120 1)

/-- The three calls in one evaluation: they succeed, and leave these amounts. -/
theorem computed :
    ((start.step (deposit 100 120 1000)).isOk = true ∧
      (first.step (deposit 101 121 1999)).isOk = true ∧
      (second.step (withdrawal 100 120 1)).isOk = true) ∧
    first.pool.totalLamports = 2000 ∧ first.pool.poolTokenSupply = 2 ∧
    second.pool.totalLamports = 3999 ∧ second.pool.poolTokenSupply = 3 ∧
    third.pool.totalLamports = 2666 ∧ third.pool.poolTokenSupply = 2 := by decide +kernel

/-- The steps of the run. -/
def bought : Transition StakePoolState StakePoolCall := ⟨start, deposit 100 120 1000, first⟩

def boughtMore : Transition StakePoolState StakePoolCall := ⟨first, deposit 101 121 1999, second⟩

def sold : Transition StakePoolState StakePoolCall := ⟨second, withdrawal 100 120 1, third⟩

theorem run_first : Run StakePoolState.step start [bought] first :=
  Run.init.step (step_afterCall computed.1.1)

theorem run_second : Run StakePoolState.step start [boughtMore, bought] second :=
  run_first.step (step_afterCall computed.1.2.1)

theorem run_third : Run StakePoolState.step start [sold, boughtMore, bought] third :=
  run_second.step (step_afterCall computed.1.2.2)

/-- What a step between known amounts moves. -/
theorem moved {t : Transition StakePoolState StakePoolCall} {lamports supply lamports' supply' : ℕ}
    (hlamports : t.pre.pool.totalLamports = lamports)
    (hsupply : t.pre.pool.poolTokenSupply = supply)
    (hlamports' : t.post.pool.totalLamports = lamports')
    (hsupply' : t.post.pool.poolTokenSupply = supply') :
    (minted t = supply' - supply ∧ burnt t = supply - supply') ∧
      paidIn t = lamports' - lamports ∧ paidOut t = lamports - lamports' := by
  subst hlamports hsupply hlamports' hsupply'
  exact ⟨⟨rfl, rfl⟩, rfl, rfl⟩

theorem bought_moved : (minted bought = 2 - 1 ∧ burnt bought = 1 - 2) ∧
    paidIn bought = 2000 - 1000 ∧ paidOut bought = 1000 - 2000 :=
  moved (t := bought) rfl rfl computed.2.1 computed.2.2.1

theorem boughtMore_moved : (minted boughtMore = 3 - 2 ∧ burnt boughtMore = 2 - 3) ∧
    paidIn boughtMore = 3999 - 2000 ∧ paidOut boughtMore = 2000 - 3999 :=
  moved (t := boughtMore) computed.2.1 computed.2.2.1 computed.2.2.2.1 computed.2.2.2.2.1

theorem sold_moved : (minted sold = 2 - 3 ∧ burnt sold = 3 - 2) ∧
    paidIn sold = 2666 - 3999 ∧ paidOut sold = 3999 - 2666 :=
  moved (t := sold) computed.2.2.2.1 computed.2.2.2.2.1 computed.2.2.2.2.2.1
    computed.2.2.2.2.2.2

theorem start_sound : start.Sound where
  lamports := by decide
  supply := by decide
  mint := Nat.le_refl 1
  fee := ⟨Nat.le_refl 0, trivial⟩

theorem no_updates : ∀ t ∈ [sold, boughtMore, bought],
    0 < t.post.pool.poolTokenSupply ∧ ¬t.call.instruction.IsUpdate := by
  obtain ⟨-, -, hfirst, -, hsecond, -, hthird⟩ := computed
  intro t ht
  rcases List.mem_cons.mp ht with rfl | ht
  · exact ⟨lt_of_lt_of_eq (Nat.succ_pos 1) hthird.symm, fun h => h⟩
  rcases List.mem_cons.mp ht with rfl | ht
  · exact ⟨lt_of_lt_of_eq (Nat.succ_pos 2) hsecond.symm, fun h => h⟩
  rw [List.mem_singleton.mp ht]
  exact ⟨lt_of_lt_of_eq (Nat.succ_pos 1) hfirst.symm, fun h => h⟩

end RoundTrip

/-- The two users together get no more than they paid. -/
theorem poolTokenPrice_kept_sample :
    RoundTrip.start.PriceKept RoundTrip.third ∧
      paidOut ⟨RoundTrip.second, RoundTrip.withdrawal 100 120 1, RoundTrip.third⟩ ≤
        paidIn ⟨RoundTrip.first, RoundTrip.deposit 101 121 1999, RoundTrip.second⟩ +
          paidIn ⟨RoundTrip.start, RoundTrip.deposit 100 120 1000, RoundTrip.first⟩ := by
  obtain ⟨⟨hminted, hburnt⟩, -, -⟩ := RoundTrip.bought_moved
  obtain ⟨⟨hminted', hburnt'⟩, -, -⟩ := RoundTrip.boughtMore_moved
  obtain ⟨⟨hminted'', hburnt''⟩, hin, -⟩ := RoundTrip.sold_moved
  obtain ⟨hkept, hsums⟩ := poolTokenPrice_kept RoundTrip.run_third RoundTrip.start_sound
    (fun t ht => ⟨(RoundTrip.no_updates t ht).1,
      fun hupdate => absurd hupdate (RoundTrip.no_updates t ht).2⟩)
  refine ⟨hkept _ List.mem_cons_self, ?_⟩
  simp only [List.map_cons, List.map_nil, List.sum_cons, List.sum_nil, hminted, hburnt, hminted',
    hburnt', hminted'', hburnt'', hin] at hsums
  have hpaid := hsums (by decide)
  show paidOut RoundTrip.sold ≤ paidIn RoundTrip.boughtMore + paidIn RoundTrip.bought
  omega

/-- **ANOTHER'S ROUNDING**: 1000 lamports buy one token, another user's 1999 buy one more, and the
    first token is paid out with 1333. -/
theorem round_trip_gains :
    ∃ start final history, start.Sound ∧ Run StakePoolState.step start history final ∧
      (∀ t ∈ history, 0 < t.post.pool.poolTokenSupply ∧ ¬t.call.instruction.IsUpdate) ∧
      GainsByRoundTrip history := by
  obtain ⟨⟨hminted, -⟩, hin, -⟩ := RoundTrip.bought_moved
  obtain ⟨⟨-, hburnt⟩, -, hout⟩ := RoundTrip.sold_moved
  refine ⟨_, _, _, RoundTrip.start_sound, RoundTrip.run_third, RoundTrip.no_updates, [],
    [RoundTrip.boughtMore], [], RoundTrip.bought, RoundTrip.sold, rfl, ?_, ?_, ?_⟩
  · intro t ht
    rw [List.mem_singleton.mp ht]
    exact fun h => h
  · exact hburnt.trans_le hminted.ge
  · rw [hin, hout]
    decide

end Albus.Integration
