import Albus.Integration.StakePoolShares

/-! # The fees of the stake pool, and how fast they may rise

    `programs/albus-stake-pool`: `SetFee`, and the check that a withdrawal fee is at most
    one and a half times the one before.  The two sides of the comparison are products that
    need not fit, and one that does not is `None`, which is below every other.  On the
    side of the old fee that refuses; on the side of the new one it lets anything pass
    (`checkWithdrawal_caps_iff`). -/

namespace Albus.Integration

open Albus.Lib Albus.Program

/-! ## The check -/

/-- `MAX_WITHDRAWAL_FEE_INCREASE` -/
def maxWithdrawalFeeIncrease : Fee where
  numerator := 3
  denominator := 2

/-- `WITHDRAWAL_BASELINE_FEE` -/
def withdrawalBaselineFee : Fee where
  numerator := 1
  denominator := 1000

/-- `ok_or(StakePoolError::CalculationFailure)`, before the error is converted. -/
def orCalculationFailure {α : Type} : Option α → Except StakePoolError α
  | some a => .ok a
  | none => .error .calculationFailure

namespace Fee

/-- What the increase is measured from. -/
def base (oldWithdrawalFee : Fee) : Fee :=
  if oldWithdrawalFee.denominator = 0 ∨ oldWithdrawalFee.numerator = 0 then withdrawalBaselineFee
  else oldWithdrawalFee

/-- The order of options that `<` is derived with: `None` is the least. -/
def below (a b : Option Nat) : Prop := Option.lt (fun x y => x < y) a b

instance : DecidableRel below := inferInstanceAs (DecidableRel (Option.lt fun x y : Nat => x < y))

/-- `check_withdrawal`.  The last factor is checked inside `map`, so its failure is a value
    of the comparison and not an error. -/
def checkWithdrawal (fee oldWithdrawalFee : Fee) : Except StakePoolError Unit := do
  let allowed ← orCalculationFailure
    ((checkedMul 128 oldWithdrawalFee.base.numerator fee.denominator).map
      fun x => checkedMul 128 x maxWithdrawalFeeIncrease.numerator)
  let proposed ← orCalculationFailure
    ((checkedMul 128 fee.numerator oldWithdrawalFee.base.denominator).map
      fun x => checkedMul 128 x maxWithdrawalFeeIncrease.denominator)
  if below allowed proposed then .error .feeIncreaseTooHigh else .ok ()

end Fee

/-- `FeeType` -/
inductive FeeType where
  | solReferral (percentage : UInt8)
  | stakeReferral (percentage : UInt8)
  | epoch (fee : Fee)
  | stakeWithdrawal (fee : Fee)
  | solDeposit (fee : Fee)
  | stakeDeposit (fee : Fee)
  | solWithdrawal (fee : Fee)

namespace FeeType

def tooHigh : FeeType → Bool
  | .solReferral pct => 100 < pct
  | .stakeReferral pct => 100 < pct
  | .epoch fee => fee.denominator < fee.numerator
  | .stakeWithdrawal fee => fee.denominator < fee.numerator
  | .solWithdrawal fee => fee.denominator < fee.numerator
  | .solDeposit fee => fee.denominator < fee.numerator
  | .stakeDeposit fee => fee.denominator < fee.numerator

/-- `check_too_high` -/
def checkTooHigh (fee : FeeType) : Except StakePoolError Unit :=
  if fee.tooHigh = true then .error .feeTooHigh else .ok ()

/-- `can_only_change_next_epoch` -/
def canOnlyChangeNextEpoch : FeeType → Bool
  | .stakeWithdrawal _ => true
  | .solWithdrawal _ => true
  | .epoch _ => true
  | _ => false

end FeeType

/-- `FutureEpoch::new`: unlocked in two epochs. -/
def FutureEpoch.new {α : Type} (value : α) : FutureEpoch α := .two value

/-- `update_fee` -/
def PoolAccount.updateFee (pool : PoolAccount) : FeeType → Except StakePoolError PoolAccount
  | .solReferral newFee => .ok { pool with solReferralFee := newFee }
  | .stakeReferral newFee => .ok { pool with stakeReferralFee := newFee }
  | .epoch newFee => .ok { pool with nextEpochFee := FutureEpoch.new newFee }
  | .stakeWithdrawal newFee => do
      newFee.checkWithdrawal pool.stakeWithdrawalFee
      .ok { pool with nextStakeWithdrawalFee := FutureEpoch.new newFee }
  | .solWithdrawal newFee => do
      newFee.checkWithdrawal pool.solWithdrawalFee
      .ok { pool with nextSolWithdrawalFee := FutureEpoch.new newFee }
  | .solDeposit newFee => .ok { pool with solDepositFee := newFee }
  | .stakeDeposit newFee => .ok { pool with stakeDepositFee := newFee }

/-- `check_manager`, with the pool's manager. -/
def checkManager (manager : Pubkey) (managerInfo : AccountInfo) : Except ProgramError Unit := do
  require (managerInfo.key = manager) StakePoolError.wrongManager.into
  require (managerInfo.isSigner = true) StakePoolError.signatureMissing.into

/-- `process_set_fee`, with the pool's manager. -/
def processSetFee (rt : WithdrawRuntime) (manager : Pubkey) (accounts : List AccountInfo)
    (fee : FeeType) : Except ProgramError PoolAccount := do
  let stakePoolInfo ← nextAccountInfo accounts
  let managerInfo ← nextAccountInfo accounts.tail
  let pool ← loadPoolAccount rt stakePoolInfo
  checkManager manager managerInfo
  require (¬(fee.canOnlyChangeNextEpoch = true ∧ pool.lastUpdateEpoch < rt.epoch))
    StakePoolError.stakeListAndPoolOutOfDate.into
  fee.checkTooHigh.mapError StakePoolError.into
  (pool.updateFee fee).mapError StakePoolError.into

/-! ## What the check is for -/

namespace Fee

/-- Both parts are words of 64 bits. -/
structure IsU64 (f : Fee) : Prop where
  numerator_lt : f.numerator < 2 ^ 64
  denominator_lt : f.denominator < 2 ^ 64

/-- At most one and a half times the old fee. -/
def Capped (old new : Fee) : Prop :=
  new.numerator * old.base.denominator * 2 ≤ old.base.numerator * new.denominator * 3

/-- A product of the check is too large for a word of 128 bits. -/
def Overflows (old new : Fee) : Prop :=
  ∃ product ∈ [old.base.numerator * new.denominator, old.base.numerator * new.denominator * 3,
    new.numerator * old.base.denominator, new.numerator * old.base.denominator * 2],
    2 ^ 128 ≤ product

/-- The side of the new fee fits. -/
def Fits (old new : Fee) : Prop := new.numerator * old.base.denominator * 2 < 2 ^ 128

instance (old new : Fee) : Decidable (Capped old new) := inferInstanceAs (Decidable (_ ≤ _))

instance (old new : Fee) : Decidable (Fits old new) := inferInstanceAs (Decidable (_ < _))

/-- The check passes no fee above the cap, and none whose products overflow. -/
def CheckCaps (old new : Fee) : Prop :=
  (new.checkWithdrawal old = .ok () → Capped old new) ∧
    (Overflows old new → ∃ e, new.checkWithdrawal old = .error e)

theorem IsU64.base {old : Fee} (h : old.IsU64) : old.base.IsU64 := by
  unfold Fee.base
  split
  · exact ⟨by decide, by decide⟩
  · exact h

theorem u64_mul_lt {a b : Nat} (ha : a < 2 ^ 64) (hb : b < 2 ^ 64) : a * b < 2 ^ 128 :=
  calc a * b < 2 ^ 64 * 2 ^ 64 := Nat.mul_lt_mul'' ha hb
    _ = 2 ^ 128 := by rw [← Nat.pow_add]

theorem not_below_none {a : Option Nat} : ¬below a none := by
  cases a <;> exact fun h => h

theorem none_below_some {b : Nat} : below none (some b) := trivial

theorem some_below_some {a b : Nat} : below (some a) (some b) ↔ a < b := Iff.rfl

/-- The first products fit, so the check is a comparison. -/
theorem checkWithdrawal_eq {old new : Fee} (hold : old.IsU64) (hnew : new.IsU64) :
    new.checkWithdrawal old =
      if below (checkedMul 128 (old.base.numerator * new.denominator) 3)
          (checkedMul 128 (new.numerator * old.base.denominator) 2)
      then .error .feeIncreaseTooHigh else .ok () := by
  have hbase := hold.base
  have hallowed : checkedMul 128 old.base.numerator new.denominator
      = some (old.base.numerator * new.denominator) :=
    if_pos (u64_mul_lt hbase.numerator_lt hnew.denominator_lt)
  have hproposed : checkedMul 128 new.numerator old.base.denominator
      = some (new.numerator * old.base.denominator) :=
    if_pos (u64_mul_lt hnew.numerator_lt hbase.denominator_lt)
  rw [checkWithdrawal, hallowed, hproposed]
  rfl

/-- A side of the new fee that does not fit is below every old one. -/
theorem checkWithdrawal_of_not_fits {old new : Fee} (hold : old.IsU64) (hnew : new.IsU64)
    (h : ¬Fits old new) : new.checkWithdrawal old = .ok () := by
  have hproposed : checkedMul 128 (new.numerator * old.base.denominator) 2 = none := if_neg h
  rw [checkWithdrawal_eq hold hnew, hproposed, if_neg not_below_none]

/-- Where it fits, the check passes what is capped, unless the side of the old fee does
    not fit. -/
theorem checkWithdrawal_ok_iff {old new : Fee} (hold : old.IsU64) (hnew : new.IsU64)
    (h : Fits old new) :
    new.checkWithdrawal old = .ok () ↔
      old.base.numerator * new.denominator * 3 < 2 ^ 128 ∧ Capped old new := by
  have hproposed : checkedMul 128 (new.numerator * old.base.denominator) 2
      = some (new.numerator * old.base.denominator * 2) := if_pos h
  rw [checkWithdrawal_eq hold hnew, hproposed]
  by_cases hfits : old.base.numerator * new.denominator * 3 < 2 ^ 128
  · have hallowed : checkedMul 128 (old.base.numerator * new.denominator) 3
        = some (old.base.numerator * new.denominator * 3) := if_pos hfits
    rw [hallowed]
    by_cases hcapped : Capped old new
    · rw [if_neg (mt some_below_some.mp (Nat.not_lt_of_le hcapped))]
      exact iff_of_true rfl ⟨hfits, hcapped⟩
    · rw [if_pos (some_below_some.mpr (Nat.lt_of_not_le hcapped))]
      exact iff_of_false (fun h => nomatch h) fun h => hcapped h.2
  · have hallowed : checkedMul 128 (old.base.numerator * new.denominator) 3 = none :=
      if_neg hfits
    rw [hallowed, if_pos none_below_some]
    exact iff_of_false (fun h => nomatch h) fun h => hfits h.1

theorem error_of_ne_ok {ε : Type} {x : Except ε Unit} (h : x ≠ .ok ()) : ∃ e, x = .error e := by
  cases x with
  | error e => exact ⟨e, rfl⟩
  | ok u => exact absurd rfl h

theorem overflows_of_not_fits {old new : Fee} (h : ¬Fits old new) : Overflows old new :=
  ⟨_, List.mem_cons_of_mem _ (List.mem_cons_of_mem _ (List.mem_cons_of_mem _ List.mem_cons_self)),
    Nat.le_of_not_lt h⟩

/-- Where the side of the new fee fits, only that of the old one can overflow. -/
theorem Overflows.of_fits {old new : Fee} (h : Overflows old new) (hfits : Fits old new) :
    2 ^ 128 ≤ old.base.numerator * new.denominator * 3 := by
  unfold Fits at hfits
  obtain ⟨product, hmem, hlarge⟩ := h
  simp only [List.mem_cons, List.not_mem_nil, or_false] at hmem
  rcases hmem with rfl | rfl | rfl | rfl <;> omega

theorem checkCaps_iff {old new : Fee} (hold : old.IsU64) (hnew : new.IsU64) :
    CheckCaps old new ↔ Fits old new := by
  constructor
  · rintro ⟨-, hoverflow⟩
    by_contra hfits
    obtain ⟨e, he⟩ := hoverflow (overflows_of_not_fits hfits)
    rw [checkWithdrawal_of_not_fits hold hnew hfits] at he
    exact nomatch he
  · intro hfits
    have hiff := checkWithdrawal_ok_iff hold hnew hfits
    refine ⟨fun h => (hiff.mp h).2, fun hoverflow => ?_⟩
    refine error_of_ne_ok fun h => ?_
    exact absurd (hiff.mp h).1 (Nat.not_lt_of_le (hoverflow.of_fits hfits))

end Fee

/-! ## The updates of the pool -/

/-- The two withdrawal fees of a pool. -/
inductive WithdrawalKind where
  | stake
  | sol

namespace PoolAccount

/-- The fee in force. -/
def withdrawalFee (pool : PoolAccount) : WithdrawalKind → Fee
  | .stake => pool.stakeWithdrawalFee
  | .sol => pool.solWithdrawalFee

/-- The fee that waits. -/
def nextWithdrawalFee (pool : PoolAccount) : WithdrawalKind → FutureEpoch Fee
  | .stake => pool.nextStakeWithdrawalFee
  | .sol => pool.nextSolWithdrawalFee

end PoolAccount

/-- The withdrawal fee of this kind that is asked for. -/
def FeeType.withdrawal : FeeType → WithdrawalKind → Option Fee
  | .stakeWithdrawal newFee, .stake => some newFee
  | .solWithdrawal newFee, .sol => some newFee
  | _, _ => none

namespace PoolAccount

/-- `update_fee` schedules what is asked for and nothing else, no fee above the cap, and none
    whose products overflow. -/
def UpdateCaps (pool : PoolAccount) (fee : FeeType) : Prop :=
  (∀ pool', pool.updateFee fee = .ok pool' → ∀ kind,
      pool'.withdrawalFee kind = pool.withdrawalFee kind ∧
      pool'.nextWithdrawalFee kind
        = ((fee.withdrawal kind).map FutureEpoch.new).getD (pool.nextWithdrawalFee kind) ∧
      ∀ new ∈ fee.withdrawal kind, Fee.Capped (pool.withdrawalFee kind) new) ∧
    ∀ kind, ∀ new ∈ fee.withdrawal kind, Fee.Overflows (pool.withdrawalFee kind) new →
      ∃ e, pool.updateFee fee = .error e

variable {pool pool' : PoolAccount} {fee : FeeType} {kind : WithdrawalKind} {new : Fee}

/-- What an update leaves of the withdrawal fees. -/
theorem updateFee_ok (h : pool.updateFee fee = .ok pool') (kind : WithdrawalKind) :
    pool'.withdrawalFee kind = pool.withdrawalFee kind ∧
    pool'.nextWithdrawalFee kind
      = ((fee.withdrawal kind).map FutureEpoch.new).getD (pool.nextWithdrawalFee kind) ∧
    ∀ new ∈ fee.withdrawal kind, new.checkWithdrawal (pool.withdrawalFee kind) = .ok () := by
  cases fee with
  | stakeWithdrawal newFee =>
      obtain ⟨u, hcheck, h⟩ := bind_ok h
      rw [← Except.ok.inj h]
      cases kind with
      | stake => exact ⟨rfl, rfl, fun new hnew => Option.some.inj hnew ▸ hcheck⟩
      | sol => exact ⟨rfl, rfl, fun new hnew => nomatch hnew⟩
  | solWithdrawal newFee =>
      obtain ⟨u, hcheck, h⟩ := bind_ok h
      rw [← Except.ok.inj h]
      cases kind with
      | stake => exact ⟨rfl, rfl, fun new hnew => nomatch hnew⟩
      | sol => exact ⟨rfl, rfl, fun new hnew => Option.some.inj hnew ▸ hcheck⟩
  | _ =>
      rw [← Except.ok.inj h]
      cases kind <;> exact ⟨rfl, rfl, fun new hnew => nomatch hnew⟩

/-- An update of a withdrawal fee is its check, and the schedule. -/
theorem updateFee_withdrawal (hnew : new ∈ fee.withdrawal kind) :
    ∃ pool', pool.updateFee fee
      = (new.checkWithdrawal (pool.withdrawalFee kind)).bind fun _ => .ok pool' := by
  match fee, kind, hnew with
  | .stakeWithdrawal _, .stake, rfl => exact ⟨_, rfl⟩
  | .solWithdrawal _, .sol, rfl => exact ⟨_, rfl⟩

theorem updateCaps_iff (hold : ∀ kind, (pool.withdrawalFee kind).IsU64)
    (hnew : ∀ kind, ∀ new ∈ fee.withdrawal kind, new.IsU64) :
    pool.UpdateCaps fee ↔
      ∀ kind, ∀ new ∈ fee.withdrawal kind, Fee.Fits (pool.withdrawalFee kind) new := by
  constructor
  · rintro ⟨-, hoverflow⟩ kind new hmem
    by_contra hfits
    have hcheck := Fee.checkWithdrawal_of_not_fits (hold kind) (hnew kind new hmem) hfits
    obtain ⟨pool', hupdate⟩ := updateFee_withdrawal hmem
    obtain ⟨e, he⟩ := hoverflow kind new hmem (Fee.overflows_of_not_fits hfits)
    rw [hupdate, hcheck] at he
    exact nomatch he
  · intro hfits
    have hcaps : ∀ kind, ∀ new ∈ fee.withdrawal kind, Fee.CheckCaps (pool.withdrawalFee kind) new :=
      fun kind new hmem =>
        (Fee.checkCaps_iff (hold kind) (hnew kind new hmem)).mpr (hfits kind new hmem)
    refine ⟨fun pool' hok kind => ?_, fun kind new hmem hoverflow => ?_⟩
    · obtain ⟨hfee, hnext, hcheck⟩ := updateFee_ok hok kind
      exact ⟨hfee, hnext, fun new hmem => (hcaps kind new hmem).1 (hcheck new hmem)⟩
    · obtain ⟨e, he⟩ := (hcaps kind new hmem).2 hoverflow
      obtain ⟨pool', hupdate⟩ := updateFee_withdrawal hmem
      rw [hupdate, he]
      exact ⟨e, rfl⟩

end PoolAccount

/-- **WITHDRAWAL FEES ARE CAPPED** exactly where the product on the side of the new fee fits:
    there the check and the update pass no fee above one and a half times the old one, and
    fail where a product overflows. -/
theorem checkWithdrawal_caps_iff {old new : Fee} {pool : PoolAccount} {fee : FeeType}
    (hold : old.IsU64) (hnew : new.IsU64) (hpool : ∀ kind, (pool.withdrawalFee kind).IsU64)
    (hfee : ∀ kind, ∀ new ∈ fee.withdrawal kind, new.IsU64) :
    (Fee.CheckCaps old new ↔ Fee.Fits old new) ∧
      (pool.UpdateCaps fee ↔
        ∀ kind, ∀ new ∈ fee.withdrawal kind, Fee.Fits (pool.withdrawalFee kind) new) :=
  ⟨Fee.checkCaps_iff hold hnew, PoolAccount.updateCaps_iff hpool hfee⟩

/-! ## Runs -/

/-- The pool and its manager. -/
structure ManagedPool extends StakePoolState where
  manager : Pubkey

inductive ManagedCall where
  | setFee (rt : WithdrawRuntime) (accounts : List AccountInfo) (fee : FeeType)
  | instruction (call : StakePoolCall)

def ManagedPool.step (s : ManagedPool) : ManagedCall → Except ProgramError ManagedPool
  | .setFee rt accounts fee => do
      let pool ← processSetFee (rt.holding s.pool) s.manager accounts fee
      .ok { s with pool }
  | .instruction call => do
      let state ← s.toStakePoolState.step call
      .ok { s with toStakePoolState := state }

/-- A fee that a call schedules is of words, and its side fits. -/
def ManagedCall.Fits (s : ManagedPool) : ManagedCall → Prop
  | .setFee _ _ fee => ∀ kind, ∀ new ∈ fee.withdrawal kind,
      new.IsU64 ∧ Fee.Fits (s.pool.withdrawalFee kind) new
  | .instruction _ => True

/-- Every withdrawal fee that waits is within the cap of the one in force. -/
structure PoolAccount.FeesCapped (pool : PoolAccount) : Prop where
  word : ∀ kind, (pool.withdrawalFee kind).IsU64
  next : ∀ kind, (pool.nextWithdrawalFee kind).All
    fun new => new.IsU64 ∧ Fee.Capped (pool.withdrawalFee kind) new

/-- From one pool to the other, no withdrawal fee in force rose beyond the cap. -/
def PoolAccount.RisesCapped (pool pool' : PoolAccount) : Prop :=
  ∀ kind, pool'.withdrawalFee kind = pool.withdrawalFee kind ∨
    Fee.Capped (pool.withdrawalFee kind) (pool'.withdrawalFee kind)

namespace PoolAccount

variable {pool pool' : PoolAccount}

/-- The two have the same withdrawal fees. -/
def SameFees (pool pool' : PoolAccount) : Prop :=
  ∀ kind, pool'.withdrawalFee kind = pool.withdrawalFee kind ∧
    pool'.nextWithdrawalFee kind = pool.nextWithdrawalFee kind

theorem FeesCapped.congr (h : pool.FeesCapped) (hsame : pool.SameFees pool') :
    pool'.FeesCapped where
  word kind := by
    rw [(hsame kind).1]
    exact h.word kind
  next kind := by
    rw [(hsame kind).1, (hsame kind).2]
    exact h.next kind

theorem nextEpoch_withdrawalFee {epoch : Nat} (h : pool.lastUpdateEpoch < epoch)
    (kind : WithdrawalKind) :
    (pool.nextEpoch epoch).withdrawalFee kind
        = (pool.nextWithdrawalFee kind).get.getD (pool.withdrawalFee kind) ∧
      (pool.nextEpoch epoch).nextWithdrawalFee kind
        = (pool.nextWithdrawalFee kind).updateEpoch := by
  rw [nextEpoch, if_pos h]
  cases kind <;> exact ⟨rfl, rfl⟩

/-- A new epoch puts in force what has waited, and nothing else. -/
theorem FeesCapped.nextEpoch (h : pool.FeesCapped) (epoch : Nat) :
    (pool.nextEpoch epoch).FeesCapped ∧ pool.RisesCapped (pool.nextEpoch epoch) := by
  by_cases hepoch : pool.lastUpdateEpoch < epoch
  · have hkind : ∀ kind, ((pool.nextEpoch epoch).withdrawalFee kind).IsU64 ∧
        ((pool.nextEpoch epoch).nextWithdrawalFee kind).All
          (fun new => new.IsU64 ∧ Fee.Capped ((pool.nextEpoch epoch).withdrawalFee kind) new) ∧
        ((pool.nextEpoch epoch).withdrawalFee kind = pool.withdrawalFee kind ∨
          Fee.Capped (pool.withdrawalFee kind) ((pool.nextEpoch epoch).withdrawalFee kind)) := by
      intro kind
      obtain ⟨hfee, hnext⟩ := nextEpoch_withdrawalFee hepoch kind
      have hwaiting := h.next kind
      rw [hfee, hnext]
      cases hfuture : pool.nextWithdrawalFee kind with
      | none => exact ⟨h.word kind, trivial, Or.inl rfl⟩
      | one value =>
          rw [hfuture] at hwaiting
          exact ⟨hwaiting.1, trivial, Or.inr hwaiting.2⟩
      | two value =>
          rw [hfuture] at hwaiting
          exact ⟨h.word kind, hwaiting, Or.inl rfl⟩
    exact ⟨⟨fun kind => (hkind kind).1, fun kind => (hkind kind).2.1⟩,
      fun kind => (hkind kind).2.2⟩
  · have hsame : pool.nextEpoch epoch = pool := if_neg hepoch
    rw [hsame]
    exact ⟨h, fun kind => Or.inl rfl⟩

/-- An update whose side fits. -/
theorem FeesCapped.updateFee (h : pool.FeesCapped) {fee : FeeType}
    (hfits : ∀ kind, ∀ new ∈ fee.withdrawal kind,
      new.IsU64 ∧ Fee.Fits (pool.withdrawalFee kind) new)
    (hok : pool.updateFee fee = .ok pool') : pool'.FeesCapped ∧ pool.RisesCapped pool' := by
  have hcaps := (updateCaps_iff h.word fun kind new hmem => (hfits kind new hmem).1).mpr
    fun kind new hmem => (hfits kind new hmem).2
  have hall := hcaps.1 pool' hok
  refine ⟨⟨fun kind => ?_, fun kind => ?_⟩, fun kind => Or.inl (hall kind).1⟩
  · rw [(hall kind).1]
    exact h.word kind
  · obtain ⟨hfee, hnext, hcapped⟩ := hall kind
    rw [hfee, hnext]
    cases hasked : fee.withdrawal kind with
    | none => exact h.next kind
    | some new => exact ⟨(hfits kind new hasked).1, hcapped new hasked⟩

end PoolAccount

/-- An instruction leaves the withdrawal fees, or begins a new epoch. -/
theorem stakePool_step_fees {s s' : StakePoolState} {call : StakePoolCall}
    (h : s.step call = .ok s') :
    s.pool.SameFees s'.pool ∨ (s.pool.nextEpoch call.rt.epoch).SameFees s'.pool := by
  unfold StakePoolState.step at h
  cases hcall : call.instruction with
  | depositSol accounts lamports minimum =>
      rw [hcall] at h
      obtain ⟨pool, -, h⟩ := bind_ok h
      rw [(deposited_ok h).1]
      exact Or.inl fun kind => by cases kind <;> exact ⟨rfl, rfl⟩
  | depositStake accounts minimum =>
      rw [hcall] at h
      obtain ⟨⟨pool, validators⟩, -, h⟩ := bind_ok h
      rw [(deposited_ok h).1]
      exact Or.inl fun kind => by cases kind <;> exact ⟨rfl, rfl⟩
  | withdrawSol accounts poolTokens minimum =>
      rw [hcall] at h
      obtain ⟨⟨pool, supply⟩, hpool, h⟩ := bind_ok h
      obtain ⟨burnt, lamports, hwithdrawn⟩ := processWithdrawSol_ok (fun _ => rfl) hpool
      rw [← Except.ok.inj h, hwithdrawn.pool_eq]
      exact Or.inl fun kind => by cases kind <;> exact ⟨rfl, rfl⟩
  | withdrawStake accounts poolTokens minimum =>
      rw [hcall] at h
      obtain ⟨⟨pool, supply, validators⟩, hpool, h⟩ := bind_ok h
      obtain ⟨burnt, lamports, hwithdrawn⟩ := processWithdrawStake_ok (fun _ => rfl) hpool
      rw [← Except.ok.inj h, hwithdrawn.pool_eq]
      exact Or.inl fun kind => by cases kind <;> exact ⟨rfl, rfl⟩
  | updateStakePoolBalance accounts =>
      rw [hcall] at h
      obtain ⟨⟨pool, supply⟩, hpool, h⟩ := bind_ok h
      obtain ⟨total, fee, hupdated⟩ := processUpdateStakePoolBalance_ok (fun _ => rfl) hpool
      rw [← Except.ok.inj h, hupdated.pool_eq]
      exact Or.inr fun kind => by cases kind <;> exact ⟨rfl, rfl⟩

/-- `SetFee` runs `update_fee` on what is stored. -/
theorem processSetFee_ok {rt : WithdrawRuntime} {pool pool' : PoolAccount} {manager : Pubkey}
    {accounts : List AccountInfo} {fee : FeeType}
    (h : processSetFee (rt.holding pool) manager accounts fee = .ok pool') :
    pool.updateFee fee = .ok pool' := by
  obtain ⟨stakePoolInfo, -, h⟩ := bind_ok h
  obtain ⟨managerInfo, -, h⟩ := bind_ok h
  obtain ⟨pool₁, hload, h⟩ := bind_ok h
  obtain rfl : pool = pool₁ := Except.ok.inj (loadPoolAccount_ok hload)
  obtain ⟨_, -, h⟩ := bind_ok h
  obtain ⟨-, h⟩ := require_bind_ok h
  obtain ⟨_, -, h⟩ := bind_ok h
  cases hupdate : pool.updateFee fee with
  | error e =>
      rw [hupdate] at h
      exact nomatch h
  | ok pool'' =>
      rw [hupdate] at h
      rw [Except.ok.inj h]

/-- **STEP.** A call whose fees fit keeps the withdrawal fees capped. -/
theorem managedPool_step {s s' : ManagedPool} {call : ManagedCall} (hs : s.pool.FeesCapped)
    (h : s.step call = .ok s') (hfits : call.Fits s) :
    s'.pool.FeesCapped ∧ s.pool.RisesCapped s'.pool := by
  cases call with
  | setFee rt accounts fee =>
      obtain ⟨pool, hpool, h⟩ := bind_ok h
      rw [← Except.ok.inj h]
      exact hs.updateFee hfits (processSetFee_ok hpool)
  | instruction call =>
      obtain ⟨state, hstate, h⟩ := bind_ok h
      rw [← Except.ok.inj h]
      rcases stakePool_step_fees hstate with hsame | hsame
      · exact ⟨hs.congr hsame, fun kind => Or.inl (hsame kind).1⟩
      · obtain ⟨hcapped, hrises⟩ := hs.nextEpoch call.rt.epoch
        refine ⟨hcapped.congr hsame, fun kind => ?_⟩
        rw [(hsame kind).1]
        exact hrises kind

/-- **RUN.** Where the fees of every `SetFee` fit, no withdrawal fee that waits is ever beyond
    the cap of the one in force, and no epoch raises one beyond it. -/
theorem withdrawalFees_run {start final : ManagedPool}
    {history : List (Transition ManagedPool ManagedCall)}
    (hrun : Run ManagedPool.step start history final) (hstart : start.pool.FeesCapped)
    (hfits : ∀ t ∈ history, t.call.Fits t.pre) :
    ∀ t ∈ history, t.post.pool.FeesCapped ∧ t.pre.pool.RisesCapped t.post.pool := by
  intro t ht
  obtain ⟨later, earlier, hh⟩ := List.append_of_mem ht
  have hpre := (hrun.invariant_at (I := fun _ s => s.pool.FeesCapped) hstart
    (fun _ s call s' hs hstep hfits => (managedPool_step hs hstep hfits).1) hfits hh).1
  exact managedPool_step hpre (hrun.step_of_mem ht) (hfits t ht)

/-! ## A fee beyond the cap -/

namespace FeeRise

/-- The pool, with this fee on withdrawals of stake. -/
def pool (fee : Fee) : PoolAccount := { RoundTrip.pool with stakeWithdrawalFee := fee }

/-- The least fee there is. -/
def least : Fee := ⟨2 ^ 64 - 1, 1⟩

/-- All of it. -/
def all : Fee := ⟨2 ^ 64 - 1, 2 ^ 64 - 1⟩

/-- From a hundredth to a hundredth and a half. -/
theorem checkWithdrawal_caps_sample :
    (Fee.CheckCaps ⟨100, 1⟩ ⟨200, 3⟩ ↔ Fee.Fits ⟨100, 1⟩ ⟨200, 3⟩) ∧
      ((pool ⟨100, 1⟩).UpdateCaps (.stakeWithdrawal ⟨200, 3⟩) ↔
        ∀ kind, ∀ new ∈ (FeeType.stakeWithdrawal ⟨200, 3⟩).withdrawal kind,
          Fee.Fits ((pool ⟨100, 1⟩).withdrawalFee kind) new) := by
  refine checkWithdrawal_caps_iff ⟨by decide, by decide⟩ ⟨by decide, by decide⟩ ?_ ?_
  · intro kind
    cases kind <;> exact ⟨by decide, by decide⟩
  · intro kind new hnew
    cases kind with
    | stake =>
        obtain rfl := Option.some.inj hnew
        exact ⟨by decide, by decide⟩
    | sol => exact nomatch hnew

/-- **THE LEAST FEE MAY BECOME ALL**: the product on the side of the new fee does not fit,
    the check passes, and a fee of a hundred percent is scheduled. -/
theorem checkWithdrawal_lets_pass :
    least.AtMostAll ∧ all.AtMostAll ∧ all.checkWithdrawal least = .ok () ∧
      ¬Fee.Capped least all ∧ Fee.Overflows least all ∧
      (pool least).updateFee (.stakeWithdrawal all)
        = .ok { pool least with nextStakeWithdrawalFee := .two all } := by
  have hover : ¬Fee.Fits least all := by decide
  have hcheck : all.checkWithdrawal least = .ok () :=
    Fee.checkWithdrawal_of_not_fits ⟨by decide, by decide⟩ ⟨by decide, by decide⟩ hover
  have hleast : 1 ≤ 2 ^ 64 - 1 := by decide
  refine ⟨hleast, Nat.le_refl _, hcheck, by decide, Fee.overflows_of_not_fits hover, rfl⟩

end FeeRise

end Albus.Integration
