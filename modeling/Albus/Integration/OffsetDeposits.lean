import Albus.Integration.PoolFunds

/-! # Curves without deposits

    The offset curve says that it takes no deposits.  Both instructions for both
    tokens ask it, the withdrawal as well as the deposit; the deposit of one token
    does not ask. -/

namespace Albus.Integration

open Albus.Lib Albus.Program

/-- The program's error for an operation that the kind of the curve rules out. -/
def refusedByKind : Failure := .program SwapError.unsupportedCurveOperation.into

/-- Nothing can be deposited, and no withdrawal of both tokens is refused for the curve. -/
structure OnlyDepositsForbidden (chain : Chain) (s : SwapState) (key : Pubkey) : Prop where
  depositAll : ∀ (call : SwapCall) acc pt maxA maxB, acc.tokenSwap = key →
    call.instruction = .depositAllTokenTypes acc pt maxA maxB → ∀ s', s.step chain call ≠ .ok s'
  depositSingle : ∀ (call : SwapCall) acc amount minimum, acc.tokenSwap = key →
    call.instruction = .depositSingleTokenType acc amount minimum →
    ∀ s', s.step chain call ≠ .ok s'
  withdrawAll : ∀ (call : SwapCall) acc pt minA minB, acc.tokenSwap = key →
    call.instruction = .withdrawAllTokenTypes acc pt minA minB →
    s.step chain call ≠ .error refusedByKind

section

variable {chain : Chain} {s s' : SwapState} {pool : Pool} {curve : SwapCurve}

theorem loadAccount_some {α : Type} {stored : Option α} {a : α} (h : stored = some a) :
    loadAccount stored = .ok a := by
  rw [h]
  rfl

theorem demand_true {cond : Prop} [Decidable cond] {e : ProgramError} (h : cond) :
    demand cond e = .ok () := by
  rw [demand, require, if_pos h]
  rfl

theorem demand_false {cond : Prop} [Decidable cond] {e : ProgramError} (h : ¬cond) :
    demand cond e = .error (.program e) := by
  rw [demand, require, if_neg h]
  rfl

/-- A mint with a supply is there. -/
theorem exists_mint {l : Token.Ledger Pubkey} {m : Pubkey} (h : 0 < l.supply m) :
    ∃ mint, l.mints m = some mint := by
  cases hm : l.mints m with
  | some mint => exact ⟨mint, rfl⟩
  | none =>
      rw [Token.Ledger.supply, hm] at h
      exact absurd h (Nat.lt_irrefl 0)

/-- The deposit of both tokens asks the curve. -/
theorem depositAllTokens_ne_ok (hcurve : SwapCurve.tryFrom pool.curve = .ok curve)
    (hflag : curve.calculator.allowsDeposits = false) {outer : Outer} {acc : DepositAllAccounts}
    (hpool : s.pools acc.tokenSwap = some pool) {pt maxA maxB : Nat} :
    depositAllTokens chain outer s acc pt maxA maxB ≠ .ok s' := by
  intro h
  obtain ⟨pool', curve', _, hdeposited⟩ := depositAllTokens_ok h
  have heq := hdeposited.pool_eq
  rw [hpool] at heq
  obtain rfl := Option.some.inj heq
  have heq' := hdeposited.curve_eq
  rw [hcurve] at heq'
  obtain rfl := Except.ok.inj heq'
  have hallowed := hdeposited.allowed
  rw [hflag] at hallowed
  exact nomatch hallowed

/-- So does the withdrawal of both tokens, and refuses it. -/
theorem withdrawAllTokens_refused (hcurve : SwapCurve.tryFrom pool.curve = .ok curve)
    (hflag : curve.calculator.allowsDeposits = false) {outer : Outer} {acc : WithdrawAllAccounts}
    (hpool : s.pools acc.tokenSwap = some pool)
    (hsigned : acc.userTransferAuthority ∈ outer.signers)
    (hmint : ∃ mint, s.token.mints acc.poolMint = some mint)
    (hA : ∃ a, s.token.accounts acc.swapTokenA = some a)
    (hB : ∃ b, s.token.accounts acc.swapTokenB = some b) {pt minA minB : Nat} :
    withdrawAllTokens chain outer s acc pt minA minB = .error refusedByKind := by
  obtain ⟨mint, hmint⟩ := hmint
  obtain ⟨a, ha⟩ := hA
  obtain ⟨b, hb⟩ := hB
  unfold withdrawAllTokens
  rw [loadAccount_some hpool, demand_true hsigned, loadAccount_some hmint, loadAccount_some ha,
    loadAccount_some hb]
  change (ofProgram (SwapCurve.tryFrom pool.curve) >>= _) = _
  rw [hcurve]
  change (demand (curve.calculator.allowsDeposits = true) _ >>= _) = _
  rw [demand_false (by rw [hflag]; exact Bool.false_ne_true)]
  rfl

/-- A signed call is its instruction. -/
theorem SwapState.step_of_run {call : SwapCall}
    (hsigners : ∀ key ∈ call.signers, chain.canSign key = true) :
    s.step chain call = s.run chain call.toOuter call.instruction := if_pos hsigners

/-- **CURVES WITHOUT DEPOSITS.** On no pool of such a curve are the deposits alone forbidden:
    with the deposit of both tokens the withdrawal of both never succeeds. -/
theorem not_onlyDepositsForbidden {key : Pubkey} (hpool : s.pools key = some pool)
    (hcurve : SwapCurve.tryFrom pool.curve = .ok curve)
    (hflag : curve.calculator.allowsDeposits = false)
    (hsupply : 0 < s.token.supply pool.poolMint)
    (hA : ∃ a, s.token.accounts pool.tokenA = some a)
    (hB : ∃ b, s.token.accounts pool.tokenB = some b)
    {user : Pubkey} (huser : chain.canSign user = true) :
    ¬OnlyDepositsForbidden chain s key ∧
      (∀ (call : SwapCall) acc pt maxA maxB, acc.tokenSwap = key →
        call.instruction = .depositAllTokenTypes acc pt maxA maxB →
        ∀ s', s.step chain call ≠ .ok s') ∧
      ∀ (call : SwapCall) acc pt minA minB, acc.tokenSwap = key →
        call.instruction = .withdrawAllTokenTypes acc pt minA minB →
        ∀ s', s.step chain call ≠ .ok s' := by
  refine ⟨?_, ?_, ?_⟩
  · intro honly
    let acc : WithdrawAllAccounts :=
      { tokenSwap := key, authority := key, userTransferAuthority := user
        poolMint := pool.poolMint, source := key, swapTokenA := pool.tokenA
        swapTokenB := pool.tokenB, destTokenA := key, destTokenB := key, poolFee := key
        tokenProgram := key }
    let call : SwapCall :=
      { signers := [user], now := 0, instruction := .withdrawAllTokenTypes acc 0 0 0 }
    refine honly.withdrawAll call acc 0 0 0 rfl rfl ?_
    have hsigners : ∀ key ∈ call.signers, chain.canSign key = true := by
      intro key hkey
      rw [List.mem_singleton.mp hkey]
      exact huser
    rw [SwapState.step_of_run hsigners]
    exact withdrawAllTokens_refused hcurve hflag hpool List.mem_cons_self (exists_mint hsupply)
      hA hB
  · rintro call acc pt maxA maxB rfl hcall s' h
    obtain ⟨-, h⟩ := SwapState.run_of_step h
    rw [hcall] at h
    exact depositAllTokens_ne_ok hcurve hflag hpool h
  · rintro call acc pt minA minB rfl hcall s' h
    obtain ⟨-, h⟩ := SwapState.run_of_step h
    rw [hcall] at h
    obtain ⟨pool', curve', _, hcurve', hallowed, -, hwithdrew⟩ := withdrawAllTokens_ok h
    have heq := hwithdrew.pool_eq
    rw [hpool] at heq
    obtain rfl := Option.some.inj heq
    rw [hcurve] at hcurve'
    obtain rfl := Except.ok.inj hcurve'
    rw [hflag] at hallowed
    exact nomatch hallowed

end

namespace OffsetPool

open ToyChain

/-- An offset of 50 on token B. -/
def created : SwapCall where
  signers := [key 30, key 1]
  now := 0
  instruction := .initializePool
    { authority := address, tokenSwap := key 1, poolMint := key 22, tokenA := key 2,
      tokenB := key 3, poolFee := key 4, destination := key 5, tokenProgram := key 40 }
    StrangersClose.fees
    { curveType := 2, curveParameters := (Vector.replicate 32 0).set 0 50 first_lt } none none

def opened : SwapState := after StrangersClose.start created

/-- The trader's deposit of 100 token A, for the founder. -/
def deposited : SwapCall where
  signers := [key 31]
  now := 0
  instruction := .depositSingleTokenType
    { proofRequest := none, tokenSwap := key 1, authority := address
      userTransferAuthority := key 31, source := key 6, swapTokenA := key 2
      swapTokenB := key 3, poolMint := key 22, destination := key 5
      tokenProgram := key 40 } 100 1

/-- The founder's exit with a tenth of the pool tokens. -/
def withdrawn : SwapCall where
  signers := [key 30]
  now := 0
  instruction := .withdrawAllTokenTypes
    { tokenSwap := key 1, authority := address, userTransferAuthority := key 30
      poolMint := key 22, source := key 5, swapTokenA := key 2, swapTokenB := key 3
      destTokenA := key 8, destTokenB := key 9, poolFee := key 4
      tokenProgram := key 40 } 100000000 1 1

def refusal (s : SwapState) (call : SwapCall) : Option Failure :=
  match s.step chain call with
  | .ok _ => none
  | .error failure => some failure

/-- The two calls on the opened pool in one evaluation, and what the pool is and holds. -/
theorem computed :
    ((opened.step chain deposited).isOk = true ∧
      refusal opened withdrawn = some refusedByKind) ∧
    (opened.pools (key 1)).map (fun pool => ((SwapCurve.tryFrom pool.curve).toOption,
      pool.poolMint, pool.tokenA, pool.tokenB)) =
      some (some (.offset 50), key 22, key 2, key 3) ∧
    0 < opened.token.supply (key 22) ∧ (opened.token.accounts (key 2)).isSome = true ∧
      (opened.token.accounts (key 3)).isSome = true := by decide +kernel

theorem deposit_ok : ∃ s', opened.step chain deposited = .ok s' :=
  ⟨_, step_afterCall computed.1.1⟩

/-- What the pool of the state is. -/
theorem opened_pool : ∃ pool, opened.pools (key 1) = some pool ∧
    SwapCurve.tryFrom pool.curve = .ok (.offset 50) ∧ pool.poolMint = key 22 ∧
    pool.tokenA = key 2 ∧ pool.tokenB = key 3 := by
  obtain ⟨pool, hpool, heq⟩ := Option.map_eq_some_iff.mp computed.2.1
  obtain ⟨hcurve, hrest⟩ := Prod.mk.inj heq
  obtain ⟨hmint, hrest⟩ := Prod.mk.inj hrest
  obtain ⟨hA, hB⟩ := Prod.mk.inj hrest
  refine ⟨pool, hpool, ?_, hmint, hA, hB⟩
  cases hfrom : SwapCurve.tryFrom pool.curve with
  | error e =>
      rw [hfrom] at hcurve
      exact nomatch hcurve
  | ok curve =>
      rw [hfrom] at hcurve
      rw [Option.some.inj hcurve]

end OffsetPool

/-- The pool of the sample. -/
theorem not_onlyDepositsForbidden_sample :
    ¬OnlyDepositsForbidden ToyChain.chain OffsetPool.opened (ToyChain.key 1) := by
  obtain ⟨pool, hpool, hcurve, hmint, hA, hB⟩ := OffsetPool.opened_pool
  have hexists : ∀ k, (OffsetPool.opened.token.accounts k).isSome = true →
      ∃ a, OffsetPool.opened.token.accounts k = some a :=
    fun k h => Option.isSome_iff_exists.mp h
  have huser : ToyChain.chain.canSign (ToyChain.key 30) = true := by decide +kernel
  obtain ⟨-, -, hsupply, hheldA, hheldB⟩ := OffsetPool.computed
  refine (not_onlyDepositsForbidden hpool hcurve rfl ?_ (hexists _ ?_) (hexists _ ?_) huser).1
  · rw [hmint]
    exact hsupply
  · rw [hA]
    exact hheldA
  · rw [hB]
    exact hheldB

/-- **A DEPOSIT PASSES, AN EXIT DOES NOT**: in a pool that was just opened on the offset curve a
    deposit of one token succeeds, and the founder's withdrawal is refused for the curve. -/
theorem offset_pool_takes_deposits :
    ∃ pool curve, OffsetPool.opened.pools (ToyChain.key 1) = some pool ∧
      SwapCurve.tryFrom pool.curve = .ok curve ∧ curve.calculator.allowsDeposits = false ∧
      0 < OffsetPool.opened.token.supply pool.poolMint ∧
      OffsetPool.refusal OffsetPool.opened OffsetPool.withdrawn = some refusedByKind ∧
      ¬OnlyDepositsForbidden ToyChain.chain OffsetPool.opened (ToyChain.key 1) := by
  obtain ⟨pool, hpool, hcurve, hmint, -, -⟩ := OffsetPool.opened_pool
  refine ⟨pool, _, hpool, hcurve, rfl, ?_, OffsetPool.computed.1.2, ?_⟩
  · rw [hmint]
    exact OffsetPool.computed.2.2.1
  · intro honly
    obtain ⟨s', hs'⟩ := OffsetPool.deposit_ok
    exact honly.depositSingle OffsetPool.deposited _ _ _ rfl rfl s' hs'

end Albus.Integration
