import Albus.Integration.SwapMachine

/-! # What each instruction of the swap does to the ledger

    One lemma for each handler: the checks it passed, the amounts it computed, and
    the balances and supplies it leaves.  Later modules use these and never unfold
    a handler. -/

namespace Albus.Integration

open Albus.Lib Albus.Program

/-! ## Parts of the handlers -/

theorem payOut_ok {l l' : Token.Ledger Pubkey} {signers : List Pubkey}
    {source destination authority : Pubkey} {amount : Nat}
    (h : payOut l signers source destination authority amount = .ok l') :
    l.Keeps l' ∧ l.Spares signers l' ∧ (∀ m, l'.supply m = l.supply m) ∧
      ∀ k, l'.balance k + (if k = source then amount else 0) =
        l.balance k + (if k = destination then amount else 0) := by
  unfold payOut at h
  split at h
  · have htransfer := ofToken_ok h
    obtain ⟨-, -, -, -, -, -, -, -, hkeeps, hsupply, hbalance⟩ :=
      Token.Ledger.transfer_ok htransfer
    exact ⟨hkeeps, Token.Ledger.spares_transfer htransfer, hsupply, hbalance⟩
  · rename_i hzero
    obtain rfl : amount = 0 := Nat.eq_zero_of_not_pos hzero
    rw [← Except.ok.inj h]
    refine ⟨Token.Ledger.Keeps.refl l, Token.Ledger.Spares.refl signers l, fun _ => rfl, ?_⟩
    intro k
    rw [ite_self, ite_self]

theorem authorityId_ok {chain : Chain} {now : Int} {key : Pubkey} {bump : UInt8}
    {authority : Pubkey} (h : authorityId (chain.runtime now) key bump = .ok authority) :
    chain.createProgramAddress [key.toList, [bump]] chain.programId = some authority := okOr_ok h

/-- What `check_accounts` promises. -/
theorem checkAccounts_ok {chain : Chain} {now : Int} {tokenSwap : Account TokenSwap}
    {authority tokenA tokenB poolMint tokenProgram : Pubkey} {userA userB : Option Pubkey}
    {u : Unit}
    (h : checkAccounts (chain.runtime now) tokenSwap authority tokenA tokenB poolMint tokenProgram
      userA userB = .ok u) :
    chain.createProgramAddress [tokenSwap.key.toList, [tokenSwap.data.bumpSeed]]
        chain.programId = some authority ∧
      tokenA = tokenSwap.data.tokenA ∧ tokenB = tokenSwap.data.tokenB ∧
      poolMint = tokenSwap.data.poolMint ∧ userA ≠ some tokenA ∧ userB ≠ some tokenB := by
  obtain ⟨expected, hexpected, h⟩ := bind_ok h
  obtain ⟨hauthority, h⟩ := require_bind_ok h
  obtain ⟨htokenA, h⟩ := require_bind_ok h
  obtain ⟨htokenB, h⟩ := require_bind_ok h
  obtain ⟨hmint, h⟩ := require_bind_ok h
  obtain ⟨-, h⟩ := require_bind_ok h
  obtain ⟨huserA, h⟩ := require_bind_ok h
  rw [hauthority]
  exact ⟨authorityId_ok hexpected, htokenA, htokenB, hmint, huserA, require_ok h⟩

/-- The two token accounts of the pool, in the direction of the trade. -/
theorem checkSwap_ok {chain : Chain} {outer : Outer} {pool : Pool} {acc : SwapAccounts}
    {tradeDirection : TradeDirection} (h : checkSwap chain outer pool acc = .ok tradeDirection) :
    chain.createProgramAddress [acc.tokenSwap.toList, [pool.bumpSeed]] chain.programId =
        some acc.authority ∧
      acc.poolSource = tradeDirection.pick pool.tokenA pool.tokenB ∧
      acc.poolDestination = tradeDirection.opposite.pick pool.tokenA pool.tokenB ∧
      acc.poolSource ≠ acc.poolDestination ∧ acc.poolSource ≠ acc.userSource ∧
      acc.poolDestination ≠ acc.userDestination ∧ acc.poolMint = pool.poolMint ∧
      acc.poolFee = pool.poolFeeAccount := by
  obtain ⟨_, -, h⟩ := bind_ok h
  obtain ⟨authority, hauthority, h⟩ := bind_ok h
  obtain ⟨heq, h⟩ := require_bind_ok h
  obtain ⟨hsource, h⟩ := require_bind_ok h
  obtain ⟨hdestination, h⟩ := require_bind_ok h
  obtain ⟨hne, h⟩ := require_bind_ok h
  obtain ⟨huserSource, h⟩ := require_bind_ok h
  obtain ⟨huserDestination, h⟩ := require_bind_ok h
  obtain ⟨hmint, h⟩ := require_bind_ok h
  obtain ⟨hfee, h⟩ := require_bind_ok h
  obtain ⟨-, h⟩ := require_bind_ok h
  rw [heq]
  refine ⟨authorityId_ok hauthority, ?_, ?_, hne, huserSource, huserDestination, hmint, hfee⟩
  · rw [← Except.ok.inj h]
    split
    · rename_i hA
      exact hA
    · rename_i hA
      exact hsource.resolve_left hA
  · rw [← Except.ok.inj h]
    split
    · rename_i hA
      exact hdestination.resolve_left (fun hdest => hne (hA.trans hdest.symm))
    · rename_i hA
      have hB := hsource.resolve_left hA
      exact hdestination.resolve_right (fun hdest => hne (hB.trans hdest.symm))

/-- The owner fee is minted, whoever gets it. -/
theorem mintOwnerFee_ok {l l' : Token.Ledger Pubkey} {signers : List Pubkey} {acc : SwapAccounts}
    {curve : SwapCurve} {fees : FeesInfo} {tradeDirection : TradeDirection} {ownerFee : Nat}
    {traded : PoolAmounts}
    (h : mintOwnerFee l signers acc curve fees tradeDirection ownerFee traded = .ok l') :
    ∃ minted, feeMinted curve fees tradeDirection acc.hostFeeAccount.isSome ownerFee
        traded.tokenA traded.tokenB traded.supply = .ok minted ∧ l.Keeps l' ∧
      (∀ m, l'.supply m = l.supply m + (if m = acc.poolMint then minted else 0)) ∧
      (∀ k, l.balance k ≤ l'.balance k) ∧ (ownerFee = 0 → l' = l) := by
  unfold mintOwnerFee at h
  unfold feeMinted
  split at h
  · rename_i hpos
    rw [if_pos hpos]
    obtain ⟨poolTokens, hpool, h⟩ := ofProgram_bind_ok h
    rw [hpool]
    obtain ⟨⟨l₁, rest⟩, hhost, h⟩ := bind_ok h
    obtain ⟨rest', hrest, h⟩ := ofProgram_bind_ok h
    obtain ⟨-, hkeeps, hsupply, hbalance⟩ := Token.Ledger.mintTo_ok (ofToken_ok h)
    rw [toU64_ok hrest] at hsupply hbalance
    have hne : ownerFee = 0 → l' = l := fun hzero => absurd hpos (by omega)
    unfold mintToHost at hhost
    cases hacc : acc.hostFeeAccount with
    | none =>
        rw [hacc] at hhost
        obtain ⟨rfl, rfl⟩ := Prod.mk.inj (Except.ok.inj hhost)
        refine ⟨poolTokens, rfl, hkeeps, hsupply, ?_, hne⟩
        intro k
        rw [hbalance k]
        exact Nat.le_add_right _ _
    | some host =>
        obtain ⟨hostInfo, hostMint⟩ := host
        rw [hacc] at hhost
        obtain ⟨hostMint, -, hhost⟩ := ofProgram_bind_ok hhost
        obtain ⟨-, hhost⟩ := demand_bind_ok hhost
        obtain ⟨⟨hostFee, rest₁⟩, hsplit, hhost⟩ := ofProgram_bind_ok hhost
        have hminted : (do
            let x ← splitHostFee fees poolTokens
            Except.ok (x.1 + x.2) : Except ProgramError Nat) = .ok (hostFee + rest₁) := by
          rw [hsplit]
          rfl
        change (if 0 < hostFee then _ else _) = _ at hhost
        split at hhost
        · obtain ⟨hostFee', hhostFee, hhost⟩ := ofProgram_bind_ok hhost
          obtain ⟨l₂, hmint, hhost⟩ := ofToken_bind_ok hhost
          obtain ⟨rfl, rfl⟩ := Prod.mk.inj (Except.ok.inj hhost)
          obtain ⟨-, hkeeps', hsupply', hbalance'⟩ := Token.Ledger.mintTo_ok hmint
          rw [toU64_ok hhostFee] at hsupply' hbalance'
          refine ⟨hostFee + rest₁, hminted, hkeeps'.trans hkeeps, ?_, ?_, hne⟩
          · intro m
            rw [hsupply m, hsupply' m]
            split <;> omega
          · intro k
            rw [hbalance k, hbalance' k]
            omega
        · rename_i hzero
          obtain ⟨rfl, rfl⟩ := Prod.mk.inj (Except.ok.inj hhost)
          refine ⟨hostFee + rest₁, hminted, hkeeps, ?_, ?_, hne⟩
          · intro m
            rw [hsupply m]
            split <;> omega
          · intro k
            rw [hbalance k]
            exact Nat.le_add_right _ _
  · rename_i hzero
    rw [if_neg hzero, ← Except.ok.inj h]
    refine ⟨0, rfl, Token.Ledger.Keeps.refl l, ?_, fun _ => Nat.le_refl _, fun _ => rfl⟩
    intro m
    rw [ite_self, Nat.add_zero]

/-! ## The handlers -/

/-- The balances of the two sides, in the direction of the trade. -/
theorem balance_pick (s : SwapState) (pool : Pool) (tradeDirection : TradeDirection) :
    s.token.balance (tradeDirection.pick pool.tokenA pool.tokenB) =
        (s.amounts pool).source tradeDirection ∧
      s.token.balance (tradeDirection.opposite.pick pool.tokenA pool.tokenB) =
        (s.amounts pool).destination tradeDirection := by
  cases tradeDirection with
  | aToB => exact ⟨rfl, rfl⟩
  | bToA => exact ⟨rfl, rfl⟩

/-- A swap that succeeded. -/
structure Swapped (chain : Chain) (outer : Outer) (s s' : SwapState) (acc : SwapAccounts)
    (amountIn minimumAmountOut : Nat) (pool : Pool) (tradeDirection : TradeDirection)
    (curve : SwapCurve) (result : SwapResult) (minted : Nat) : Prop where
  pool_eq : s.pools acc.tokenSwap = some pool
  signed : acc.userTransferAuthority ∈ outer.signers
  checked : checkSwap chain outer pool acc = .ok tradeDirection
  curve_eq : SwapCurve.tryFrom pool.curve = .ok curve
  result_eq : swapAmounts curve pool.fees tradeDirection amountIn minimumAmountOut
    ((s.amounts pool).source tradeDirection) ((s.amounts pool).destination tradeDirection) =
      .ok result
  source_fits : toU64 result.sourceAmountSwapped = .ok result.sourceAmountSwapped
  destination_fits : toU64 result.destinationAmountSwapped = .ok result.destinationAmountSwapped
  minted_eq : feeMinted curve pool.fees tradeDirection acc.hostFeeAccount.isSome result.ownerFee
    ((s.amounts pool).traded result tradeDirection).tokenA
    ((s.amounts pool).traded result tradeDirection).tokenB (s.amounts pool).supply = .ok minted
  pools_eq : s'.pools = s.pools
  keeps : s.token.Keeps s'.token
  payer : ∃ a, s.token.accounts acc.userSource = some a ∧
    a.HasAuthority acc.userTransferAuthority
  supply : ∀ m, s'.token.supply m = s.token.supply m + (if m = acc.poolMint then minted else 0)
  /-- What comes out of an account besides the two transfers, comes into it. -/
  balance : ∀ k, s.token.balance k +
      (if k = acc.poolSource then result.sourceAmountSwapped else 0) ≤
    s'.token.balance k + (if k = acc.userSource then result.sourceAmountSwapped else 0) +
      (if k = acc.poolDestination then result.destinationAmountSwapped else 0)
  /-- Without an owner fee nothing else moves. -/
  exact : result.ownerFee = 0 → ∀ k, s'.token.balance k +
      (if k = acc.userSource then result.sourceAmountSwapped else 0) +
      (if k = acc.poolDestination then result.destinationAmountSwapped else 0) =
    s.token.balance k + (if k = acc.poolSource then result.sourceAmountSwapped else 0) +
      (if k = acc.userDestination then result.destinationAmountSwapped else 0)

theorem swapTokens_ok {chain : Chain} {outer : Outer} {s s' : SwapState} {acc : SwapAccounts}
    {amountIn minimumAmountOut : Nat}
    (h : swapTokens chain outer s acc amountIn minimumAmountOut = .ok s') :
    ∃ pool tradeDirection curve result minted,
      Swapped chain outer s s' acc amountIn minimumAmountOut pool tradeDirection curve result
        minted := by
  obtain ⟨pool, hpool, h⟩ := loadAccount_bind_ok h
  obtain ⟨hsigned, h⟩ := demand_bind_ok h
  obtain ⟨source, hsource, h⟩ := loadAccount_bind_ok h
  obtain ⟨destination, hdestination, h⟩ := loadAccount_bind_ok h
  obtain ⟨mint, hmint, h⟩ := loadAccount_bind_ok h
  obtain ⟨_, -, h⟩ := loadAccount_bind_ok h
  obtain ⟨tradeDirection, hchecked, h⟩ := ofProgram_bind_ok h
  obtain ⟨curve, hcurve, h⟩ := ofProgram_bind_ok h
  obtain ⟨result, hresult, h⟩ := ofProgram_bind_ok h
  obtain ⟨sourceAmount, hsourceAmount, h⟩ := ofProgram_bind_ok h
  obtain ⟨l₁, htransfer, h⟩ := ofToken_bind_ok h
  obtain ⟨l₂, hfee, h⟩ := bind_ok h
  obtain ⟨destinationAmount, hdestinationAmount, h⟩ := ofProgram_bind_ok h
  obtain ⟨l₃, htransfer', h⟩ := ofToken_bind_ok h
  have heqAmount := toU64_ok hsourceAmount
  have heqAmount' := toU64_ok hdestinationAmount
  rw [heqAmount] at hsourceAmount htransfer
  rw [heqAmount'] at hdestinationAmount htransfer'
  obtain ⟨a, -, ha, -, -, -, -, hauthority, hkeeps₁, hsupply₁, hbalance₁⟩ :=
    Token.Ledger.transfer_ok htransfer
  obtain ⟨minted, hminted, hkeeps₂, hsupply₂, hbalance₂, hnone⟩ := mintOwnerFee_ok hfee
  obtain ⟨-, -, -, -, -, -, -, -, hkeeps₃, hsupply₃, hbalance₃⟩ :=
    Token.Ledger.transfer_ok htransfer'
  obtain ⟨-, heqSource, heqDestination, -, -, -, hmintEq, -⟩ := checkSwap_ok hchecked
  obtain ⟨hpickSource, hpickDestination⟩ := balance_pick s pool tradeDirection
  rw [← heqSource, Token.Ledger.balance_of_some hsource] at hpickSource
  rw [← heqDestination, Token.Ledger.balance_of_some hdestination] at hpickDestination
  have hsupply : mint.supply = (s.amounts pool).supply := by
    show _ = s.token.supply pool.poolMint
    rw [← hmintEq, Token.Ledger.supply_of_some hmint]
  rw [← Except.ok.inj h]
  refine ⟨pool, tradeDirection, curve, result, minted, hpool, hsigned, hchecked, hcurve, ?_,
    hsourceAmount, hdestinationAmount, ?_, rfl, hkeeps₁.trans (hkeeps₂.trans hkeeps₃),
    ⟨a, ha, hauthority⟩, ?_, ?_, ?_⟩
  · rw [← hpickSource, ← hpickDestination]
    exact hresult
  · rw [← hsupply]
    cases tradeDirection with
    | aToB => exact hminted
    | bToA => exact hminted
  · intro m
    rw [hsupply₃ m, hsupply₂ m, hsupply₁ m]
  · intro k
    have h₁ := hbalance₁ k
    have h₂ := hbalance₂ k
    have h₃ := hbalance₃ k
    show s.token.balance k + _ ≤ l₃.balance k + _ + _
    omega
  · intro hzero k
    have h₁ := hbalance₁ k
    have h₃ := hbalance₃ k
    rw [hnone hzero] at h₃
    show l₃.balance k + _ + _ = s.token.balance k + _ + _
    omega

/-- An instruction that spares every account its signers do not own. -/
structure OnlySigned (outer : Outer) (s s' : SwapState) : Prop where
  pools_eq : s'.pools = s.pools
  keeps : s.token.Keeps s'.token
  spares : s.token.Spares outer.signers s'.token

/-- A mint adds to any ledger. -/
theorem spares_of_mintTo (guard : List Pubkey) {l l' : Token.Ledger Pubkey}
    {signers : List Pubkey} {mint account authority : Pubkey} {amount : Nat}
    (h : l.mintTo signers mint account authority amount = .ok l') : l.Spares guard l' := by
  obtain ⟨-, hkeeps, -, hbalance⟩ := Token.Ledger.mintTo_ok h
  refine hkeeps.spares ?_
  intro k a _ _
  rw [hbalance k]
  exact Nat.le_add_right _ _

/-- A deposit of both tokens that succeeded. -/
structure DepositedAll (chain : Chain) (outer : Outer) (s s' : SwapState)
    (acc : DepositAllAccounts) (pool : Pool) (curve : SwapCurve) (pt maxA maxB : Nat)
    (amounts : DepositAmounts) : Prop where
  pool_eq : s.pools acc.tokenSwap = some pool
  curve_eq : SwapCurve.tryFrom pool.curve = .ok curve
  allowed : curve.calculator.allowsDeposits = true
  amounts_eq : depositAllAmounts curve pt maxA maxB (s.amounts pool) = .ok amounts
  onlySigned : OnlySigned outer s s'
  supply : ∀ m, s'.token.supply m =
    s.token.supply m + (if m = pool.poolMint then amounts.poolTokens else 0)
  /-- What comes out of an account besides the two transfers, comes into it. -/
  balance : ∀ k, s.token.balance k + (if k = pool.tokenA then amounts.tokenA else 0) +
      (if k = pool.tokenB then amounts.tokenB else 0) ≤
    s'.token.balance k + (if k = acc.userTokenA then amounts.tokenA else 0) +
      (if k = acc.userTokenB then amounts.tokenB else 0)
  payers : acc.userTransferAuthority ∈ outer.signers ∧
    (∃ a, s.token.accounts acc.userTokenA = some a ∧ a.HasAuthority acc.userTransferAuthority) ∧
    ∃ l a, s.token.Keeps l ∧ l.accounts acc.userTokenB = some a ∧
      a.HasAuthority acc.userTransferAuthority

theorem depositAllTokens_ok {chain : Chain} {outer : Outer} {s s' : SwapState}
    {acc : DepositAllAccounts} {pt maxA maxB : Nat}
    (h : depositAllTokens chain outer s acc pt maxA maxB = .ok s') :
    ∃ pool curve amounts, DepositedAll chain outer s s' acc pool curve pt maxA maxB amounts := by
  obtain ⟨pool, hpool, h⟩ := loadAccount_bind_ok h
  obtain ⟨hsigned, h⟩ := demand_bind_ok h
  obtain ⟨a, ha, h⟩ := loadAccount_bind_ok h
  obtain ⟨b, hb, h⟩ := loadAccount_bind_ok h
  obtain ⟨mint, hmint, h⟩ := loadAccount_bind_ok h
  obtain ⟨_, -, h⟩ := ofProgram_bind_ok h
  obtain ⟨curve, hcurve, h⟩ := ofProgram_bind_ok h
  obtain ⟨hallowed, h⟩ := demand_bind_ok h
  obtain ⟨_, hchecked, h⟩ := ofProgram_bind_ok h
  obtain ⟨amounts, hamounts, h⟩ := ofProgram_bind_ok h
  obtain ⟨l₁, htransferA, h⟩ := ofToken_bind_ok h
  obtain ⟨l₂, htransferB, h⟩ := ofToken_bind_ok h
  obtain ⟨l₃, hmintTo, h⟩ := ofToken_bind_ok h
  obtain ⟨-, heqA, heqB, heqMint, -, -⟩ := checkAccounts_ok hchecked
  obtain ⟨uA, -, huA, -, -, -, -, hauthA, hkeeps₁, hsupply₁, hbalance₁⟩ :=
    Token.Ledger.transfer_ok htransferA
  obtain ⟨uB, -, huB, -, -, -, -, hauthB, hkeeps₂, hsupply₂, hbalance₂⟩ :=
    Token.Ledger.transfer_ok htransferB
  obtain ⟨-, hkeeps₃, hsupply₃, hbalance₃⟩ := Token.Ledger.mintTo_ok hmintTo
  have hspares := (Token.Ledger.spares_transfer htransferA).trans
    ((Token.Ledger.spares_transfer htransferB).trans (spares_of_mintTo outer.signers hmintTo))
  rw [heqA] at ha hbalance₁
  rw [heqB] at hb hbalance₂
  rw [heqMint] at hmint hsupply₃
  rw [← Token.Ledger.balance_of_some ha, ← Token.Ledger.balance_of_some hb,
    ← Token.Ledger.supply_of_some hmint] at hamounts
  rw [← Except.ok.inj h]
  refine ⟨pool, curve, amounts, hpool, hcurve, hallowed, hamounts,
    ⟨rfl, hkeeps₁.trans (hkeeps₂.trans hkeeps₃), hspares⟩, ?_, ?_,
    ⟨hsigned, ⟨uA, huA, hauthA⟩, l₁, uB, hkeeps₁, huB, hauthB⟩⟩
  · intro m
    show l₃.supply m = _
    rw [hsupply₃ m, hsupply₂ m, hsupply₁ m]
  · intro k
    have h₁ := hbalance₁ k
    have h₂ := hbalance₂ k
    have h₃ := hbalance₃ k
    show s.token.balance k + _ + _ ≤ l₃.balance k + _ + _
    simp only at h₁ h₂
    omega

/-- A deposit of one token that succeeded. -/
structure DepositedSingle (chain : Chain) (outer : Outer) (s s' : SwapState)
    (acc : DepositSingleAccounts) (pool : Pool) (curve : SwapCurve)
    (tradeDirection : TradeDirection) (amount minimum minted : Nat) : Prop where
  pool_eq : s.pools acc.tokenSwap = some pool
  curve_eq : SwapCurve.tryFrom pool.curve = .ok curve
  minted_eq : depositSingleAmount curve pool.fees tradeDirection amount minimum
    (s.amounts pool) = .ok minted
  onlySigned : OnlySigned outer s s'
  supply : ∀ m, s'.token.supply m =
    s.token.supply m + (if m = pool.poolMint then minted else 0)
  balance : ∀ k, s.token.balance k +
      (if k = tradeDirection.pick pool.tokenA pool.tokenB then amount else 0) ≤
    s'.token.balance k + (if k = acc.source then amount else 0)
  payer : acc.userTransferAuthority ∈ outer.signers ∧
    ∃ a, s.token.accounts acc.source = some a ∧ a.HasAuthority acc.userTransferAuthority

theorem depositSingleTokens_ok {chain : Chain} {outer : Outer} {s s' : SwapState}
    {acc : DepositSingleAccounts} {amount minimum : Nat}
    (h : depositSingleTokens chain outer s acc amount minimum = .ok s') :
    ∃ pool curve tradeDirection minted,
      DepositedSingle chain outer s s' acc pool curve tradeDirection amount minimum minted := by
  obtain ⟨pool, hpool, h⟩ := loadAccount_bind_ok h
  obtain ⟨hsigned, h⟩ := demand_bind_ok h
  obtain ⟨_, -, h⟩ := loadAccount_bind_ok h
  obtain ⟨a, ha, h⟩ := loadAccount_bind_ok h
  obtain ⟨b, hb, h⟩ := loadAccount_bind_ok h
  obtain ⟨mint, hmint, h⟩ := loadAccount_bind_ok h
  obtain ⟨_, -, h⟩ := ofProgram_bind_ok h
  obtain ⟨curve, hcurve, h⟩ := ofProgram_bind_ok h
  obtain ⟨tradeDirection, -, h⟩ := ofProgram_bind_ok h
  obtain ⟨_, hchecked, h⟩ := ofProgram_bind_ok h
  obtain ⟨minted, hminted, h⟩ := ofProgram_bind_ok h
  obtain ⟨l₁, htransfer, h⟩ := ofToken_bind_ok h
  obtain ⟨l₂, hmintTo, h⟩ := ofToken_bind_ok h
  obtain ⟨-, heqA, heqB, heqMint, -, -⟩ := checkAccounts_ok hchecked
  obtain ⟨u, -, hu, -, -, -, -, hauth, hkeeps₁, hsupply₁, hbalance₁⟩ :=
    Token.Ledger.transfer_ok htransfer
  obtain ⟨-, hkeeps₂, hsupply₂, hbalance₂⟩ := Token.Ledger.mintTo_ok hmintTo
  have hspares := (Token.Ledger.spares_transfer htransfer).trans
    (spares_of_mintTo outer.signers hmintTo)
  rw [heqA, heqB] at hbalance₁
  rw [heqA] at ha
  rw [heqB] at hb
  rw [heqMint] at hmint hsupply₂
  rw [← Token.Ledger.balance_of_some ha, ← Token.Ledger.balance_of_some hb,
    ← Token.Ledger.supply_of_some hmint] at hminted
  rw [← Except.ok.inj h]
  refine ⟨pool, curve, tradeDirection, minted, hpool, hcurve, hminted,
    ⟨rfl, hkeeps₁.trans hkeeps₂, hspares⟩, ?_, ?_, ⟨hsigned, u, hu, hauth⟩⟩
  · intro m
    show l₂.supply m = _
    rw [hsupply₂ m, hsupply₁ m]
  · intro k
    have h₁ := hbalance₁ k
    have h₂ := hbalance₂ k
    show s.token.balance k + _ ≤ l₂.balance k + _
    simp only at h₁
    omega

/-- The pool tokens of a withdrawal: burned from an account that the authority may move. -/
theorem takePoolTokens_ok {l l' : Token.Ledger Pubkey} {signers : List Pubkey}
    {source poolFee poolMint authority : Pubkey} {amounts : WithdrawAmounts}
    (h : takePoolTokens l signers source poolFee poolMint authority amounts = .ok l') :
    (∃ a, l.accounts source = some a ∧ a.mint = poolMint ∧ amounts.poolTokens ≤ a.amount ∧
      a.HasAuthority authority) ∧
      l.Keeps l' ∧ l.Spares signers l' ∧
      (∀ m, l'.supply m + (if m = poolMint then amounts.poolTokens else 0) = l.supply m) ∧
      ∀ k, l'.balance k + (if k = source then amounts.withdrawFee + amounts.poolTokens else 0) =
        l.balance k + (if k = poolFee then amounts.withdrawFee else 0) := by
  obtain ⟨fee, hfee, h⟩ := ofProgram_bind_ok h
  obtain ⟨l₁, hpay, h⟩ := bind_ok h
  obtain ⟨poolTokens, hpool, h⟩ := ofProgram_bind_ok h
  have hburn := ofToken_ok h
  rw [toU64_ok hfee] at hpay
  rw [toU64_ok hpool] at hburn
  obtain ⟨hkeeps₁, hspares₁, hsupply₁, hbalance₁⟩ := payOut_ok hpay
  obtain ⟨b, hb, hmint, hle, -, hauthority, hkeeps₂, hsupply₂, hbalance₂⟩ :=
    Token.Ledger.burn_ok hburn
  refine ⟨?_, hkeeps₁.trans hkeeps₂, hspares₁.trans (Token.Ledger.spares_burn hburn), ?_, ?_⟩
  · -- the account before the fee left it
    unfold payOut at hpay
    split at hpay
    · obtain ⟨a, -, ha, -, -, -, -, hauthority', -⟩ :=
        Token.Ledger.transfer_ok (ofToken_ok hpay)
      obtain ⟨b', hb', hsame⟩ := hkeeps₁ source a ha
      rw [hb] at hb'
      rw [← Option.some.inj hb'] at hsame
      have hle' := hbalance₁ source
      rw [if_pos rfl, Token.Ledger.balance_of_some hb, Token.Ledger.balance_of_some ha] at hle'
      refine ⟨a, ha, hsame.mint.symm.trans hmint, ?_, hauthority'⟩
      by_cases hself : source = poolFee
      · rw [if_pos hself] at hle'
        omega
      · rw [if_neg hself] at hle'
        omega
    · rw [← Except.ok.inj hpay] at hb
      exact ⟨b, hb, hmint, hle, hauthority⟩
  · intro m
    rw [hsupply₂ m, hsupply₁ m]
  · intro k
    have h₁ := hbalance₁ k
    have h₂ := hbalance₂ k
    by_cases hsource : k = source
    · rw [if_pos hsource] at h₁ h₂ ⊢
      omega
    · rw [if_neg hsource] at h₁ h₂ ⊢
      omega

/-- A withdrawal that succeeded: what it burned and paid out. -/
structure Withdrew (chain : Chain) (outer : Outer) (s s' : SwapState)
    (key authority userTransferAuthority source : Pubkey) (pool : Pool)
    (amounts : WithdrawAmounts) : Prop where
  pool_eq : s.pools key = some pool
  address : chain.createProgramAddress [key.toList, [pool.bumpSeed]] chain.programId =
    some authority
  signed : userTransferAuthority ∈ outer.signers
  burned : ∃ a, s.token.accounts source = some a ∧ a.mint = pool.poolMint ∧
    amounts.poolTokens ≤ a.amount ∧ a.HasAuthority userTransferAuthority
  pools_eq : s'.pools = s.pools
  keeps : s.token.Keeps s'.token
  /-- The pool signs as well, and nobody else does. -/
  spares : s.token.Spares (authority :: outer.signers) s'.token
  supply : ∀ m, s'.token.supply m + (if m = pool.poolMint then amounts.poolTokens else 0) =
    s.token.supply m
  balance : ∀ k, s.token.balance k ≤ s'.token.balance k +
    (if k = source then amounts.withdrawFee + amounts.poolTokens else 0) +
    (if k = pool.tokenA then amounts.tokenA else 0) +
    (if k = pool.tokenB then amounts.tokenB else 0)
  /-- What is paid out was there before the fee moved. -/
  covered : pool.poolFeeAccount ≠ pool.tokenA → pool.poolFeeAccount ≠ pool.tokenB →
    amounts.tokenA ≤ s.token.balance pool.tokenA ∧ amounts.tokenB ≤ s.token.balance pool.tokenB

theorem withdrawAllTokens_ok {chain : Chain} {outer : Outer} {s s' : SwapState}
    {acc : WithdrawAllAccounts} {pt minA minB : Nat}
    (h : withdrawAllTokens chain outer s acc pt minA minB = .ok s') :
    ∃ pool curve amounts, SwapCurve.tryFrom pool.curve = .ok curve ∧
      curve.calculator.allowsDeposits = true ∧
      withdrawAllAmounts curve pool.allFees (acc.poolFee = acc.source) pt minA minB
        (s.amounts pool) = .ok amounts ∧
      Withdrew chain outer s s' acc.tokenSwap acc.authority acc.userTransferAuthority acc.source
        pool amounts := by
  obtain ⟨pool, hpool, h⟩ := loadAccount_bind_ok h
  obtain ⟨hsigned, h⟩ := demand_bind_ok h
  obtain ⟨mint, hmint, h⟩ := loadAccount_bind_ok h
  obtain ⟨a, ha, h⟩ := loadAccount_bind_ok h
  obtain ⟨b, hb, h⟩ := loadAccount_bind_ok h
  obtain ⟨curve, hcurve, h⟩ := ofProgram_bind_ok h
  obtain ⟨hallowed, h⟩ := demand_bind_ok h
  obtain ⟨_, hchecked, h⟩ := ofProgram_bind_ok h
  obtain ⟨_, -, h⟩ := ofProgram_bind_ok h
  obtain ⟨amounts, hamounts, h⟩ := ofProgram_bind_ok h
  obtain ⟨l₁, htake, h⟩ := bind_ok h
  obtain ⟨l₂, hpayA, h⟩ := bind_ok h
  obtain ⟨l₃, hpayB, h⟩ := bind_ok h
  obtain ⟨haddress, heqA, heqB, heqMint, -, -⟩ := checkAccounts_ok hchecked
  obtain ⟨hburned, hkeeps₁, hspares₁, hsupply₁, hbalance₁⟩ := takePoolTokens_ok htake
  obtain ⟨hkeeps₂, hspares₂, hsupply₂, hbalance₂⟩ := payOut_ok hpayA
  obtain ⟨hkeeps₃, hspares₃, hsupply₃, hbalance₃⟩ := payOut_ok hpayB
  simp only at heqA heqB heqMint
  rw [heqA] at ha hbalance₂
  rw [heqB] at hb hbalance₃
  rw [heqMint] at hmint hburned hsupply₁
  rw [← Token.Ledger.balance_of_some ha, ← Token.Ledger.balance_of_some hb,
    ← Token.Ledger.supply_of_some hmint] at hamounts
  obtain ⟨results, -, htokenA, htokenB, -⟩ := withdrawAllAmounts_ok hamounts
  rw [← Except.ok.inj h]
  refine ⟨pool, curve, amounts, hcurve, hallowed, hamounts, hpool, haddress, hsigned, hburned,
    rfl, hkeeps₁.trans (hkeeps₂.trans hkeeps₃),
    (hspares₁.mono (List.subset_cons_self _ _)).trans (hspares₂.trans hspares₃), ?_, ?_, ?_⟩
  · intro m
    show l₃.supply m + _ = _
    rw [hsupply₃ m, hsupply₂ m, hsupply₁ m]
  · intro k
    have h₁ := hbalance₁ k
    have h₂ := hbalance₂ k
    have h₃ := hbalance₃ k
    show _ ≤ l₃.balance k + _ + _ + _
    omega
  · intro _ _
    rw [htokenA, htokenB]
    exact ⟨Nat.min_le_left _ _, Nat.min_le_left _ _⟩

theorem withdrawSingleTokens_ok {chain : Chain} {outer : Outer} {s s' : SwapState}
    {acc : WithdrawSingleAccounts} {amount maximum : Nat}
    (h : withdrawSingleTokens chain outer s acc amount maximum = .ok s') :
    ∃ pool curve tradeDirection amounts, SwapCurve.tryFrom pool.curve = .ok curve ∧
      withdrawSingleAmounts curve pool.allFees (acc.poolFee = acc.source) tradeDirection amount
        maximum (s.amounts pool) = .ok amounts ∧
      Withdrew chain outer s s' acc.tokenSwap acc.authority acc.userTransferAuthority acc.source
        pool amounts := by
  obtain ⟨pool, hpool, h⟩ := loadAccount_bind_ok h
  obtain ⟨hsigned, h⟩ := demand_bind_ok h
  obtain ⟨mint, hmint, h⟩ := loadAccount_bind_ok h
  obtain ⟨_, -, h⟩ := loadAccount_bind_ok h
  obtain ⟨a, ha, h⟩ := loadAccount_bind_ok h
  obtain ⟨b, hb, h⟩ := loadAccount_bind_ok h
  obtain ⟨_, -, h⟩ := loadAccount_bind_ok h
  obtain ⟨tradeDirection, -, h⟩ := ofProgram_bind_ok h
  obtain ⟨_, hchecked, h⟩ := ofProgram_bind_ok h
  obtain ⟨_, hfeeAccount, h⟩ := ofProgram_bind_ok h
  obtain ⟨curve, hcurve, h⟩ := ofProgram_bind_ok h
  obtain ⟨amounts, hamounts, h⟩ := ofProgram_bind_ok h
  obtain ⟨l₁, htake, h⟩ := bind_ok h
  obtain ⟨l₂, htransfer, h⟩ := ofToken_bind_ok h
  obtain ⟨haddress, heqA, heqB, heqMint, -, -⟩ := checkAccounts_ok hchecked
  have heqFee := require_ok hfeeAccount
  obtain ⟨hburned, hkeeps₁, hspares₁, hsupply₁, hbalance₁⟩ := takePoolTokens_ok htake
  have hspares₂ := Token.Ledger.spares_transfer htransfer
  obtain ⟨t, -, ht, -, hle, -, -, -, hkeeps₂, hsupply₂, hbalance₂⟩ :=
    Token.Ledger.transfer_ok htransfer
  simp only at heqA heqB heqMint
  rw [heqA] at ha
  rw [heqB] at hb
  rw [heqA, heqB] at ht hbalance₂
  rw [heqMint] at hmint hburned hsupply₁
  rw [heqFee] at hbalance₁
  rw [← Token.Ledger.balance_of_some ha, ← Token.Ledger.balance_of_some hb,
    ← Token.Ledger.supply_of_some hmint] at hamounts
  obtain ⟨-, -, hsingle⟩ := withdrawSingleAmounts_ok hamounts
  rw [← Token.Ledger.balance_of_some ht] at hle
  rw [← Except.ok.inj h]
  refine ⟨pool, curve, tradeDirection, amounts, hcurve, hamounts, hpool, haddress, hsigned,
    hburned, rfl, hkeeps₁.trans hkeeps₂,
    (hspares₁.mono (List.subset_cons_self _ _)).trans hspares₂, ?_, ?_, ?_⟩
  · intro m
    show l₂.supply m + _ = _
    rw [hsupply₂ m, hsupply₁ m]
  · intro k
    have h₁ := hbalance₁ k
    have h₂ := hbalance₂ k
    show _ ≤ l₂.balance k + _ + _ + _
    cases tradeDirection with
    | aToB =>
        rw [hsingle.1, hsingle.2]
        change _ + (if k = pool.tokenA then amount else 0) = _ at h₂
        omega
    | bToA =>
        rw [hsingle.1, hsingle.2]
        change _ + (if k = pool.tokenB then amount else 0) = _ at h₂
        omega
  · intro hfeeA hfeeB
    cases tradeDirection with
    | aToB =>
        rw [hsingle.1, hsingle.2]
        have h₁ := hbalance₁ pool.tokenA
        rw [if_neg (Ne.symm hfeeA)] at h₁
        change amount ≤ l₁.balance pool.tokenA at hle
        exact ⟨by omega, Nat.zero_le _⟩
    | bToA =>
        rw [hsingle.1, hsingle.2]
        have h₁ := hbalance₁ pool.tokenB
        rw [if_neg (Ne.symm hfeeB)] at h₁
        change amount ≤ l₁.balance pool.tokenB at hle
        exact ⟨Nat.zero_le _, by omega⟩

/-- A closed pool: both accounts the caller named are emptied, whosever they are. -/
structure Closed (chain : Chain) (outer : Outer) (s s' : SwapState) (acc : CloseAccounts)
    (pool : Pool) (address : Pubkey) : Prop where
  pool_eq : s.pools acc.tokenSwap = some pool
  address_eq : chain.createProgramAddress [acc.tokenSwap.toList, [pool.bumpSeed]]
    chain.programId = some address
  pools_eq : s'.pools = fun key => if key = acc.tokenSwap then none else s.pools key
  keeps : s.token.Keeps s'.token
  spares : s.token.Spares (address :: outer.signers) s'.token
  balance : ∀ k, s'.token.balance k +
      (if k = acc.swapTokenA then s.token.balance acc.swapTokenA else 0) +
      (if k = acc.swapTokenB then s.token.balance acc.swapTokenB else 0) =
    s.token.balance k + (if k = acc.destTokenA then s.token.balance acc.swapTokenA else 0) +
      (if k = acc.destTokenB then s.token.balance acc.swapTokenB else 0)

theorem close_ok {chain : Chain} {outer : Outer} {s s' : SwapState} {acc : CloseAccounts}
    (h : close chain outer s acc = .ok s') :
    ∃ pool address, Closed chain outer s s' acc pool address := by
  obtain ⟨pool, hpool, h⟩ := loadAccount_bind_ok h
  obtain ⟨a, ha, h⟩ := loadAccount_bind_ok h
  obtain ⟨b, hb, h⟩ := loadAccount_bind_ok h
  obtain ⟨_, -, h⟩ := loadAccount_bind_ok h
  obtain ⟨_, -, h⟩ := loadAccount_bind_ok h
  obtain ⟨-, h⟩ := demand_bind_ok h
  obtain ⟨address, haddress, h⟩ := ofProgram_bind_ok h
  obtain ⟨l₁, hpayA, h⟩ := bind_ok h
  obtain ⟨l₂, hpayB, h⟩ := bind_ok h
  obtain ⟨hkeeps₁, hspares₁, -, hbalance₁⟩ := payOut_ok hpayA
  obtain ⟨hkeeps₂, hspares₂, -, hbalance₂⟩ := payOut_ok hpayB
  rw [← Token.Ledger.balance_of_some ha] at hbalance₁
  rw [← Token.Ledger.balance_of_some hb] at hbalance₂
  rw [← Except.ok.inj h]
  refine ⟨pool, address, hpool, okOr_ok haddress, rfl, hkeeps₁.trans hkeeps₂,
    hspares₁.trans hspares₂, ?_⟩
  intro k
  have h₁ := hbalance₁ k
  have h₂ := hbalance₂ k
  show l₂.balance k + _ + _ = _
  omega

/-! ## Pools -/

/-- An account that only the address can move. -/
structure HeldBy (address : Pubkey) (a : Token.Account Pubkey) : Prop where
  owner : a.owner = address
  delegate : a.delegate = none
  closeAuthority : a.closeAuthority = none

theorem HeldBy.of_sameHolder {address : Pubkey} {a a' : Token.Account Pubkey}
    (h : HeldBy address a) (hsame : a.SameHolder a') : HeldBy address a' :=
  ⟨hsame.owner.trans h.owner, hsame.delegate h.delegate,
    hsame.closeAuthority.trans h.closeAuthority⟩

theorem HeldBy.guarded {address : Pubkey} {a : Token.Account Pubkey} (h : HeldBy address a)
    {signers : List Pubkey} (hout : address ∉ signers) : a.Guarded signers :=
  ⟨h.owner ▸ hout, h.delegate, h.closeAuthority⟩

/-- What `initialize` establishes for a pool and every instruction keeps: its address holds both
    token accounts, of two mints, and its fee account is neither. -/
structure Pool.Sound (chain : Chain) (token : Token.Ledger Pubkey) (key : Pubkey) (pool : Pool)
    (address : Pubkey) : Prop where
  /-- The account of the pool signed when it was created. -/
  signs : chain.canSign key = true
  address_eq : chain.createProgramAddress [key.toList, [pool.bumpSeed]] chain.programId =
    some address
  held : ∃ a b, token.accounts pool.tokenA = some a ∧ token.accounts pool.tokenB = some b ∧
    HeldBy address a ∧ HeldBy address b ∧ a.mint ≠ b.mint
  fee_ne_tokenA : pool.poolFeeAccount ≠ pool.tokenA
  fee_ne_tokenB : pool.poolFeeAccount ≠ pool.tokenB

namespace Pool.Sound

variable {chain : Chain} {token token' : Token.Ledger Pubkey} {key address : Pubkey} {pool : Pool}

/-- The two token accounts, one by one. -/
theorem account (h : pool.Sound chain token key address) {k : Pubkey}
    (hk : k = pool.tokenA ∨ k = pool.tokenB) :
    ∃ a, token.accounts k = some a ∧ HeldBy address a := by
  obtain ⟨a, b, ha, hb, hheldA, hheldB, -⟩ := h.held
  rcases hk with rfl | rfl
  · exact ⟨a, ha, hheldA⟩
  · exact ⟨b, hb, hheldB⟩

theorem tokenA_ne_tokenB (h : pool.Sound chain token key address) :
    pool.tokenA ≠ pool.tokenB := by
  obtain ⟨a, b, ha, hb, -, -, hne⟩ := h.held
  intro heq
  rw [heq, hb] at ha
  exact hne (congrArg Token.Account.mint (Option.some.inj ha).symm)

/-- Soundness is about the holders, and survives what keeps them. -/
theorem of_sameHolder (h : pool.Sound chain token key address)
    (hkeep : ∀ k a, token.accounts k = some a → HeldBy address a →
      ∃ a', token'.accounts k = some a' ∧ a.SameHolder a') :
    pool.Sound chain token' key address := by
  obtain ⟨a, b, ha, hb, hheldA, hheldB, hne⟩ := h.held
  obtain ⟨a', ha', hsameA⟩ := hkeep _ a ha hheldA
  obtain ⟨b', hb', hsameB⟩ := hkeep _ b hb hheldB
  exact ⟨h.signs, h.address_eq, ⟨a', b', ha', hb', hheldA.of_sameHolder hsameA,
    hheldB.of_sameHolder hsameB, by rw [hsameA.mint, hsameB.mint]; exact hne⟩,
    h.fee_ne_tokenA, h.fee_ne_tokenB⟩

theorem of_keeps (h : pool.Sound chain token key address) (hkeeps : token.Keeps token') :
    pool.Sound chain token' key address :=
  h.of_sameHolder (fun k a hk _ => hkeeps k a hk)

/-- A ledger that spares what the address holds leaves the pool's balances where they were. -/
theorem balance_le (h : pool.Sound chain token key address) {signers : List Pubkey}
    (hspares : token.Spares signers token') (hout : address ∉ signers) {k : Pubkey}
    (hk : k = pool.tokenA ∨ k = pool.tokenB) : token.balance k ≤ token'.balance k := by
  obtain ⟨a, ha, hheld⟩ := h.account hk
  obtain ⟨a', ha', -, hle⟩ := hspares k a ha (hheld.guarded hout)
  rw [Token.Ledger.balance_of_some ha, Token.Ledger.balance_of_some ha']
  exact hle

/-- No outside signer moves a token account of the pool. -/
theorem ne_of_hasAuthority (h : pool.Sound chain token key address) {signers : List Pubkey}
    (hout : address ∉ signers) {k authority : Pubkey} {a : Token.Account Pubkey}
    (ha : token.accounts k = some a) (hmem : authority ∈ signers)
    (hauthority : a.HasAuthority authority) : k ≠ pool.tokenA ∧ k ≠ pool.tokenB := by
  have hno : ∀ t, t = pool.tokenA ∨ t = pool.tokenB → k ≠ t := by
    rintro t ht rfl
    obtain ⟨a', ha', hheld⟩ := h.account ht
    rw [ha] at ha'
    rw [← Option.some.inj ha'] at hheld
    exact (hheld.guarded hout).not_hasAuthority hmem hauthority
  exact ⟨hno _ (Or.inl rfl), hno _ (Or.inr rfl)⟩

end Pool.Sound

/-- A pool that was created. -/
structure Created (chain : Chain) (s s' : SwapState) (acc : InitializeAccounts)
    (pool : Pool) (curve : SwapCurve) (address : Pubkey) : Prop where
  fresh : s.pools acc.tokenSwap = none
  pools_eq : s'.pools = fun key => if key = acc.tokenSwap then some pool else s.pools key
  keeps : s.token.Keeps s'.token
  spares : ∀ guard, s.token.Spares guard s'.token
  sound : pool.Sound chain s.token acc.tokenSwap address
  curve_eq : SwapCurve.tryFrom pool.curve = .ok curve
  curve_valid : curve.validate = .ok ()
  fees_valid : pool.allFees.validate = .ok ()

theorem initializePool_ok {chain : Chain} (hlawful : chain.Lawful) {outer : Outer}
    {s s' : SwapState} {acc : InitializeAccounts} {feesInput : Fees} {curveInput : CurveInfo}
    {swapPolicy addLiquidityPolicy : Option Pubkey}
    (hsigners : ∀ key ∈ outer.signers, chain.canSign key = true)
    (h : initializePool chain outer s acc feesInput curveInput swapPolicy addLiquidityPolicy =
      .ok s') : ∃ pool curve address, Created chain s s' acc pool curve address := by
  obtain ⟨hsigned, h⟩ := demand_bind_ok h
  obtain ⟨hfresh, h⟩ := demand_bind_ok h
  obtain ⟨mint, -, h⟩ := loadAccount_bind_ok h
  obtain ⟨a, ha, h⟩ := loadAccount_bind_ok h
  obtain ⟨b, hb, h⟩ := loadAccount_bind_ok h
  obtain ⟨fee, hfee, h⟩ := loadAccount_bind_ok h
  obtain ⟨_, -, h⟩ := loadAccount_bind_ok h
  obtain ⟨haddress, h⟩ := demand_bind_ok h
  obtain ⟨hownerA, h⟩ := demand_bind_ok h
  obtain ⟨hownerB, h⟩ := demand_bind_ok h
  obtain ⟨-, h⟩ := demand_bind_ok h
  obtain ⟨hownerFee, h⟩ := demand_bind_ok h
  obtain ⟨-, h⟩ := demand_bind_ok h
  obtain ⟨hmints, h⟩ := demand_bind_ok h
  obtain ⟨curve, hcurve, h⟩ := ofProgram_bind_ok h
  obtain ⟨_, -, h⟩ := ofProgram_bind_ok h
  obtain ⟨hdelegateA, h⟩ := demand_bind_ok h
  obtain ⟨hdelegateB, h⟩ := demand_bind_ok h
  obtain ⟨hcloseA, h⟩ := demand_bind_ok h
  obtain ⟨hcloseB, h⟩ := demand_bind_ok h
  obtain ⟨-, h⟩ := demand_bind_ok h
  obtain ⟨-, h⟩ := demand_bind_ok h
  obtain ⟨-, h⟩ := demand_bind_ok h
  obtain ⟨_, -, h⟩ := ofProgram_bind_ok h
  obtain ⟨_, hfees, h⟩ := ofProgram_bind_ok h
  obtain ⟨_, hvalid, h⟩ := ofProgram_bind_ok h
  obtain ⟨initialAmount, -, h⟩ := ofProgram_bind_ok h
  obtain ⟨address, haddress', h⟩ := ofProgram_bind_ok h
  obtain ⟨token, hmintTo, h⟩ := ofToken_bind_ok h
  obtain ⟨-, hkeeps, -, -⟩ := Token.Ledger.mintTo_ok hmintTo
  have hcan := hsigners _ hsigned
  have hfound := hlawful.find acc.tokenSwap _ _ hcan
    (Prod.mk.eta (p := chain.findProgramAddress [acc.tokenSwap.toList] chain.programId)).symm
  rw [← haddress] at hfound
  rw [← Except.ok.inj h]
  refine ⟨_, curve, acc.authority, Option.isNone_iff_eq_none.mp hfresh, rfl, hkeeps,
    fun guard => spares_of_mintTo guard hmintTo,
    ⟨hcan, hfound, ⟨a, b, ha, hb, ⟨hownerA.symm, hdelegateA, hcloseA⟩,
      ⟨hownerB.symm, hdelegateB, hcloseB⟩, hmints⟩, ?_, ?_⟩, hcurve, hvalid, hfees⟩
  · intro heq
    simp only at heq
    rw [heq, ha] at hfee
    rw [← Option.some.inj hfee] at hownerFee
    exact hownerFee hownerA
  · intro heq
    simp only at heq
    rw [heq, hb] at hfee
    rw [← Option.some.inj hfee] at hownerFee
    exact hownerFee hownerB

end Albus.Integration
