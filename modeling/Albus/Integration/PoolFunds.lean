import Albus.Integration.SwapEffects

/-! # What takes tokens out of a pool

    Every pool's address holds its two token accounts, in every state a run
    reaches.  So only an instruction on that pool can lower them: a swap, a
    withdrawal, or the closing of the pool.  The first two pay the pool for it,
    one in the other token and one in pool tokens, except that a swap against an
    empty source side is free where the fees are; the third asks for nothing. -/

namespace Albus.Integration

open Albus.Lib Albus.Program

/-! ## Every pool is sound -/

/-- Every pool of the state holds its accounts. -/
def SwapState.Sound (chain : Chain) (s : SwapState) : Prop :=
  ∀ key pool, s.pools key = some pool → ∃ address, pool.Sound chain s.token key address

theorem SwapState.Sound.of_keeps {chain : Chain} {s s' : SwapState} (hs : s.Sound chain)
    (hpools : s'.pools = s.pools) (hkeeps : s.token.Keeps s'.token) : s'.Sound chain := by
  intro key pool hpool
  rw [hpools] at hpool
  obtain ⟨address, hsound⟩ := hs key pool hpool
  exact ⟨address, hsound.of_keeps hkeeps⟩

section

variable {chain : Chain} {s s' : SwapState}

/-- A pool's address signs nothing from outside. -/
theorem address_not_mem (hlawful : chain.Lawful) {signers : List Pubkey}
    (hsigners : ∀ key ∈ signers, chain.canSign key = true) {key address : Pubkey} {pool : Pool}
    (h : pool.Sound chain s.token key address) : address ∉ signers := by
  intro hmem
  have hcan := hsigners address hmem
  rw [hlawful.outside _ _ h.address_eq] at hcan
  exact nomatch hcan

/-- Another pool's address does not sign for this one. -/
theorem address_not_mem_cons (hlawful : chain.Lawful) {signers : List Pubkey}
    (hsigners : ∀ key ∈ signers, chain.canSign key = true) {key key' address address' : Pubkey}
    {pool : Pool} {bump : UInt8} (h : pool.Sound chain s.token key address)
    (hcan' : chain.canSign key' = true)
    (haddress' : chain.createProgramAddress [key'.toList, [bump]] chain.programId = some address')
    (hne : key ≠ key') : address ∉ address' :: signers := by
  intro hmem
  cases hmem with
  | head => exact hne (hlawful.inj _ _ _ _ _ h.signs hcan' h.address_eq haddress')
  | tail _ hmem => exact address_not_mem hlawful hsigners h hmem

theorem SwapState.run_of_step {call : SwapCall} (h : s.step chain call = .ok s') :
    (∀ key ∈ call.signers, chain.canSign key = true) ∧
      s.run chain call.toOuter call.instruction = .ok s' := by
  unfold SwapState.step at h
  split at h
  · rename_i hsigners
    exact ⟨hsigners, h⟩
  · exact nomatch h

/-- **INVARIANT.** No call takes the accounts of a pool from its address. -/
theorem SwapState.Sound.step (hlawful : chain.Lawful) {call : SwapCall} (hs : s.Sound chain)
    (h : s.step chain call = .ok s') : s'.Sound chain := by
  obtain ⟨hsigners, h⟩ := SwapState.run_of_step h
  cases hcall : call.instruction with
  | initializePool acc feesInput curveInput swapPolicy addLiquidityPolicy =>
      rw [hcall] at h
      obtain ⟨pool, curve, address, hcreated⟩ := initializePool_ok hlawful hsigners h
      intro key pool' hpool'
      rw [hcreated.pools_eq] at hpool'
      by_cases hkey : key = acc.tokenSwap
      · simp only [if_pos hkey] at hpool'
        obtain rfl := Option.some.inj hpool'
        rw [hkey]
        exact ⟨address, hcreated.sound.of_keeps hcreated.keeps⟩
      · simp only [if_neg hkey] at hpool'
        obtain ⟨address', hsound⟩ := hs key pool' hpool'
        exact ⟨address', hsound.of_keeps hcreated.keeps⟩
  | swap acc amountIn minimumAmountOut =>
      rw [hcall] at h
      obtain ⟨_, _, _, _, _, hswapped⟩ := swapTokens_ok h
      exact hs.of_keeps hswapped.pools_eq hswapped.keeps
  | depositAllTokenTypes acc pt maxA maxB =>
      rw [hcall] at h
      obtain ⟨_, _, _, hdeposited⟩ := depositAllTokens_ok h
      exact hs.of_keeps hdeposited.onlySigned.pools_eq hdeposited.onlySigned.keeps
  | depositSingleTokenType acc amount minimum =>
      rw [hcall] at h
      obtain ⟨_, _, _, _, hdeposited⟩ := depositSingleTokens_ok h
      exact hs.of_keeps hdeposited.onlySigned.pools_eq hdeposited.onlySigned.keeps
  | withdrawAllTokenTypes acc pt minA minB =>
      rw [hcall] at h
      obtain ⟨_, _, _, -, -, -, hwithdrew⟩ := withdrawAllTokens_ok h
      exact hs.of_keeps hwithdrew.pools_eq hwithdrew.keeps
  | withdrawSingleTokenType acc amount maximum =>
      rw [hcall] at h
      obtain ⟨_, _, _, _, -, -, hwithdrew⟩ := withdrawSingleTokens_ok h
      exact hs.of_keeps hwithdrew.pools_eq hwithdrew.keeps
  | close acc =>
      rw [hcall] at h
      obtain ⟨_, _, hclosed⟩ := close_ok h
      intro key pool' hpool'
      rw [hclosed.pools_eq] at hpool'
      simp only at hpool'
      split at hpool'
      · exact nomatch hpool'
      · obtain ⟨address', hsound⟩ := hs key pool' hpool'
        exact ⟨address', hsound.of_keeps hclosed.keeps⟩
  | token tokenCall =>
      rw [hcall] at h
      obtain ⟨token, htoken, h⟩ := ofToken_bind_ok h
      rw [← Except.ok.inj h]
      intro key pool hpool
      obtain ⟨address, hsound⟩ := hs key pool hpool
      have hout := address_not_mem hlawful hsigners hsound
      refine ⟨address, hsound.of_sameHolder ?_⟩
      intro k a ha hheld
      obtain ⟨a', ha', hsame, -⟩ :=
        Token.Ledger.spares_call htoken k a ha (hheld.guarded hout)
      exact ⟨a', ha', hsame⟩

theorem SwapState.Sound.of_run (hlawful : chain.Lawful) {s₀ : SwapState}
    (hnone : ∀ key, s₀.pools key = none) {history : List (Transition SwapState SwapCall)}
    (hrun : Run (SwapState.step chain) s₀ history s) : s.Sound chain := by
  refine hrun.preserves ?_ (fun _ _ _ hs h => hs.step hlawful h)
  intro key pool hpool
  rw [hnone key] at hpool
  exact nomatch hpool

end

/-! ## Value for what is taken -/

/-- One of the balances of the pool has fallen. -/
def Lowers (s s' : SwapState) (pool : Pool) : Prop :=
  s'.token.balance pool.tokenA < s.token.balance pool.tokenA ∨
    s'.token.balance pool.tokenB < s.token.balance pool.tokenB

theorem not_lowers {s s' : SwapState} {pool : Pool}
    (h : ∀ k, k = pool.tokenA ∨ k = pool.tokenB → s.token.balance k ≤ s'.token.balance k) :
    ¬Lowers s s' pool := by
  rintro (hA | hB)
  · exact absurd (h _ (Or.inl rfl)) (Nat.not_le_of_lt hA)
  · exact absurd (h _ (Or.inr rfl)) (Nat.not_le_of_lt hB)

/-- A swap on the pool that pays in the source amount of the curve, which is not nothing, for
    the destination amount. -/
def PaidBySwap (s s' : SwapState) (instruction : SwapInstruction) (key : Pubkey) (pool : Pool) :
    Prop :=
  ∃ acc amountIn minimumAmountOut tradeDirection curve result,
    instruction = .swap acc amountIn minimumAmountOut ∧ acc.tokenSwap = key ∧
      SwapCurve.tryFrom pool.curve = .ok curve ∧
      curve.calculator.swap amountIn ((s.amounts pool).source tradeDirection)
        ((s.amounts pool).destination tradeDirection) tradeDirection pool.fees = some result ∧
      0 < result.sourceAmountSwapped ∧
      (s.amounts pool).source tradeDirection + result.sourceAmountSwapped ≤
        (s'.amounts pool).source tradeDirection ∧
      (s.amounts pool).destination tradeDirection ≤
        (s'.amounts pool).destination tradeDirection + result.destinationAmountSwapped

/-- The amounts of a withdrawal from the pool, as the curve requires them. -/
def WithdrawalOf (s : SwapState) (key : Pubkey) (pool : Pool) (curve : SwapCurve)
    (source authority : Pubkey) (amounts : WithdrawAmounts) : SwapInstruction → Prop
  | .withdrawAllTokenTypes acc pt minA minB =>
      acc.tokenSwap = key ∧ acc.source = source ∧ acc.userTransferAuthority = authority ∧
        withdrawAllAmounts curve pool.allFees (acc.poolFee = acc.source) pt minA minB
          (s.amounts pool) = .ok amounts
  | .withdrawSingleTokenType acc amount maximum =>
      acc.tokenSwap = key ∧ acc.source = source ∧ acc.userTransferAuthority = authority ∧
        ∃ tradeDirection, withdrawSingleAmounts curve pool.allFees (acc.poolFee = acc.source)
          tradeDirection amount maximum (s.amounts pool) = .ok amounts
  | _ => False

/-- A withdrawal from the pool that burns pool tokens, and not none of them, from an account
    whose authority signed. -/
def BurnedByWithdrawal (s s' : SwapState) (call : SwapCall) (key : Pubkey) (pool : Pool) : Prop :=
  ∃ curve source authority amounts account,
    SwapCurve.tryFrom pool.curve = .ok curve ∧
      WithdrawalOf s key pool curve source authority amounts call.instruction ∧
      0 < amounts.poolTokens ∧
      s'.token.supply pool.poolMint + amounts.poolTokens = s.token.supply pool.poolMint ∧
      s.token.accounts source = some account ∧ account.mint = pool.poolMint ∧
      amounts.poolTokens ≤ account.amount ∧ authority ∈ call.signers ∧
      account.HasAuthority authority ∧
      s.token.balance pool.tokenA ≤ s'.token.balance pool.tokenA + amounts.tokenA ∧
      s.token.balance pool.tokenB ≤ s'.token.balance pool.tokenB + amounts.tokenB

/-- A step that lowers a balance of a pool pays for it. -/
def AgainstValue (t : Transition SwapState SwapCall) : Prop :=
  ∀ key pool, t.pre.pools key = some pool → Lowers t.pre t.post pool →
    PaidBySwap t.pre t.post t.call.instruction key pool ∨
      BurnedByWithdrawal t.pre t.post t.call key pool

/-- None of the signers can move a pool token. -/
def HoldsNone (s : SwapState) (signers : List Pubkey) (pool : Pool) : Prop :=
  ∀ k a, s.token.accounts k = some a → a.mint = pool.poolMint → 0 < a.amount →
    ∀ authority ∈ signers, ¬a.HasAuthority authority

/-- A signer who can move no pool tokens lowers a balance by a paid swap alone. -/
theorem AgainstValue.paid_of_holdsNone {t : Transition SwapState SwapCall}
    (h : AgainstValue t) {key : Pubkey} {pool : Pool} (hpool : t.pre.pools key = some pool)
    (hlowers : Lowers t.pre t.post pool) (hnone : HoldsNone t.pre t.call.signers pool) :
    PaidBySwap t.pre t.post t.call.instruction key pool := by
  rcases h key pool hpool hlowers with hpaid | hburned
  · exact hpaid
  · obtain ⟨-, source, authority, amounts, account, -, -, hpos, -, haccount, hmint, hle, hmem,
      hauthority, -, -⟩ := hburned
    exact absurd hauthority
      (hnone source account haccount hmint (Nat.lt_of_lt_of_le hpos hle) authority hmem)

/-! ## When it fails -/

/-- The source side that the curve multiplies is empty. -/
def SwapCurve.EmptySource (tradeDirection : TradeDirection) (swapSourceAmount : Nat) :
    SwapCurve → Prop
  | .constantProduct => swapSourceAmount = 0
  | .constantPrice _ => False
  | .offset tokenBOffset => Offset.swapSource tokenBOffset swapSourceAmount tradeDirection = some 0

/-- A swap against an empty source side, of an amount without fees. -/
def FreeSwap (s : SwapState) (acc : SwapAccounts) (amountIn : Nat) : Prop :=
  ∃ pool curve tradeDirection, s.pools acc.tokenSwap = some pool ∧
    SwapCurve.tryFrom pool.curve = .ok curve ∧
    acc.poolSource = tradeDirection.pick pool.tokenA pool.tokenB ∧
    curve.EmptySource tradeDirection (s.token.balance acc.poolSource) ∧
    pool.fees.tradingFee amountIn = some 0 ∧ pool.fees.ownerTradingFee amountIn = some 0

/-- What `close` moves out of an account. -/
def closeOut (s : SwapState) (acc : CloseAccounts) (k : Pubkey) : Nat :=
  (if k = acc.swapTokenA then s.token.balance acc.swapTokenA else 0) +
    (if k = acc.swapTokenB then s.token.balance acc.swapTokenB else 0)

/-- What `close` moves into an account. -/
def closeIn (s : SwapState) (acc : CloseAccounts) (k : Pubkey) : Nat :=
  (if k = acc.destTokenA then s.token.balance acc.swapTokenA else 0) +
    (if k = acc.destTokenB then s.token.balance acc.swapTokenB else 0)

/-- A `close` that moves more out of a pool's account than into it. -/
def Drains (s : SwapState) (acc : CloseAccounts) : Prop :=
  ∃ key pool k, s.pools key = some pool ∧ (k = pool.tokenA ∨ k = pool.tokenB) ∧
    closeIn s acc k < closeOut s acc k

/-- Neither of the two ways to take tokens for nothing. -/
def Fair (s : SwapState) : SwapInstruction → Prop
  | .close acc => ¬Drains s acc
  | .swap acc amountIn _ => ¬FreeSwap s acc amountIn
  | _ => True

/-! ## The curves -/

section

variable {curve : SwapCurve} {tradeDirection : TradeDirection} {s x y : Nat}

/-- A curve gives something, or it gives no result. -/
theorem destinationAmountSwapped_pos {moved : SwapWithoutFeesResult}
    (h : curve.calculator.swapWithoutFees s x y tradeDirection = some moved) :
    0 < moved.destinationAmountSwapped := by
  have hproduct : ∀ x y, ConstantProduct.swap s x y = some moved →
      0 < moved.destinationAmountSwapped := by
    intro x y hswap
    simp only [ConstantProduct.swap, Option.bind_eq_bind, Option.bind_eq_some_iff] at hswap
    obtain ⟨_, -, _, -, _, -, _, -, _, -, swapped, hswapped, hresult⟩ := hswap
    rw [← Option.some.inj hresult]
    obtain ⟨hpos, heq⟩ := mapZeroToNone_eq_some hswapped
    exact heq ▸ hpos
  cases curve with
  | constantProduct => exact hproduct x y h
  | constantPrice tokenBPrice =>
      change ConstantPrice.swapWithoutFees tokenBPrice s tradeDirection = some moved at h
      simp only [ConstantPrice.swapWithoutFees, Option.bind_eq_bind,
        Option.bind_eq_some_iff] at h
      obtain ⟨_, -, _, -, swapped, hswapped, hresult⟩ := h
      rw [← Option.some.inj hresult]
      obtain ⟨hpos, heq⟩ := mapZeroToNone_eq_some hswapped
      exact heq ▸ hpos
  | offset tokenBOffset =>
      obtain ⟨x', -, h⟩ := Option.bind_eq_some_iff.mp h
      obtain ⟨y', -, h⟩ := Option.bind_eq_some_iff.mp h
      exact hproduct x' y' h

/-- A curve takes nothing exactly when the side it multiplies is empty. -/
theorem sourceAmountSwapped_eq_zero_iff {moved : SwapWithoutFeesResult}
    (h : curve.calculator.swapWithoutFees s x y tradeDirection = some moved) :
    moved.sourceAmountSwapped = 0 ↔ curve.EmptySource tradeDirection x := by
  have hproduct : ∀ x y, ConstantProduct.swap s x y = some moved →
      (moved.sourceAmountSwapped = 0 ↔ x = 0) := by
    intro x y hswap
    rcases Nat.eq_zero_or_pos x with rfl | hx
    · exact ⟨fun _ => rfl, fun _ => (ConstantProduct.swap_empty hswap).1⟩
    · obtain ⟨-, -, hpos, -⟩ := ConstantProduct.swap_eq_some hswap hx
      omega
  cases curve with
  | constantProduct => exact hproduct x y h
  | constantPrice tokenBPrice =>
      change ConstantPrice.swapWithoutFees tokenBPrice s tradeDirection = some moved at h
      simp only [ConstantPrice.swapWithoutFees, Option.bind_eq_bind,
        Option.bind_eq_some_iff] at h
      obtain ⟨_, -, source, hsource, _, -, hresult⟩ := h
      rw [← Option.some.inj hresult]
      obtain ⟨hpos, rfl⟩ := mapZeroToNone_eq_some hsource
      exact ⟨fun hzero => absurd hzero (Nat.pos_iff_ne_zero.mp hpos), fun hempty => hempty.elim⟩
  | offset tokenBOffset =>
      obtain ⟨x', hx', h⟩ := Option.bind_eq_some_iff.mp h
      obtain ⟨y', -, h⟩ := Option.bind_eq_some_iff.mp h
      rw [hproduct x' y' h]
      show x' = 0 ↔ Offset.swapSource tokenBOffset x tradeDirection = some 0
      rw [hx', Option.some.injEq]

/-- A swap takes nothing exactly when neither the curve nor the fees do. -/
theorem swap_source_eq_zero_iff {fees : FeesInfo} {amountIn : Nat} {result : SwapResult}
    (h : curve.calculator.swap amountIn x y tradeDirection fees = some result) :
    result.sourceAmountSwapped = 0 ↔ curve.EmptySource tradeDirection x ∧
      fees.tradingFee amountIn = some 0 ∧ fees.ownerTradingFee amountIn = some 0 := by
  obtain ⟨tradeFee, moved, htrade, howner, -, hmoved, hsource, -⟩ :=
    CurveCalculator.swap_eq_some h
  rw [← sourceAmountSwapped_eq_zero_iff hmoved, hsource, htrade, howner, Option.some.injEq,
    Option.some.injEq]
  omega

/-- No pool tokens buy nothing. -/
theorem poolTokensToTradingTokens_zero {supply a b : Nat} {results : TradingTokenResult}
    (h : curve.calculator.poolTokensToTradingTokens 0 supply a b .floor = some results) :
    results.tokenAAmount = 0 ∧ results.tokenBAmount = 0 := by
  have hone : ∀ {a tokens : Nat},
      ConstantProduct.tradingTokens 0 supply a .floor = some tokens → tokens = 0 := by
    intro a tokens htokens
    simp only [ConstantProduct.tradingTokens, Option.bind_eq_bind,
      Option.bind_eq_some_iff] at htokens
    obtain ⟨product, hproduct, amount, hamount, hsome⟩ := htokens
    obtain ⟨-, rfl⟩ := checkedDiv_eq_some hamount
    rw [← Option.some.inj hsome, checkedMul_eq_some hproduct, Nat.zero_mul, Nat.zero_div]
  have hproduct : ∀ {b : Nat},
      ConstantProduct.poolTokensToTradingTokens 0 supply a b .floor = some results →
      results.tokenAAmount = 0 ∧ results.tokenBAmount = 0 := by
    intro b hresults
    obtain ⟨tokenA, htokenA, hresults⟩ := Option.bind_eq_some_iff.mp hresults
    obtain ⟨tokenB, htokenB, hresults⟩ := Option.bind_eq_some_iff.mp hresults
    rw [← Option.some.inj hresults]
    exact ⟨hone htokenA, hone htokenB⟩
  cases curve with
  | constantProduct => exact hproduct h
  | constantPrice tokenBPrice =>
      obtain ⟨total, -, h⟩ := Option.bind_eq_some_iff.mp h
      obtain ⟨product, hmul, h⟩ := Option.bind_eq_some_iff.mp h
      obtain ⟨tokenA, htokenA, h⟩ := Option.bind_eq_some_iff.mp h
      obtain ⟨value, hvalue, h⟩ := Option.bind_eq_some_iff.mp h
      obtain ⟨tokenB, htokenB, h⟩ := Option.bind_eq_some_iff.mp h
      obtain ⟨-, rfl⟩ := checkedDiv_eq_some htokenA
      obtain ⟨-, rfl⟩ := checkedDiv_eq_some hvalue
      obtain ⟨-, rfl⟩ := checkedDiv_eq_some htokenB
      rw [← Option.some.inj h, checkedMul_eq_some hmul]
      simp only [Nat.zero_mul, Nat.zero_div, and_self]
  | offset tokenBOffset =>
      obtain ⟨b', -, h⟩ := Option.bind_eq_some_iff.mp h
      exact hproduct h

end

/-! ## One instruction -/

section

variable {chain : Chain} {s s' : SwapState}

/-- Two pools have no token account in common. -/
theorem ne_of_key_ne (hlawful : chain.Lawful) {key key' address address' : Pubkey}
    {pool pool' : Pool} (h : pool.Sound chain s.token key address)
    (h' : pool'.Sound chain s.token key' address') (hne : key ≠ key') {k k' : Pubkey}
    (hk : k = pool.tokenA ∨ k = pool.tokenB) (hk' : k' = pool'.tokenA ∨ k' = pool'.tokenB) :
    k ≠ k' := by
  rintro rfl
  obtain ⟨a, ha, hheld⟩ := h.account hk
  obtain ⟨a', ha', hheld'⟩ := h'.account hk'
  rw [ha] at ha'
  have heq : address = address' := by
    rw [← hheld.owner, ← hheld'.owner, Option.some.inj ha']
  exact hne (hlawful.inj _ _ _ _ _ h.signs h'.signs h.address_eq (heq ▸ h'.address_eq))

/-- The key of a direction is one of the two. -/
theorem pick_eq_or (pool : Pool) (tradeDirection : TradeDirection) :
    tradeDirection.pick pool.tokenA pool.tokenB = pool.tokenA ∨
      tradeDirection.pick pool.tokenA pool.tokenB = pool.tokenB := by
  cases tradeDirection with
  | aToB => exact Or.inl rfl
  | bToA => exact Or.inr rfl

/-- What spares the accounts of outsiders lowers no pool. -/
theorem not_lowers_of_spares {signers : List Pubkey} {key address : Pubkey} {pool : Pool}
    (h : pool.Sound chain s.token key address) (hspares : s.token.Spares signers s'.token)
    (hout : address ∉ signers) : ¬Lowers s s' pool :=
  not_lowers (fun _ hk => h.balance_le hspares hout hk)

/-- A swap on a sound pool: its source account gains, its destination account gives. -/
theorem swapped_sides (hlawful : chain.Lawful) {outer : Outer} {acc : SwapAccounts}
    {amountIn minimumAmountOut : Nat} {pool : Pool} {tradeDirection : TradeDirection}
    {curve : SwapCurve} {result : SwapResult} {minted : Nat} {address : Pubkey}
    (hsigners : ∀ key ∈ outer.signers, chain.canSign key = true)
    (hsound : pool.Sound chain s.token acc.tokenSwap address)
    (h : Swapped chain outer s s' acc amountIn minimumAmountOut pool tradeDirection curve result
      minted) :
    (s.amounts pool).source tradeDirection + result.sourceAmountSwapped ≤
        (s'.amounts pool).source tradeDirection ∧
      (s.amounts pool).destination tradeDirection ≤
        (s'.amounts pool).destination tradeDirection + result.destinationAmountSwapped := by
  obtain ⟨-, hsource, hdestination, hne, -⟩ := checkSwap_ok h.checked
  obtain ⟨a, ha, hauthority⟩ := h.payer
  obtain ⟨hneA, hneB⟩ := hsound.ne_of_hasAuthority
    (address_not_mem hlawful hsigners hsound) ha h.signed hauthority
  have hnot : ∀ k, k = pool.tokenA ∨ k = pool.tokenB → k ≠ acc.userSource := by
    rintro k (rfl | rfl)
    · exact hneA.symm
    · exact hneB.symm
  obtain ⟨hpreSource, hpreDestination⟩ := balance_pick s pool tradeDirection
  obtain ⟨hpostSource, hpostDestination⟩ := balance_pick s' pool tradeDirection
  rw [← hsource] at hpreSource hpostSource
  rw [← hdestination] at hpreDestination hpostDestination
  have hbalance := h.balance acc.poolSource
  have hbalance' := h.balance acc.poolDestination
  rw [if_pos rfl, if_neg (hnot _ (hsource ▸ pick_eq_or pool tradeDirection)), if_neg hne,
    hpreSource, hpostSource] at hbalance
  rw [if_neg (Ne.symm hne),
    if_neg (hnot _ (hdestination ▸ pick_eq_or pool tradeDirection.opposite)), if_pos rfl,
    hpreDestination, hpostDestination] at hbalance'
  exact ⟨by omega, by omega⟩

/-- A swap touches no account of another pool. -/
theorem swapped_other (hlawful : chain.Lawful) {outer : Outer} {acc : SwapAccounts}
    {amountIn minimumAmountOut : Nat} {pool pool' : Pool} {tradeDirection : TradeDirection}
    {curve : SwapCurve} {result : SwapResult} {minted : Nat} {key address address' : Pubkey}
    (hsigners : ∀ key ∈ outer.signers, chain.canSign key = true)
    (hsound : pool.Sound chain s.token acc.tokenSwap address)
    (hsound' : pool'.Sound chain s.token key address') (hne : key ≠ acc.tokenSwap)
    (h : Swapped chain outer s s' acc amountIn minimumAmountOut pool tradeDirection curve result
      minted) : ¬Lowers s s' pool' := by
  obtain ⟨-, -, hdestination, -⟩ := checkSwap_ok h.checked
  obtain ⟨a, ha, hauthority⟩ := h.payer
  obtain ⟨hneA, hneB⟩ := hsound'.ne_of_hasAuthority
    (address_not_mem hlawful hsigners hsound') ha h.signed hauthority
  refine not_lowers ?_
  intro k hk
  have huser : k ≠ acc.userSource := by
    rcases hk with rfl | rfl
    · exact hneA.symm
    · exact hneB.symm
  have hpool : k ≠ acc.poolDestination := by
    rw [hdestination]
    exact ne_of_key_ne hlawful hsound' hsound hne hk (pick_eq_or pool tradeDirection.opposite)
  have hbalance := h.balance k
  rw [if_neg huser, if_neg hpool] at hbalance
  omega

/-- **SWAP.** A swap is paid for unless it is free. -/
theorem againstValue_swap (hlawful : chain.Lawful) (hs : s.Sound chain) {call : SwapCall}
    (hsigners : ∀ key ∈ call.signers, chain.canSign key = true) {acc : SwapAccounts}
    {amountIn minimumAmountOut : Nat}
    (hcall : call.instruction = .swap acc amountIn minimumAmountOut)
    (h : swapTokens chain call.toOuter s acc amountIn minimumAmountOut = .ok s') :
    AgainstValue ⟨s, call, s'⟩ ↔ ¬FreeSwap s acc amountIn := by
  obtain ⟨pool, tradeDirection, curve, result, minted, hswapped⟩ := swapTokens_ok h
  obtain ⟨address, hsound⟩ := hs _ _ hswapped.pool_eq
  obtain ⟨hgains, hgives⟩ := swapped_sides hlawful hsigners hsound hswapped
  obtain ⟨-, hsource, hdestination, hne, huserSource, huserDestination, -⟩ :=
    checkSwap_ok hswapped.checked
  have hresult := swapAmounts_ok hswapped.result_eq
  have hfree : FreeSwap s acc amountIn ↔ result.sourceAmountSwapped = 0 := by
    rw [swap_source_eq_zero_iff hresult, ← (balance_pick s pool tradeDirection).1, ← hsource]
    constructor
    · rintro ⟨pool', curve', tradeDirection', hpool', hcurve', hsource', hempty⟩
      rw [hswapped.pool_eq] at hpool'
      obtain rfl := Option.some.inj hpool'
      rw [hswapped.curve_eq] at hcurve'
      obtain rfl := Except.ok.inj hcurve'
      have hdirection : tradeDirection' = tradeDirection := by
        rw [hsource] at hsource'
        cases tradeDirection with
        | aToB =>
            cases tradeDirection' with
            | aToB => rfl
            | bToA => exact absurd hsource' hsound.tokenA_ne_tokenB
        | bToA =>
            cases tradeDirection' with
            | aToB => exact absurd hsource'.symm hsound.tokenA_ne_tokenB
            | bToA => rfl
      rw [hdirection] at hempty
      exact hempty
    · intro hempty
      exact ⟨pool, curve, tradeDirection, hswapped.pool_eq, hswapped.curve_eq, hsource, hempty⟩
  constructor
  · intro hvalue hisFree
    have hzero := hfree.mp hisFree
    -- without fees nothing but the destination amount moves
    have howner : result.ownerFee = 0 := by
      obtain ⟨-, -, hnone⟩ := (swap_source_eq_zero_iff hresult).mp hzero
      obtain ⟨_, _, -, howner, -⟩ := CurveCalculator.swap_eq_some hresult
      rw [hnone] at howner
      exact (Option.some.inj howner).symm
    have hpos : 0 < result.destinationAmountSwapped := by
      obtain ⟨_, moved, -, -, -, hmoved, -, -, heq, -⟩ := CurveCalculator.swap_eq_some hresult
      rw [heq]
      exact destinationAmountSwapped_pos hmoved
    have hexact := hswapped.exact howner acc.poolDestination
    rw [hzero, ite_self, ite_self, if_pos rfl, if_neg huserDestination] at hexact
    have hlower : (s'.amounts pool).destination tradeDirection <
        (s.amounts pool).destination tradeDirection := by
      rw [← (balance_pick s' pool tradeDirection).2, ← (balance_pick s pool tradeDirection).2,
        ← hdestination]
      omega
    have hlowers : Lowers s s' pool := by
      cases tradeDirection with
      | aToB => exact Or.inr hlower
      | bToA => exact Or.inl hlower
    rcases hvalue _ pool hswapped.pool_eq hlowers with hpaid | hburned
    · obtain ⟨acc', amountIn', _, tradeDirection', curve', result', heq, -, hcurve', hresult',
        hpos', hgains', -⟩ := hpaid
      change call.instruction = _ at heq
      rw [hcall] at heq
      obtain ⟨rfl, rfl, rfl⟩ := SwapInstruction.swap.inj heq
      rw [hswapped.curve_eq] at hcurve'
      obtain rfl := Except.ok.inj hcurve'
      change _ ≤ (s'.amounts pool).source tradeDirection' at hgains'
      by_cases hdirection : tradeDirection' = tradeDirection
      · rw [hdirection] at hresult'
        rw [hresult] at hresult'
        rw [← Option.some.inj hresult', hzero] at hpos'
        exact absurd hpos' (Nat.lt_irrefl 0)
      · -- the other side is the one that gave
        have hopposite : ∀ pool : PoolAmounts,
            pool.source tradeDirection' = pool.destination tradeDirection := by
          intro pool
          cases tradeDirection with
          | aToB =>
              cases tradeDirection' with
              | aToB => exact absurd rfl hdirection
              | bToA => rfl
          | bToA =>
              cases tradeDirection' with
              | aToB => rfl
              | bToA => exact absurd rfl hdirection
        change (s.amounts pool).source tradeDirection' + _ ≤ _ at hgains'
        rw [hopposite, hopposite] at hgains'
        omega
    · obtain ⟨_, _, _, _, _, -, hwithdrawal, -⟩ := hburned
      change WithdrawalOf _ _ _ _ _ _ _ call.instruction at hwithdrawal
      rw [hcall] at hwithdrawal
      exact hwithdrawal
  · intro hnot key pool' hpool' hlowers
    by_cases hkey : key = acc.tokenSwap
    · rw [hkey] at hpool' ⊢
      change s.pools _ = _ at hpool'
      rw [hswapped.pool_eq] at hpool'
      obtain rfl := Option.some.inj hpool'
      refine Or.inl ⟨acc, amountIn, minimumAmountOut, tradeDirection, curve, result, hcall, rfl,
        hswapped.curve_eq, hresult, ?_, hgains, hgives⟩
      exact Nat.pos_of_ne_zero (fun hzero => hnot (hfree.mpr hzero))
    · obtain ⟨address', hsound'⟩ := hs key pool' hpool'
      exact absurd hlowers (swapped_other hlawful hsigners hsound hsound' hkey hswapped)

/-- **WITHDRAWAL.** What leaves a pool by a withdrawal is burned for. -/
theorem burned_of_withdrew (hlawful : chain.Lawful) (hs : s.Sound chain) {call : SwapCall}
    (hsigners : ∀ key ∈ call.signers, chain.canSign key = true)
    {key authority userTransferAuthority source : Pubkey} {pool : Pool} {curve : SwapCurve}
    {amounts : WithdrawAmounts} (hcurve : SwapCurve.tryFrom pool.curve = .ok curve)
    (hof : WithdrawalOf s key pool curve source userTransferAuthority amounts call.instruction)
    (hnone : amounts.poolTokens = 0 → amounts.tokenA = 0 ∧ amounts.tokenB = 0)
    (h : Withdrew chain call.toOuter s s' key authority userTransferAuthority source pool
      amounts) : AgainstValue ⟨s, call, s'⟩ := by
  intro key' pool' hpool' hlowers
  obtain ⟨address, hsound⟩ := hs key pool h.pool_eq
  by_cases hkey : key' = key
  · rw [hkey] at hpool' ⊢
    change s.pools key = _ at hpool'
    rw [h.pool_eq] at hpool'
    obtain rfl := Option.some.inj hpool'
    obtain ⟨account, haccount, hmint, hle, hauthority⟩ := h.burned
    obtain ⟨hneA, hneB⟩ := hsound.ne_of_hasAuthority
      (address_not_mem hlawful hsigners hsound) haccount h.signed hauthority
    have hbalanceA := h.balance pool.tokenA
    have hbalanceB := h.balance pool.tokenB
    have hsupply := h.supply pool.poolMint
    rw [if_neg hneA.symm, if_pos rfl, if_neg hsound.tokenA_ne_tokenB] at hbalanceA
    rw [if_neg hneB.symm, if_pos rfl, if_neg hsound.tokenA_ne_tokenB.symm] at hbalanceB
    rw [if_pos rfl] at hsupply
    have hpos : 0 < amounts.poolTokens := by
      refine Nat.pos_of_ne_zero ?_
      intro hzero
      obtain ⟨hzeroA, hzeroB⟩ := hnone hzero
      rcases hlowers with hA | hB
      · change s'.token.balance _ < s.token.balance _ at hA
        omega
      · change s'.token.balance _ < s.token.balance _ at hB
        omega
    exact Or.inr ⟨curve, source, userTransferAuthority, amounts, account, hcurve, hof, hpos,
      hsupply, haccount, hmint, hle, h.signed, hauthority, by omega, by omega⟩
  · obtain ⟨address', hsound'⟩ := hs key' pool' hpool'
    exact absurd hlowers (not_lowers_of_spares hsound' h.spares
      (address_not_mem_cons hlawful hsigners hsound' hsound.signs h.address hkey))

/-- **CLOSE.** A close is against value only where it takes nothing out of any pool. -/
theorem againstValue_close {call : SwapCall} {acc : CloseAccounts}
    (hcall : call.instruction = .close acc)
    (h : Integration.close chain call.toOuter s acc = .ok s') :
    AgainstValue ⟨s, call, s'⟩ ↔ ¬Drains s acc := by
  obtain ⟨_, address, hclosed⟩ := close_ok h
  have hbalance : ∀ k, s'.token.balance k + closeOut s acc k =
      s.token.balance k + closeIn s acc k := by
    intro k
    have heq := hclosed.balance k
    simp only [closeOut, closeIn]
    omega
  constructor
  · rintro hvalue ⟨key, pool, k, hpool, hk, hlt⟩
    have hlower := hbalance k
    have hlowers : Lowers s s' pool := by
      rcases hk with rfl | rfl
      · exact Or.inl (by omega)
      · exact Or.inr (by omega)
    rcases hvalue key pool hpool hlowers with hpaid | hburned
    · obtain ⟨_, _, _, _, _, _, heq, -⟩ := hpaid
      change call.instruction = _ at heq
      rw [hcall] at heq
      exact nomatch heq
    · obtain ⟨_, _, _, _, _, -, hwithdrawal, -⟩ := hburned
      change WithdrawalOf _ _ _ _ _ _ _ call.instruction at hwithdrawal
      rw [hcall] at hwithdrawal
      exact hwithdrawal
  · intro hnot key pool hpool hlowers
    refine absurd ?_ hnot
    rcases hlowers with hA | hB
    · have heq := hbalance pool.tokenA
      change s'.token.balance _ < s.token.balance _ at hA
      exact ⟨key, pool, _, hpool, Or.inl rfl, by omega⟩
    · have heq := hbalance pool.tokenB
      change s'.token.balance _ < s.token.balance _ at hB
      exact ⟨key, pool, _, hpool, Or.inr rfl, by omega⟩

/-- **STEP.** A call takes tokens out of pools against value exactly when it is fair. -/
theorem againstValue_step (hlawful : chain.Lawful) (hs : s.Sound chain) {call : SwapCall}
    (h : s.step chain call = .ok s') :
    AgainstValue ⟨s, call, s'⟩ ↔ Fair s call.instruction := by
  obtain ⟨hsigners, h⟩ := SwapState.run_of_step h
  have hspared : s.token.Spares call.signers s'.token → AgainstValue ⟨s, call, s'⟩ := by
    intro hspares key pool hpool hlowers
    obtain ⟨address, hsound⟩ := hs key pool hpool
    exact absurd hlowers (not_lowers_of_spares hsound hspares
      (address_not_mem hlawful hsigners hsound))
  cases hcall : call.instruction with
  | initializePool acc feesInput curveInput swapPolicy addLiquidityPolicy =>
      rw [hcall] at h
      obtain ⟨_, _, _, hcreated⟩ := initializePool_ok hlawful hsigners h
      exact iff_of_true (hspared (hcreated.spares _)) trivial
  | swap acc amountIn minimumAmountOut =>
      rw [hcall] at h
      exact againstValue_swap hlawful hs hsigners hcall h
  | depositAllTokenTypes acc pt maxA maxB =>
      rw [hcall] at h
      obtain ⟨_, _, _, hdeposited⟩ := depositAllTokens_ok h
      exact iff_of_true (hspared hdeposited.onlySigned.spares) trivial
  | depositSingleTokenType acc amount minimum =>
      rw [hcall] at h
      obtain ⟨_, _, _, _, hdeposited⟩ := depositSingleTokens_ok h
      exact iff_of_true (hspared hdeposited.onlySigned.spares) trivial
  | withdrawAllTokenTypes acc pt minA minB =>
      rw [hcall] at h
      obtain ⟨pool, curve, amounts, hcurve, -, hamounts, hwithdrew⟩ := withdrawAllTokens_ok h
      refine iff_of_true (burned_of_withdrew hlawful hs hsigners hcurve ?_ ?_ hwithdrew) trivial
      · rw [hcall]
        exact ⟨rfl, rfl, rfl, hamounts⟩
      · intro hzero
        obtain ⟨results, hresults, htokenA, htokenB, -⟩ := withdrawAllAmounts_ok hamounts
        rw [hzero] at hresults
        obtain ⟨hzeroA, hzeroB⟩ := poolTokensToTradingTokens_zero hresults
        rw [htokenA, htokenB, hzeroA, hzeroB]
        exact ⟨Nat.min_zero _, Nat.min_zero _⟩
  | withdrawSingleTokenType acc amount maximum =>
      rw [hcall] at h
      obtain ⟨pool, curve, tradeDirection, amounts, hcurve, hamounts, hwithdrew⟩ :=
        withdrawSingleTokens_ok h
      refine iff_of_true (burned_of_withdrew hlawful hs hsigners hcurve ?_ ?_ hwithdrew) trivial
      · rw [hcall]
        exact ⟨rfl, rfl, rfl, tradeDirection, hamounts⟩
      · intro hzero
        obtain ⟨-, hpos, -⟩ := withdrawSingleAmounts_ok hamounts
        omega
  | close acc =>
      rw [hcall] at h
      exact againstValue_close hcall h
  | token tokenCall =>
      rw [hcall] at h
      obtain ⟨token, htoken, h⟩ := ofToken_bind_ok h
      rw [← Except.ok.inj h] at hspared ⊢
      exact iff_of_true (hspared (Token.Ledger.spares_call htoken)) trivial

/-- **POOL FUNDS.** In every run that starts before there are pools, a step takes tokens out of
    pools against value exactly when it is fair: it is no `close` that drains a pool, and no swap
    for free against an empty side.  In a fair step a signer without pool tokens pays in the
    other token. -/
theorem againstValue_iff_fair (hlawful : chain.Lawful) {s₀ : SwapState}
    (hnone : ∀ key, s₀.pools key = none) {history : List (Transition SwapState SwapCall)}
    (hrun : Run (SwapState.step chain) s₀ history s) :
    ∀ t ∈ history, (AgainstValue t ↔ Fair t.pre t.call.instruction) ∧
      (Fair t.pre t.call.instruction → ∀ key pool, t.pre.pools key = some pool →
        Lowers t.pre t.post pool → HoldsNone t.pre t.call.signers pool →
        PaidBySwap t.pre t.post t.call.instruction key pool) := by
  intro t ht
  obtain ⟨earlier, hearlier, hstep⟩ := hrun.run_of_mem ht
  have hiff := againstValue_step hlawful (SwapState.Sound.of_run hlawful hnone hearlier) hstep
  refine ⟨hiff, ?_⟩
  intro hfair key pool hpool hlowers hholds
  exact (hiff.mpr hfair).paid_of_holdsNone hpool hlowers hholds

end

/-! ## A chain to compute on -/

namespace ToyChain

theorem first_lt : 0 < 32 := by decide

theorem last_lt : 31 < 32 := by decide

def key (n : UInt8) : Pubkey := (Vector.replicate 32 0).set 31 n last_lt

/-- The program address of a key whose first byte is zero. -/
def derived (seed : List UInt8) : Option Pubkey :=
  if h : seed.length = 32 ∧ seed.head? = some 0 then
    some ⟨(1 :: seed.tail).toArray, by simp [h.1]⟩
  else none

def programAddress : List (List UInt8) → Option Pubkey
  | [seed, [_]] => derived seed
  | _ => none

/-- Keys that start with a zero are people's, those that start with a one are the program's. -/
def chain : Chain where
  programId := key 0
  createProgramAddress seeds _ := programAddress seeds
  findProgramAddress seeds _ := ((seeds.head?.bind derived).getD (key 0), 255)
  canSign key := key.toList.head? = some 0
  swapConstraints := none

theorem derived_toList {seed : List UInt8} {address : Pubkey} (h : derived seed = some address) :
    address.toList = 1 :: seed.tail ∧ seed.head? = some 0 := by
  unfold derived at h
  split at h
  · rename_i hseed
    rw [← Option.some.inj h]
    exact ⟨rfl, hseed.2⟩
  · exact nomatch h

theorem chain_lawful : chain.Lawful where
  inj key key' bump bump' address _ _ h h' := by
    obtain ⟨haddress, hhead⟩ := derived_toList (show derived key.toList = some address from h)
    obtain ⟨haddress', hhead'⟩ := derived_toList (show derived key'.toList = some address from h')
    rw [haddress] at haddress'
    have htail : key.toList.tail = key'.toList.tail := (List.cons.inj haddress').2
    refine Vector.toList_inj.mp ?_
    rw [← List.cons_head?_tail hhead, ← List.cons_head?_tail hhead', htail]
  find key address bump hcan h := by
    have hhead : key.toList.head? = some 0 := of_decide_eq_true hcan
    have hsome : ∃ address, derived key.toList = some address := by
      unfold derived
      rw [dif_pos ⟨Vector.length_toList, hhead⟩]
      exact ⟨_, rfl⟩
    obtain ⟨derivedKey, hderived⟩ := hsome
    have heq : ((derived key.toList).getD _, (255 : UInt8)) = (address, bump) := h
    rw [hderived] at heq
    show derived key.toList = some address
    rw [hderived, ← (Prod.mk.inj heq).1]
    rfl
  outside seeds address h := by
    refine decide_eq_false ?_
    intro hcan
    change programAddress seeds = some address at h
    unfold programAddress at h
    split at h
    · rw [(derived_toList h).1] at hcan
      exact absurd (Option.some.inj hcan) (by decide)
    · exact nomatch h

/-- The address of the pool under key 1. -/
def address : Pubkey := (key 1).set 0 1 first_lt

def held (mint owner : Pubkey) (amount : Nat) : Token.Account Pubkey where
  mint := mint
  owner := owner
  amount := amount
  delegate := none
  delegatedAmount := 0
  closeAuthority := none

/-- The state after a call. -/
def after (s : SwapState) (call : SwapCall) : SwapState := afterCall (SwapState.step chain) s call

end ToyChain

/-! ## A pool that a stranger closes -/

namespace StrangersClose

open ToyChain

/-- The pool's accounts 2 and 3, its fee account 4, the founder's account 5, a trader's accounts 6
    and 7, a stranger's accounts 8 and 9. -/
def accounts : List (Pubkey × Token.Account Pubkey) :=
  [(key 2, held (key 20) address 1000), (key 3, held (key 21) address 1000),
    (key 4, held (key 22) (key 30) 0), (key 5, held (key 22) (key 30) 0),
    (key 6, held (key 20) (key 31) 100), (key 7, held (key 21) (key 31) 0),
    (key 8, held (key 20) (key 32) 0), (key 9, held (key 21) (key 32) 0)]

def start : SwapState where
  token :=
    { accounts := fun k => accounts.lookup k
      mints := fun m =>
        if m = key 22 then
          some { mintAuthority := some address, supply := 0, freezeAuthority := none }
        else none }
  pools _ := none

def fees : Fees where
  tradeFeeNumerator := 1
  tradeFeeDenominator := 100
  ownerTradeFeeNumerator := 0
  ownerTradeFeeDenominator := 0
  hostFeeNumerator := 0
  hostFeeDenominator := 0
  ownerWithdrawFeeNumerator := 0
  ownerWithdrawFeeDenominator := 0

/-- The founder's call. -/
def created : SwapCall where
  signers := [key 30, key 1]
  now := 0
  instruction := .initializePool
    { authority := address, tokenSwap := key 1, poolMint := key 22, tokenA := key 2,
      tokenB := key 3, poolFee := key 4, destination := key 5, tokenProgram := key 40 }
    fees { curveType := 0, curveParameters := Vector.replicate 32 0 } none none

def swapAccounts : SwapAccounts where
  proofRequest := none
  tokenSwap := key 1
  authority := address
  userTransferAuthority := key 31
  userSource := key 6
  userDestination := key 7
  poolSource := key 2
  poolDestination := key 3
  poolMint := key 22
  poolFee := key 4
  hostFeeAccount := none
  tokenProgram := key 40

/-- The trader's call. -/
def traded : SwapCall where
  signers := [key 31]
  now := 0
  instruction := .swap swapAccounts 100 0

def closeAccounts : CloseAccounts where
  authority := address
  tokenSwap := key 1
  swapTokenA := key 2
  swapTokenB := key 3
  destTokenA := key 8
  destTokenB := key 9
  payer := key 32

/-- The stranger's call. -/
def closed : SwapCall where
  signers := [key 32]
  now := 0
  instruction := .close closeAccounts

def opened : SwapState := after start created

def used : SwapState := after opened traded

def drained : SwapState := after used closed

/-- The three calls in one evaluation: they succeed, and leave these amounts. -/
theorem computed :
    ((start.step chain created).isOk = true ∧ (opened.step chain traded).isOk = true ∧
      (used.step chain closed).isOk = true) ∧
    (used.token.balance (key 3) < opened.token.balance (key 3) ∧
      (opened.pools (key 1)).bind (fun pool => pool.fees.tradingFee 100) = some 1) ∧
    ((used.pools (key 1)).map (fun pool => pool.tokenA) = some (key 2) ∧
      closeIn used closeAccounts (key 2) < closeOut used closeAccounts (key 2)) ∧
    drained.token.balance (key 2) = 0 ∧ drained.token.balance (key 3) = 0 ∧
      drained.token.balance (key 8) = 1100 := by decide +kernel

theorem run_opened : Run (SwapState.step chain) start [⟨start, created, opened⟩] opened :=
  Run.init.step (step_afterCall computed.1.1)

theorem run_used : Run (SwapState.step chain) start
    [⟨opened, traded, used⟩, ⟨start, created, opened⟩] used :=
  run_opened.step (step_afterCall computed.1.2.1)

theorem run_drained : Run (SwapState.step chain) start
    [⟨used, closed, drained⟩, ⟨opened, traded, used⟩, ⟨start, created, opened⟩] drained :=
  run_used.step (step_afterCall computed.1.2.2)

end StrangersClose

/-- The trader's swap takes from account 3 and pays for it. -/
theorem againstValue_iff_fair_swap :
    AgainstValue ⟨StrangersClose.opened, StrangersClose.traded, StrangersClose.used⟩ ∧
      StrangersClose.used.token.balance (ToyChain.key 3) <
        StrangersClose.opened.token.balance (ToyChain.key 3) := by
  obtain ⟨hbalance, hfee⟩ := StrangersClose.computed.2.1
  refine ⟨?_, hbalance⟩
  refine (againstValue_iff_fair ToyChain.chain_lawful (fun _ => rfl)
    StrangersClose.run_used _ List.mem_cons_self).1.mpr ?_
  rintro ⟨pool, curve, tradeDirection, hpool, -, -, -, htrade, -⟩
  change StrangersClose.opened.pools (ToyChain.key 1) = some pool at hpool
  rw [hpool, Option.bind_some, htrade] at hfee
  exact nomatch hfee

/-- **A STRANGER CLOSES THE POOL**: without a pool token he empties both of its accounts into his
    own. -/
theorem close_takes_for_nothing :
    ToyChain.chain.Lawful ∧ (∀ key, StrangersClose.start.pools key = none) ∧
      ∃ history, Run (SwapState.step ToyChain.chain) StrangersClose.start history
          StrangersClose.drained ∧
        (∃ t ∈ history, ¬AgainstValue t) ∧
        StrangersClose.drained.token.balance (ToyChain.key 2) = 0 ∧
        StrangersClose.drained.token.balance (ToyChain.key 3) = 0 ∧
        StrangersClose.drained.token.balance (ToyChain.key 8) = 1100 := by
  refine ⟨ToyChain.chain_lawful, fun _ => rfl, _, StrangersClose.run_drained,
    ⟨_, List.mem_cons_self, ?_⟩, StrangersClose.computed.2.2.2⟩
  have hsound := SwapState.Sound.of_run ToyChain.chain_lawful (fun _ => rfl)
    StrangersClose.run_used
  have hstep := StrangersClose.run_drained.step_of_mem List.mem_cons_self
  rw [againstValue_step ToyChain.chain_lawful hsound hstep]
  show ¬¬Drains StrangersClose.used StrangersClose.closeAccounts
  rw [not_not]
  obtain ⟨hused, hless⟩ := StrangersClose.computed.2.2.1
  obtain ⟨pool, hpool, htokenA⟩ := Option.map_eq_some_iff.mp hused
  exact ⟨_, pool, ToyChain.key 2, hpool, Or.inl htokenA.symm, hless⟩

end Albus.Integration
