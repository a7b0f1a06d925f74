import Albus.Integration.ConstantPriceShares
import Albus.Integration.ConstantProductShares
import Albus.Integration.PoolFunds

/-! # The ledger refines the amounts

    A call on a sound pool does to its two accounts and its mint what the machine
    on the three numbers does; a balance may end higher, where somebody names the
    pool's account as his own to receive.  So what the numbers keep, the ledger
    keeps. -/

namespace Albus.Integration

open Albus.Lib Albus.Program PoolAmounts

/-- The instruction on the pool that an operation on its numbers stands for. -/
def SwapInstruction.Does (key : Pubkey) (op : PoolOperation) : SwapInstruction → Prop
  | .swap acc amountIn minimumAmountOut =>
      acc.tokenSwap = key ∧ ∃ tradeDirection,
        op = .swap tradeDirection acc.hostFeeAccount.isSome amountIn minimumAmountOut
  | .depositAllTokenTypes acc pt maxA maxB => acc.tokenSwap = key ∧ op = .depositAll pt maxA maxB
  | .depositSingleTokenType acc amount minimum =>
      acc.tokenSwap = key ∧ ∃ tradeDirection, op = .depositSingle tradeDirection amount minimum
  | .withdrawAllTokenTypes acc pt minA minB =>
      acc.tokenSwap = key ∧ op = .withdrawAll (acc.poolFee = acc.source) pt minA minB
  | .withdrawSingleTokenType acc amount maximum =>
      acc.tokenSwap = key ∧ ∃ tradeDirection,
        op = .withdrawSingle tradeDirection (acc.poolFee = acc.source) amount maximum
  | _ => False

/-- An instruction that moves the tokens of the pool by its curve. -/
def SwapInstruction.On (key : Pubkey) : SwapInstruction → Prop
  | .swap acc _ _ => acc.tokenSwap = key
  | .depositAllTokenTypes acc _ _ _ => acc.tokenSwap = key
  | .depositSingleTokenType acc _ _ => acc.tokenSwap = key
  | .withdrawAllTokenTypes acc _ _ _ => acc.tokenSwap = key
  | .withdrawSingleTokenType acc _ _ => acc.tokenSwap = key
  | _ => False

/-- At least the balances, and the same supply. -/
structure PoolAmounts.Below (amounts actual : PoolAmounts) : Prop where
  tokenA : amounts.tokenA ≤ actual.tokenA
  tokenB : amounts.tokenB ≤ actual.tokenB
  supply : amounts.supply = actual.supply

section

variable {chain : Chain} {s s' : SwapState} {key address : Pubkey} {pool : Pool}
  {curve : SwapCurve}

theorem step_swap {fees : Fees} {amounts : PoolAmounts} {tradeDirection : TradeDirection}
    {host : Bool} {amountIn minimumAmountOut minted : Nat} {result : SwapResult}
    (hresult : swapAmounts curve fees.toFeesInfo tradeDirection amountIn minimumAmountOut
      (amounts.source tradeDirection) (amounts.destination tradeDirection) = .ok result)
    (hsource : toU64 result.sourceAmountSwapped = .ok result.sourceAmountSwapped)
    (hdestination : toU64 result.destinationAmountSwapped = .ok result.destinationAmountSwapped)
    (hminted : feeMinted curve fees.toFeesInfo tradeDirection host result.ownerFee
      (amounts.traded result tradeDirection).tokenA (amounts.traded result tradeDirection).tokenB
      amounts.supply = .ok minted) :
    amounts.step curve fees (.swap tradeDirection host amountIn minimumAmountOut) =
      .ok { amounts.traded result tradeDirection with supply := amounts.supply + minted } := by
  show PoolAmounts.swap _ _ _ _ _ _ _ = _
  unfold PoolAmounts.swap
  rw [hresult]
  change (toU64 result.sourceAmountSwapped >>= _) = _
  rw [hsource]
  change (feeMinted _ _ _ _ _ _ _ _ >>= _) = _
  rw [hminted]
  change (toU64 result.destinationAmountSwapped >>= _) = _
  rw [hdestination]
  rfl

theorem refines_swap (hlawful : chain.Lawful) {outer : Outer}
    (hsigners : ∀ key ∈ outer.signers, chain.canSign key = true) {acc : SwapAccounts}
    {amountIn minimumAmountOut minted : Nat} {tradeDirection : TradeDirection}
    {result : SwapResult} (hsound : pool.Sound chain s.token acc.tokenSwap address)
    (h : Swapped chain outer s s' acc amountIn minimumAmountOut pool tradeDirection curve result
      minted) :
    ∃ after, (s.amounts pool).step curve pool.allFees
        (.swap tradeDirection acc.hostFeeAccount.isSome amountIn minimumAmountOut) = .ok after ∧
      after.Below (s'.amounts pool) := by
  refine ⟨_, step_swap h.result_eq h.source_fits h.destination_fits h.minted_eq, ?_⟩
  obtain ⟨hgains, hgives⟩ := swapped_sides hlawful hsigners hsound h
  obtain ⟨-, -, -, -, -, -, hmint, -⟩ := checkSwap_ok h.checked
  obtain ⟨_, _, -, -, -, -, -, hnewSource, -, -, hnewDestination⟩ :=
    CurveCalculator.swap_eq_some (swapAmounts_ok h.result_eq)
  have hsupply := h.supply pool.poolMint
  rw [if_pos hmint.symm] at hsupply
  cases tradeDirection with
  | aToB =>
      refine ⟨?_, ?_, hsupply.symm⟩
      · show result.newSwapSourceAmount ≤ _
        rw [hnewSource]
        exact hgains
      · show result.newSwapDestinationAmount ≤ _
        rw [hnewDestination]
        exact Nat.sub_le_iff_le_add.mpr hgives
  | bToA =>
      refine ⟨?_, ?_, hsupply.symm⟩
      · show result.newSwapDestinationAmount ≤ _
        rw [hnewDestination]
        exact Nat.sub_le_iff_le_add.mpr hgives
      · show result.newSwapSourceAmount ≤ _
        rw [hnewSource]
        exact hgains

theorem refines_depositAll (hlawful : chain.Lawful) {outer : Outer}
    (hsigners : ∀ key ∈ outer.signers, chain.canSign key = true) {acc : DepositAllAccounts}
    {pt maxA maxB : Nat} {amounts : DepositAmounts}
    (hsound : pool.Sound chain s.token acc.tokenSwap address)
    (h : DepositedAll chain outer s s' acc pool curve pt maxA maxB amounts) :
    ∃ after, (s.amounts pool).step curve pool.allFees (.depositAll pt maxA maxB) = .ok after ∧
      after.Below (s'.amounts pool) := by
  obtain ⟨hsigned, ⟨uA, huA, hauthA⟩, l, uB, hkeeps, huB, hauthB⟩ := h.payers
  have hout := address_not_mem hlawful hsigners hsound
  obtain ⟨hAA, hAB⟩ := hsound.ne_of_hasAuthority hout huA hsigned hauthA
  obtain ⟨hBA, hBB⟩ := (hsound.of_keeps hkeeps).ne_of_hasAuthority hout huB hsigned hauthB
  have hA := h.balance pool.tokenA
  have hB := h.balance pool.tokenB
  have hsupply := h.supply pool.poolMint
  rw [if_pos rfl, if_neg hsound.tokenA_ne_tokenB, if_neg hAA.symm, if_neg hBA.symm] at hA
  rw [if_neg hsound.tokenA_ne_tokenB.symm, if_pos rfl, if_neg hAB.symm, if_neg hBB.symm] at hB
  rw [if_pos rfl] at hsupply
  refine ⟨(s.amounts pool).deposit amounts.tokenA amounts.tokenB amounts.poolTokens, ?_,
    hA, hB, hsupply.symm⟩
  show (depositAllAmounts curve pt maxA maxB (s.amounts pool) >>= _) = _
  rw [h.amounts_eq]
  rfl

theorem refines_depositSingle (hlawful : chain.Lawful) {outer : Outer}
    (hsigners : ∀ key ∈ outer.signers, chain.canSign key = true) {acc : DepositSingleAccounts}
    {tradeDirection : TradeDirection} {amount minimum minted : Nat}
    (hsound : pool.Sound chain s.token acc.tokenSwap address)
    (h : DepositedSingle chain outer s s' acc pool curve tradeDirection amount minimum minted) :
    ∃ after, (s.amounts pool).step curve pool.allFees
        (.depositSingle tradeDirection amount minimum) = .ok after ∧
      after.Below (s'.amounts pool) := by
  obtain ⟨hsigned, u, hu, hauth⟩ := h.payer
  obtain ⟨hneA, hneB⟩ := hsound.ne_of_hasAuthority
    (address_not_mem hlawful hsigners hsound) hu hsigned hauth
  have hA := h.balance pool.tokenA
  have hB := h.balance pool.tokenB
  have hsupply := h.supply pool.poolMint
  rw [if_neg hneA.symm] at hA
  rw [if_neg hneB.symm] at hB
  rw [if_pos rfl] at hsupply
  cases tradeDirection with
  | aToB =>
      change _ + (if pool.tokenA = pool.tokenA then amount else 0) ≤ _ at hA
      change _ + (if pool.tokenB = pool.tokenA then amount else 0) ≤ _ at hB
      rw [if_pos rfl] at hA
      rw [if_neg hsound.tokenA_ne_tokenB.symm] at hB
      refine ⟨(s.amounts pool).deposit amount 0 minted, ?_, hA, hB, hsupply.symm⟩
      show (depositSingleAmount curve pool.fees .aToB amount minimum (s.amounts pool) >>= _) = _
      rw [h.minted_eq]
      rfl
  | bToA =>
      change _ + (if pool.tokenA = pool.tokenB then amount else 0) ≤ _ at hA
      change _ + (if pool.tokenB = pool.tokenB then amount else 0) ≤ _ at hB
      rw [if_neg hsound.tokenA_ne_tokenB] at hA
      rw [if_pos rfl] at hB
      refine ⟨(s.amounts pool).deposit 0 amount minted, ?_, hA, hB, hsupply.symm⟩
      show (depositSingleAmount curve pool.fees .bToA amount minimum (s.amounts pool) >>= _) = _
      rw [h.minted_eq]
      rfl

theorem checkedSub_of_le {a b : Nat} (h : b ≤ a) : checkedSub a b = some (a - b) := if_pos h

/-- The burn and the payments of a withdrawal, on the numbers. -/
theorem refines_withdraw (hlawful : chain.Lawful) {outer : Outer}
    (hsigners : ∀ key ∈ outer.signers, chain.canSign key = true)
    {authority userTransferAuthority source : Pubkey} {amounts : WithdrawAmounts}
    (hsound : pool.Sound chain s.token key address)
    (h : Withdrew chain outer s s' key authority userTransferAuthority source pool amounts) :
    ∃ after, (s.amounts pool).withdraw amounts = .ok after ∧ after.Below (s'.amounts pool) := by
  obtain ⟨account, haccount, -, -, hauthority⟩ := h.burned
  obtain ⟨hneA, hneB⟩ := hsound.ne_of_hasAuthority
    (address_not_mem hlawful hsigners hsound) haccount h.signed hauthority
  obtain ⟨hleA, hleB⟩ : amounts.tokenA ≤ (s.amounts pool).tokenA ∧
      amounts.tokenB ≤ (s.amounts pool).tokenB :=
    h.covered hsound.fee_ne_tokenA hsound.fee_ne_tokenB
  have hA := h.balance pool.tokenA
  have hB := h.balance pool.tokenB
  have hsupply := h.supply pool.poolMint
  rw [if_neg hneA.symm, if_pos rfl, if_neg hsound.tokenA_ne_tokenB] at hA
  rw [if_neg hneB.symm, if_neg hsound.tokenA_ne_tokenB.symm, if_pos rfl] at hB
  rw [if_pos rfl] at hsupply
  refine ⟨{ tokenA := (s.amounts pool).tokenA - amounts.tokenA
            tokenB := (s.amounts pool).tokenB - amounts.tokenB
            supply := (s.amounts pool).supply - amounts.poolTokens }, ?_, ?_, ?_, ?_⟩
  · have hleS : amounts.poolTokens ≤ (s.amounts pool).supply := by
      show _ ≤ s.token.supply pool.poolMint
      omega
    unfold PoolAmounts.withdraw
    rw [checkedSub_of_le hleS, checkedSub_of_le hleA, checkedSub_of_le hleB]
    rfl
  · show s.token.balance pool.tokenA - _ ≤ s'.token.balance pool.tokenA
    omega
  · show s.token.balance pool.tokenB - _ ≤ s'.token.balance pool.tokenB
    omega
  · show s.token.supply pool.poolMint - _ = s'.token.supply pool.poolMint
    omega

/-- **REFINEMENT.** A successful instruction on a pool is a step of the machine on its numbers,
    and the ledger holds at least what the numbers say. -/
theorem refines_amounts (hlawful : chain.Lawful) (hs : s.Sound chain) {call : SwapCall}
    (h : s.step chain call = .ok s') (hpool : s.pools key = some pool)
    (hcurve : SwapCurve.tryFrom pool.curve = .ok curve) (hon : call.instruction.On key) :
    s'.pools key = some pool ∧
      ∃ op after, call.instruction.Does key op ∧
        (s.amounts pool).step curve pool.allFees op = .ok after ∧
        after.Below (s'.amounts pool) := by
  obtain ⟨address, hsound⟩ := hs key pool hpool
  obtain ⟨hsigners, h⟩ := SwapState.run_of_step h
  cases hcall : call.instruction with
  | initializePool acc feesInput curveInput swapPolicy addLiquidityPolicy =>
      rw [hcall] at hon
      exact hon.elim
  | swap acc amountIn minimumAmountOut =>
      rw [hcall] at h hon
      obtain ⟨pool', tradeDirection, curve', result, minted, hswapped⟩ := swapTokens_ok h
      change acc.tokenSwap = key at hon
      subst hon
      obtain rfl := Option.some.inj (hpool.symm.trans hswapped.pool_eq)
      obtain rfl := Except.ok.inj (hcurve.symm.trans hswapped.curve_eq)
      obtain ⟨after, hafter, hbelow⟩ := refines_swap hlawful hsigners hsound hswapped
      rw [hswapped.pools_eq]
      exact ⟨hpool, _, after, ⟨rfl, tradeDirection, rfl⟩, hafter, hbelow⟩
  | depositAllTokenTypes acc pt maxA maxB =>
      rw [hcall] at h hon
      obtain ⟨pool', curve', amounts, hdeposited⟩ := depositAllTokens_ok h
      change acc.tokenSwap = key at hon
      subst hon
      obtain rfl := Option.some.inj (hpool.symm.trans hdeposited.pool_eq)
      obtain rfl := Except.ok.inj (hcurve.symm.trans hdeposited.curve_eq)
      obtain ⟨after, hafter, hbelow⟩ := refines_depositAll hlawful hsigners hsound hdeposited
      rw [hdeposited.onlySigned.pools_eq]
      exact ⟨hpool, _, after, ⟨rfl, rfl⟩, hafter, hbelow⟩
  | depositSingleTokenType acc amount minimum =>
      rw [hcall] at h hon
      obtain ⟨pool', curve', tradeDirection, minted, hdeposited⟩ := depositSingleTokens_ok h
      change acc.tokenSwap = key at hon
      subst hon
      obtain rfl := Option.some.inj (hpool.symm.trans hdeposited.pool_eq)
      obtain rfl := Except.ok.inj (hcurve.symm.trans hdeposited.curve_eq)
      obtain ⟨after, hafter, hbelow⟩ := refines_depositSingle hlawful hsigners hsound hdeposited
      rw [hdeposited.onlySigned.pools_eq]
      exact ⟨hpool, _, after, ⟨rfl, tradeDirection, rfl⟩, hafter, hbelow⟩
  | withdrawAllTokenTypes acc pt minA minB =>
      rw [hcall] at h hon
      obtain ⟨pool', curve', amounts, hcurve', -, hamounts, hwithdrew⟩ := withdrawAllTokens_ok h
      change acc.tokenSwap = key at hon
      subst hon
      obtain rfl := Option.some.inj (hpool.symm.trans hwithdrew.pool_eq)
      obtain rfl := Except.ok.inj (hcurve.symm.trans hcurve')
      obtain ⟨after, hafter, hbelow⟩ := refines_withdraw hlawful hsigners hsound hwithdrew
      rw [hwithdrew.pools_eq]
      refine ⟨hpool, .withdrawAll (acc.poolFee = acc.source) pt minA minB, after, ⟨rfl, rfl⟩, ?_,
        hbelow⟩
      show (withdrawAllAmounts _ _ _ _ _ _ _ >>= _) = _
      rw [hamounts]
      exact hafter
  | withdrawSingleTokenType acc amount maximum =>
      rw [hcall] at h hon
      obtain ⟨pool', curve', tradeDirection, amounts, hcurve', hamounts, hwithdrew⟩ :=
        withdrawSingleTokens_ok h
      change acc.tokenSwap = key at hon
      subst hon
      obtain rfl := Option.some.inj (hpool.symm.trans hwithdrew.pool_eq)
      obtain rfl := Except.ok.inj (hcurve.symm.trans hcurve')
      obtain ⟨after, hafter, hbelow⟩ := refines_withdraw hlawful hsigners hsound hwithdrew
      rw [hwithdrew.pools_eq]
      refine ⟨hpool, .withdrawSingle tradeDirection (acc.poolFee = acc.source) amount maximum,
        after, ⟨rfl, tradeDirection, rfl⟩, ?_, hbelow⟩
      show (withdrawSingleAmounts _ _ _ _ _ _ _ >>= _) = _
      rw [hamounts]
      exact hafter
  | close acc =>
      rw [hcall] at hon
      exact hon.elim
  | token tokenCall =>
      rw [hcall] at hon
      exact hon.elim

end

/-! ## What the numbers keep, the ledger keeps -/

theorem PoolAmounts.ProductKept.of_below {pool after actual : PoolAmounts}
    (h : pool.ProductKept after) (hbelow : after.Below actual) : pool.ProductKept actual := by
  show PriceKept _ _ _ (actual.supply ^ 2)
  rw [← hbelow.supply]
  exact PriceKept.mono h (Nat.mul_le_mul hbelow.tokenA hbelow.tokenB)

theorem PoolAmounts.ValueKept.of_below {p : Nat} {pool after actual : PoolAmounts}
    (h : pool.ValueKept p after) (hbelow : after.Below actual) : pool.ValueKept p actual := by
  show PriceKept _ _ _ actual.supply
  rw [← hbelow.supply]
  exact PriceKept.mono h (Nat.add_le_add hbelow.tokenA (Nat.mul_le_mul_right p hbelow.tokenB))

/-- A swap of the pool, or a deposit or a withdrawal of both tokens. -/
def SwapInstruction.TwoSidedOn (key : Pubkey) : SwapInstruction → Prop
  | .swap acc _ _ => acc.tokenSwap = key
  | .depositAllTokenTypes acc _ _ _ => acc.tokenSwap = key
  | .withdrawAllTokenTypes acc _ _ _ => acc.tokenSwap = key
  | _ => False

theorem SwapInstruction.TwoSidedOn.on {key : Pubkey} {instruction : SwapInstruction}
    (h : instruction.TwoSidedOn key) : instruction.On key := by
  cases instruction with
  | swap => exact h
  | depositAllTokenTypes => exact h
  | withdrawAllTokenTypes => exact h
  | _ => exact h.elim

theorem SwapInstruction.Does.twoSided {key : Pubkey} {op : PoolOperation}
    {instruction : SwapInstruction} (h : instruction.Does key op)
    (htwo : instruction.TwoSidedOn key) : op.TwoSided := by
  cases instruction with
  | swap =>
      obtain ⟨-, tradeDirection, rfl⟩ := h
      trivial
  | depositAllTokenTypes =>
      obtain ⟨-, rfl⟩ := h
      trivial
  | withdrawAllTokenTypes =>
      obtain ⟨-, rfl⟩ := h
      trivial
  | _ => exact htwo.elim

section

variable {chain : Chain} {s₀ s : SwapState} {key : Pubkey} {pool : Pool}
  {history : List (Transition SwapState SwapCall)}

/-- The run law of the constant product, on the ledger. -/
theorem productKept_on_ledger (hlawful : chain.Lawful) (hs₀ : s₀.Sound chain)
    (hrun : Run (SwapState.step chain) s₀ history s) (hpool : s₀.pools key = some pool)
    (hcurve : SwapCurve.tryFrom pool.curve = .ok .constantProduct)
    (hA : 0 < (s₀.amounts pool).tokenA) (hB : 0 < (s₀.amounts pool).tokenB)
    (hsupply : 0 < (s₀.amounts pool).supply)
    (hops : ∀ t ∈ history, t.call.instruction.TwoSidedOn key ∧
      0 < (t.post.amounts pool).supply) :
    (s₀.amounts pool).ProductKept (s.amounts pool) := by
  suffices hinv : (s₀.amounts pool).ProductKept (s.amounts pool) ∧
      0 < (s.amounts pool).supply ∧ s.Sound chain ∧ s.pools key = some pool from hinv.1
  refine hrun.invariant
    (G := fun t => t.call.instruction.TwoSidedOn key ∧ 0 < (t.post.amounts pool).supply)
    (I := fun _ s => (s₀.amounts pool).ProductKept (s.amounts pool) ∧
      0 < (s.amounts pool).supply ∧ s.Sound chain ∧ s.pools key = some pool)
    ⟨ProductKept.refl _, hsupply, hs₀, hpool⟩ ?_ hops
  rintro _ s call s' ⟨hkept, hpos, hs, hpool⟩ hstep ⟨htwo, hpos'⟩
  obtain ⟨hpool', op, after, hdoes, hafter, hbelow⟩ :=
    refines_amounts hlawful hs hstep hpool hcurve htwo.on
  have hprod := hkept.product_pos (Nat.mul_pos hA hB) hpos
  have hkept' := productKept_step (hdoes.twoSided htwo) (Nat.pos_of_mul_pos_right hprod)
    (Nat.pos_of_mul_pos_left hprod) hpos hafter
  exact ⟨hkept.trans (hkept'.of_below hbelow) hpos, hpos', hs.step hlawful hstep, hpool'⟩

/-- The run law of the constant price, on the ledger. -/
theorem valueKept_on_ledger {p : Nat} (hlawful : chain.Lawful) (hs₀ : s₀.Sound chain)
    (hrun : Run (SwapState.step chain) s₀ history s) (hpool : s₀.pools key = some pool)
    (hcurve : SwapCurve.tryFrom pool.curve = .ok (.constantPrice p))
    (hvalid : pool.allFees.validate = .ok ()) (hsupply : 0 < (s₀.amounts pool).supply)
    (hops : ∀ t ∈ history, t.call.instruction.On key ∧ 0 < (t.post.amounts pool).supply ∧
      ∀ op, t.call.instruction.Does key op → op.Covered p pool.allFees (t.pre.amounts pool)) :
    (s₀.amounts pool).ValueKept p (s.amounts pool) := by
  suffices hinv : (s₀.amounts pool).ValueKept p (s.amounts pool) ∧
      0 < (s.amounts pool).supply ∧ s.Sound chain ∧ s.pools key = some pool from hinv.1
  refine hrun.invariant
    (G := fun t => t.call.instruction.On key ∧ 0 < (t.post.amounts pool).supply ∧
      ∀ op, t.call.instruction.Does key op → op.Covered p pool.allFees (t.pre.amounts pool))
    (I := fun _ s => (s₀.amounts pool).ValueKept p (s.amounts pool) ∧
      0 < (s.amounts pool).supply ∧ s.Sound chain ∧ s.pools key = some pool)
    ⟨ValueKept.refl p _, hsupply, hs₀, hpool⟩ ?_ hops
  rintro _ s call s' ⟨hkept, hpos, hs, hpool⟩ hstep ⟨hon, hpos', hcovered⟩
  obtain ⟨hpool', op, after, hdoes, hafter, hbelow⟩ :=
    refines_amounts hlawful hs hstep hpool hcurve hon
  have hkept' := (valueKept_step_iff hvalid hpos hafter).mpr (hcovered op hdoes)
  exact ⟨hkept.trans (hkept'.of_below hbelow) hpos, hpos', hs.step hlawful hstep, hpool'⟩

end

end Albus.Integration
