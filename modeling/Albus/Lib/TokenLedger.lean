import Mathlib.Algebra.Ring.Nat
import Mathlib.Data.List.Basic
import Mathlib.Logic.Function.Basic
import Mathlib.Tactic.Common

/-! # A ledger of token accounts

    Accounts of many mints, each with an owner, perhaps a delegate and perhaps an
    authority to close it.  A call carries the keys that signed it; it moves
    tokens out of an account only with the signature of the owner or of the
    delegate, and mints only with the signature of the mint's authority.

    What a call can do to the balances is said by one equation for each of
    `transfer`, `mintTo` and `burn`; who holds an account is kept by all three.
    An account that none of the signers owns and that names nobody else is
    guarded: no call lowers it. -/

namespace Albus.Lib.Token

variable {κ : Type}

structure Account (κ : Type) where
  mint : κ
  owner : κ
  amount : ℕ
  delegate : Option κ
  delegatedAmount : ℕ
  closeAuthority : Option κ

structure Mint (κ : Type) where
  mintAuthority : Option κ
  supply : ℕ
  freezeAuthority : Option κ

structure Ledger (κ : Type) where
  accounts : κ → Option (Account κ)
  mints : κ → Option (Mint κ)

inductive Fault where
  | uninitialized
  | insufficientFunds
  | mintMismatch
  | ownerMismatch
  | fixedSupply
  | missingSignature
  | nonZeroBalance
  | alreadyInUse
  | overflow
  deriving DecidableEq, Repr

/-- A check of a call. -/
def check (cond : Prop) [Decidable cond] (fault : Fault) : Except Fault Unit :=
  if cond then .ok () else .error fault

theorem check_bind_ok {cond : Prop} [Decidable cond] {fault : Fault} {β : Type}
    {f : Unit → Except Fault β} {b : β} (h : (check cond fault >>= f) = .ok b) :
    cond ∧ f () = .ok b := by
  by_cases hcond : cond
  · rw [check, if_pos hcond] at h
    exact ⟨hcond, h⟩
  · rw [check, if_neg hcond] at h
    exact nomatch h

/-- What is stored under a key. -/
def found {α : Type} (stored : Option α) : Except Fault α :=
  match stored with
  | some a => .ok a
  | none => .error .uninitialized

theorem found_bind_ok {α β : Type} {stored : Option α} {f : α → Except Fault β} {b : β}
    (h : (found stored >>= f) = .ok b) : ∃ a, stored = some a ∧ f a = .ok b := by
  cases stored with
  | none => exact nomatch h
  | some a => exact ⟨a, rfl, h⟩

/-! ## Authority -/

namespace Account

def withAmount (a : Account κ) (amount : ℕ) : Account κ := { a with amount := amount }

/-- The key may move the account: its delegate, or its owner. -/
def HasAuthority (a : Account κ) (authority : κ) : Prop :=
  a.delegate = some authority ∨ a.owner = authority

/-- The owner is none of the signers, and the account names nobody else. -/
structure Guarded (signers : List κ) (a : Account κ) : Prop where
  owner : a.owner ∉ signers
  delegate : a.delegate = none
  closeAuthority : a.closeAuthority = none

/-- The account stays with its holder, and gets no delegate. -/
structure SameHolder (a a' : Account κ) : Prop where
  mint : a'.mint = a.mint
  owner : a'.owner = a.owner
  closeAuthority : a'.closeAuthority = a.closeAuthority
  delegate : a.delegate = none → a'.delegate = none

theorem SameHolder.refl (a : Account κ) : a.SameHolder a := ⟨rfl, rfl, rfl, fun h => h⟩

theorem SameHolder.trans {a b c : Account κ} (h : a.SameHolder b) (h' : b.SameHolder c) :
    a.SameHolder c :=
  ⟨h'.mint.trans h.mint, h'.owner.trans h.owner, h'.closeAuthority.trans h.closeAuthority,
    fun hnone => h'.delegate (h.delegate hnone)⟩

theorem Guarded.of_sameHolder {signers : List κ} {a a' : Account κ} (h : a.Guarded signers)
    (hsame : a.SameHolder a') : a'.Guarded signers :=
  ⟨hsame.owner ▸ h.owner, hsame.delegate h.delegate, hsame.closeAuthority.trans h.closeAuthority⟩

theorem Guarded.not_hasAuthority {signers : List κ} {a : Account κ} (h : a.Guarded signers)
    {authority : κ} (hmem : authority ∈ signers) : ¬a.HasAuthority authority := by
  rintro (hdelegate | howner)
  · rw [h.delegate] at hdelegate
    exact nomatch hdelegate
  · exact h.owner (howner ▸ hmem)

theorem sameHolder_withAmount {a b : Account κ} (h : a.SameHolder b) (amount : ℕ) :
    a.SameHolder (b.withAmount amount) := ⟨h.mint, h.owner, h.closeAuthority, h.delegate⟩

/-- What is left to the delegate. -/
def spend (a : Account κ) (amount : ℕ) : Account κ :=
  { a with
    delegatedAmount := a.delegatedAmount - amount
    delegate := if a.delegatedAmount - amount = 0 then none else a.delegate }

theorem sameHolder_spend (a : Account κ) (amount : ℕ) : a.SameHolder (a.spend amount) := by
  refine ⟨rfl, rfl, rfl, ?_⟩
  intro hnone
  show (if _ then none else a.delegate) = none
  rw [hnone, ite_self]

variable [DecidableEq κ]

/-- The authority of a transfer or a burn: the delegate, within what was delegated, or else the
    owner. -/
def authorize (signers : List κ) (a : Account κ) (authority : κ) (amount : ℕ) :
    Except Fault (Account κ) :=
  if a.delegate = some authority then do
    check (authority ∈ signers) .missingSignature
    check (amount ≤ a.delegatedAmount) .insufficientFunds
    .ok (a.spend amount)
  else do
    check (authority = a.owner) .ownerMismatch
    check (authority ∈ signers) .missingSignature
    .ok a

theorem authorize_ok {signers : List κ} {a a' : Account κ} {authority : κ} {amount : ℕ}
    (h : a.authorize signers authority amount = .ok a') :
    authority ∈ signers ∧ a.HasAuthority authority ∧
      a.SameHolder a' ∧ a'.amount = a.amount := by
  unfold authorize at h
  split at h
  · rename_i hdelegate
    obtain ⟨hmem, h⟩ := check_bind_ok h
    obtain ⟨-, h⟩ := check_bind_ok h
    rw [← Except.ok.inj h]
    exact ⟨hmem, Or.inl hdelegate, a.sameHolder_spend amount, rfl⟩
  · obtain ⟨howner, h⟩ := check_bind_ok h
    obtain ⟨hmem, h⟩ := check_bind_ok h
    rw [← Except.ok.inj h]
    exact ⟨hmem, Or.inr howner.symm, SameHolder.refl a, rfl⟩

end Account

/-! ## The calls that move tokens -/

namespace Ledger

/-- The balance of an account; an account that is not there holds nothing. -/
def balance (l : Ledger κ) (k : κ) : ℕ := (l.accounts k).elim 0 Account.amount

/-- The supply of a mint. -/
def supply (l : Ledger κ) (m : κ) : ℕ := (l.mints m).elim 0 Mint.supply

/-- Every account stays with its holder. -/
def Keeps (l l' : Ledger κ) : Prop :=
  ∀ k a, l.accounts k = some a → ∃ a', l'.accounts k = some a' ∧ a.SameHolder a'

theorem Keeps.refl (l : Ledger κ) : l.Keeps l := fun _ a h => ⟨a, h, Account.SameHolder.refl a⟩

theorem Keeps.trans {l l' l'' : Ledger κ} (h : l.Keeps l') (h' : l'.Keeps l'') : l.Keeps l'' := by
  intro k a hk
  obtain ⟨a', hk', hsame⟩ := h k a hk
  obtain ⟨a'', hk'', hsame'⟩ := h' k a' hk'
  exact ⟨a'', hk'', hsame.trans hsame'⟩

theorem balance_of_some {l : Ledger κ} {k : κ} {a : Account κ} (h : l.accounts k = some a) :
    l.balance k = a.amount := by
  rw [balance, h]
  rfl

theorem supply_of_some {l : Ledger κ} {m : κ} {mint : Mint κ} (h : l.mints m = some mint) :
    l.supply m = mint.supply := by
  rw [supply, h]
  rfl

/-- The guarded accounts stay with their holders and lose nothing. -/
def Spares (signers : List κ) (l l' : Ledger κ) : Prop :=
  ∀ k a, l.accounts k = some a → a.Guarded signers →
    ∃ a', l'.accounts k = some a' ∧ a.SameHolder a' ∧ a.amount ≤ a'.amount

theorem Spares.refl (signers : List κ) (l : Ledger κ) : l.Spares signers l :=
  fun _ a h _ => ⟨a, h, Account.SameHolder.refl a, Nat.le_refl _⟩

theorem Spares.trans {signers : List κ} {l l' l'' : Ledger κ} (h : l.Spares signers l')
    (h' : l'.Spares signers l'') : l.Spares signers l'' := by
  intro k a hk hguarded
  obtain ⟨a', hk', hsame, hle⟩ := h k a hk hguarded
  obtain ⟨a'', hk'', hsame', hle'⟩ := h' k a' hk' (hguarded.of_sameHolder hsame)
  exact ⟨a'', hk'', hsame.trans hsame', Nat.le_trans hle hle'⟩

/-- More signers leave fewer accounts guarded. -/
theorem Spares.mono {signers signers' : List κ} {l l' : Ledger κ} (h : l.Spares signers l')
    (hsub : signers ⊆ signers') : l.Spares signers' l' := by
  intro k a hk hguarded
  exact h k a hk ⟨fun hmem => hguarded.owner (hsub hmem), hguarded.delegate,
    hguarded.closeAuthority⟩

/-- Holders are kept, and no guarded balance falls. -/
theorem Keeps.spares {signers : List κ} {l l' : Ledger κ} (h : l.Keeps l')
    (hbalance : ∀ k a, l.accounts k = some a → a.Guarded signers → l.balance k ≤ l'.balance k) :
    l.Spares signers l' := by
  intro k a hk hguarded
  obtain ⟨a', hk', hsame⟩ := h k a hk
  have hle := hbalance k a hk hguarded
  rw [balance_of_some hk, balance_of_some hk'] at hle
  exact ⟨a', hk', hsame, hle⟩

/-- A change at one account that is not guarded. -/
theorem spares_of_ne {l l' : Ledger κ} {signers : List κ} {account : κ}
    (hother : ∀ k, k ≠ account → l'.accounts k = l.accounts k)
    (hself : ∀ a, l.accounts account = some a → ¬a.Guarded signers) : l.Spares signers l' := by
  intro k a hk hguarded
  have hne : k ≠ account := by
    rintro rfl
    exact hself a hk hguarded
  exact ⟨a, (hother k hne).trans hk, Account.SameHolder.refl a, Nat.le_refl _⟩

variable [DecidableEq κ]

def setAccount (l : Ledger κ) (k : κ) (a : Account κ) : Ledger κ :=
  { l with accounts := fun k' => if k' = k then some a else l.accounts k' }

def setMint (l : Ledger κ) (m : κ) (mint : Mint κ) : Ledger κ :=
  { l with mints := fun m' => if m' = m then some mint else l.mints m' }

def transfer (l : Ledger κ) (signers : List κ) (source destination authority : κ) (amount : ℕ) :
    Except Fault (Ledger κ) := do
  let s ← found (l.accounts source)
  let d ← found (l.accounts destination)
  check (amount ≤ s.amount) .insufficientFunds
  check (s.mint = d.mint) .mintMismatch
  let s ← s.authorize signers authority amount
  -- a transfer of an account to itself ends here, and spends nothing
  if source = destination then .ok l
  else do
    check (d.amount + amount < 2 ^ 64) .overflow
    .ok ((l.setAccount source (s.withAmount (s.amount - amount))).setAccount destination
      (d.withAmount (d.amount + amount)))

def mintTo (l : Ledger κ) (signers : List κ) (mint account authority : κ) (amount : ℕ) :
    Except Fault (Ledger κ) := do
  let a ← found (l.accounts account)
  check (a.mint = mint) .mintMismatch
  let m ← found (l.mints mint)
  check (m.mintAuthority ≠ none) .fixedSupply
  check (m.mintAuthority = some authority) .ownerMismatch
  check (authority ∈ signers) .missingSignature
  check (a.amount + amount < 2 ^ 64) .overflow
  check (m.supply + amount < 2 ^ 64) .overflow
  .ok ((l.setAccount account (a.withAmount (a.amount + amount))).setMint mint
    { m with supply := m.supply + amount })

def burn (l : Ledger κ) (signers : List κ) (account mint authority : κ) (amount : ℕ) :
    Except Fault (Ledger κ) := do
  let a ← found (l.accounts account)
  let m ← found (l.mints mint)
  check (amount ≤ a.amount) .insufficientFunds
  check (a.mint = mint) .mintMismatch
  let a ← a.authorize signers authority amount
  check (amount ≤ m.supply) .overflow
  .ok ((l.setAccount account (a.withAmount (a.amount - amount))).setMint mint
    { m with supply := m.supply - amount })

/-! ## What they do to the balances -/

theorem balance_setAccount (l : Ledger κ) (k : κ) (a : Account κ) (k' : κ) :
    (l.setAccount k a).balance k' = if k' = k then a.amount else l.balance k' := by
  show ((if k' = k then some a else l.accounts k').elim 0 _) = _
  split <;> rfl

@[simp] theorem balance_setMint (l : Ledger κ) (m : κ) (mint : Mint κ) (k : κ) :
    (l.setMint m mint).balance k = l.balance k := rfl

theorem supply_setMint (l : Ledger κ) (m : κ) (mint : Mint κ) (m' : κ) :
    (l.setMint m mint).supply m' = if m' = m then mint.supply else l.supply m' := by
  show ((if m' = m then some mint else l.mints m').elim 0 _) = _
  split <;> rfl

@[simp] theorem supply_setAccount (l : Ledger κ) (k : κ) (a : Account κ) (m : κ) :
    (l.setAccount k a).supply m = l.supply m := rfl

theorem keeps_setAccount {l : Ledger κ} {k : κ} {a a' : Account κ} (h : l.accounts k = some a)
    (hsame : a.SameHolder a') : l.Keeps (l.setAccount k a') := by
  intro k' b hk'
  by_cases heq : k' = k
  · subst heq
    rw [h] at hk'
    obtain rfl := Option.some.inj hk'
    exact ⟨a', if_pos rfl, hsame⟩
  · exact ⟨b, (if_neg heq).trans hk', Account.SameHolder.refl b⟩

theorem keeps_setMint (l : Ledger κ) (m : κ) (mint : Mint κ) : l.Keeps (l.setMint m mint) :=
  fun _ a h => ⟨a, h, Account.SameHolder.refl a⟩

/-- **TRANSFER.** The source loses what the destination gains; a transfer of an account to
    itself is no exception. -/
theorem transfer_ok {l l' : Ledger κ} {signers : List κ} {source destination authority : κ}
    {amount : ℕ} (h : l.transfer signers source destination authority amount = .ok l') :
    ∃ s d, l.accounts source = some s ∧ l.accounts destination = some d ∧
      amount ≤ s.amount ∧ s.mint = d.mint ∧ authority ∈ signers ∧ s.HasAuthority authority ∧
      l.Keeps l' ∧
      (∀ m, l'.supply m = l.supply m) ∧
      ∀ k, l'.balance k + (if k = source then amount else 0) =
        l.balance k + (if k = destination then amount else 0) := by
  obtain ⟨s, hs, h⟩ := found_bind_ok h
  obtain ⟨d, hd, h⟩ := found_bind_ok h
  obtain ⟨hle, h⟩ := check_bind_ok h
  obtain ⟨hmint, h⟩ := check_bind_ok h
  cases hs' : s.authorize signers authority amount with
  | error fault =>
      rw [hs'] at h
      exact nomatch h
  | ok s' =>
      rw [hs'] at h
      obtain ⟨hmem, hauthority, hsame, hamount⟩ := Account.authorize_ok hs'
      refine ⟨s, d, hs, hd, hle, hmint, hmem, hauthority, ?_⟩
      change (if source = destination then _ else _) = _ at h
      split at h
      · rename_i heq
        rw [← Except.ok.inj h, heq]
        exact ⟨Keeps.refl l, fun _ => rfl, fun _ => rfl⟩
      · rename_i hne
        obtain ⟨-, h⟩ := check_bind_ok h
        rw [← Except.ok.inj h]
        refine ⟨?_, fun _ => rfl, ?_⟩
        · have hd' : (l.setAccount source (s'.withAmount (s'.amount - amount))).accounts
              destination = some d := (if_neg (Ne.symm hne)).trans hd
          exact (keeps_setAccount hs (Account.sameHolder_withAmount hsame _)).trans
            (keeps_setAccount hd' (Account.sameHolder_withAmount (Account.SameHolder.refl d) _))
        · intro k
          rw [balance_setAccount, balance_setAccount]
          by_cases hkd : k = destination
          · rw [if_pos hkd, if_pos hkd, if_neg (hkd ▸ Ne.symm hne), hkd, balance_of_some hd]
            rfl
          · rw [if_neg hkd, if_neg hkd]
            by_cases hks : k = source
            · rw [if_pos hks, if_pos hks, hks, balance_of_some hs, hamount]
              exact Nat.sub_add_cancel hle
            · rw [if_neg hks, if_neg hks]

/-- **MINT.** The account and the supply gain the same. -/
theorem mintTo_ok {l l' : Ledger κ} {signers : List κ} {mint account authority : κ} {amount : ℕ}
    (h : l.mintTo signers mint account authority amount = .ok l') :
    (∃ a, l.accounts account = some a ∧ a.mint = mint) ∧ l.Keeps l' ∧
      (∀ m, l'.supply m = l.supply m + (if m = mint then amount else 0)) ∧
      ∀ k, l'.balance k = l.balance k + (if k = account then amount else 0) := by
  obtain ⟨a, ha, h⟩ := found_bind_ok h
  obtain ⟨hmint, h⟩ := check_bind_ok h
  obtain ⟨m, hm, h⟩ := found_bind_ok h
  obtain ⟨-, h⟩ := check_bind_ok h
  obtain ⟨-, h⟩ := check_bind_ok h
  obtain ⟨-, h⟩ := check_bind_ok h
  obtain ⟨-, h⟩ := check_bind_ok h
  obtain ⟨-, h⟩ := check_bind_ok h
  rw [← Except.ok.inj h]
  refine ⟨⟨a, ha, hmint⟩, (keeps_setAccount ha (Account.sameHolder_withAmount
    (Account.SameHolder.refl a) _)).trans (keeps_setMint _ _ _), ?_, ?_⟩
  · intro m'
    rw [supply_setMint, supply_setAccount]
    by_cases heq : m' = mint
    · rw [if_pos heq, if_pos heq, heq, supply_of_some hm]
    · rw [if_neg heq, if_neg heq, Nat.add_zero]
  · intro k
    rw [balance_setMint, balance_setAccount]
    by_cases heq : k = account
    · rw [if_pos heq, if_pos heq, heq, balance_of_some ha]
      rfl
    · rw [if_neg heq, if_neg heq, Nat.add_zero]

/-- **BURN.** The account and the supply lose the same. -/
theorem burn_ok {l l' : Ledger κ} {signers : List κ} {account mint authority : κ} {amount : ℕ}
    (h : l.burn signers account mint authority amount = .ok l') :
    ∃ a, l.accounts account = some a ∧ a.mint = mint ∧ amount ≤ a.amount ∧
      authority ∈ signers ∧ a.HasAuthority authority ∧ l.Keeps l' ∧
      (∀ m, l'.supply m + (if m = mint then amount else 0) = l.supply m) ∧
      ∀ k, l'.balance k + (if k = account then amount else 0) = l.balance k := by
  obtain ⟨a, ha, h⟩ := found_bind_ok h
  obtain ⟨m, hm, h⟩ := found_bind_ok h
  obtain ⟨hle, h⟩ := check_bind_ok h
  obtain ⟨hmint, h⟩ := check_bind_ok h
  cases ha' : a.authorize signers authority amount with
  | error fault =>
      rw [ha'] at h
      exact nomatch h
  | ok a' =>
      rw [ha'] at h
      obtain ⟨hmem, hauthority, hsame, hamount⟩ := Account.authorize_ok ha'
      obtain ⟨hsupply, h⟩ := check_bind_ok h
      rw [← Except.ok.inj h]
      refine ⟨a, ha, hmint, hle, hmem, hauthority, (keeps_setAccount ha
        (Account.sameHolder_withAmount hsame _)).trans (keeps_setMint _ _ _), ?_, ?_⟩
      · intro m'
        rw [supply_setMint, supply_setAccount]
        by_cases heq : m' = mint
        · rw [if_pos heq, if_pos heq, heq, supply_of_some hm]
          exact Nat.sub_add_cancel hsupply
        · rw [if_neg heq, if_neg heq, Nat.add_zero]
      · intro k
        rw [balance_setMint, balance_setAccount]
        by_cases heq : k = account
        · rw [if_pos heq, if_pos heq, heq, balance_of_some ha, hamount]
          exact Nat.sub_add_cancel hle
        · rw [if_neg heq, if_neg heq, Nat.add_zero]

/-! ## Guarded accounts -/

theorem spares_transfer {l l' : Ledger κ} {signers : List κ}
    {source destination authority : κ} {amount : ℕ}
    (h : l.transfer signers source destination authority amount = .ok l') :
    l.Spares signers l' := by
  obtain ⟨s, -, hs, -, -, -, hmem, hauthority, hkeeps, -, hbalance⟩ := transfer_ok h
  refine hkeeps.spares ?_
  intro k a hk hguarded
  have hne : k ≠ source := by
    rintro rfl
    rw [hs] at hk
    rw [← Option.some.inj hk] at hguarded
    exact hguarded.not_hasAuthority hmem hauthority
  have heq := hbalance k
  rw [if_neg hne] at heq
  omega

theorem spares_mintTo {l l' : Ledger κ} {signers : List κ} {mint account authority : κ}
    {amount : ℕ} (h : l.mintTo signers mint account authority amount = .ok l') :
    l.Spares signers l' := by
  obtain ⟨-, hkeeps, -, hbalance⟩ := mintTo_ok h
  refine hkeeps.spares ?_
  intro k a hk hguarded
  have heq := hbalance k
  omega

theorem spares_burn {l l' : Ledger κ} {signers : List κ} {account mint authority : κ} {amount : ℕ}
    (h : l.burn signers account mint authority amount = .ok l') : l.Spares signers l' := by
  obtain ⟨s, hs, -, -, hmem, hauthority, hkeeps, -, hbalance⟩ := burn_ok h
  refine hkeeps.spares ?_
  intro k a hk hguarded
  have hne : k ≠ account := by
    rintro rfl
    rw [hs] at hk
    rw [← Option.some.inj hk] at hguarded
    exact hguarded.not_hasAuthority hmem hauthority
  have heq := hbalance k
  rw [if_neg hne] at heq
  omega

/-! ## Other calls -/

/-- The calls of the program that move tokens or change who may. -/
inductive Call (κ : Type) where
  | transfer (source destination authority : κ) (amount : ℕ)
  | mintTo (mint account authority : κ) (amount : ℕ)
  | burn (account mint authority : κ) (amount : ℕ)
  | approve (account delegate authority : κ) (amount : ℕ)
  | setOwner (account owner authority : κ)
  | setCloseAuthority (account : κ) (closeAuthority : Option κ) (authority : κ)
  | closeAccount (account authority : κ)
  | initializeAccount (account mint owner : κ)

/-- A call of the owner of an account. -/
def byOwner (l : Ledger κ) (signers : List κ) (account authority : κ) :
    Except Fault (Account κ) := do
  let a ← found (l.accounts account)
  check (authority = a.owner) .ownerMismatch
  check (authority ∈ signers) .missingSignature
  .ok a

/-- A call of whoever may close an account. -/
def byCloser (l : Ledger κ) (signers : List κ) (account authority : κ) :
    Except Fault (Account κ) := do
  let a ← found (l.accounts account)
  check (authority = a.closeAuthority.getD a.owner) .ownerMismatch
  check (authority ∈ signers) .missingSignature
  .ok a

def call (l : Ledger κ) (signers : List κ) : Call κ → Except Fault (Ledger κ)
  | .transfer source destination authority amount =>
      l.transfer signers source destination authority amount
  | .mintTo mint account authority amount => l.mintTo signers mint account authority amount
  | .burn account mint authority amount => l.burn signers account mint authority amount
  | .approve account delegate authority amount => do
      let a ← l.byOwner signers account authority
      .ok (l.setAccount account { a with delegate := some delegate, delegatedAmount := amount })
  | .setOwner account owner authority => do
      let a ← l.byOwner signers account authority
      .ok (l.setAccount account { a with owner, delegate := none, delegatedAmount := 0 })
  | .setCloseAuthority account closeAuthority authority => do
      let a ← l.byCloser signers account authority
      .ok (l.setAccount account { a with closeAuthority })
  | .closeAccount account authority => do
      let a ← l.byCloser signers account authority
      check (a.amount = 0) .nonZeroBalance
      .ok { l with accounts := fun k => if k = account then none else l.accounts k }
  | .initializeAccount account mint owner => do
      check ((l.accounts account).isNone) .alreadyInUse
      let _ ← found (l.mints mint)
      .ok (l.setAccount account
        { mint, owner, amount := 0, delegate := none, delegatedAmount := 0,
          closeAuthority := none })

theorem byOwner_ok {l : Ledger κ} {signers : List κ} {account authority : κ} {a : Account κ}
    (h : l.byOwner signers account authority = .ok a) :
    ∀ a', l.accounts account = some a' → ¬a'.Guarded signers := by
  obtain ⟨b, hb, h⟩ := found_bind_ok h
  obtain ⟨howner, h⟩ := check_bind_ok h
  obtain ⟨hmem, -⟩ := check_bind_ok h
  intro a' ha' hguarded
  rw [hb] at ha'
  rw [← Option.some.inj ha'] at hguarded
  exact hguarded.owner (howner ▸ hmem)

theorem byCloser_ok {l : Ledger κ} {signers : List κ} {account authority : κ} {a : Account κ}
    (h : l.byCloser signers account authority = .ok a) :
    ∀ a', l.accounts account = some a' → ¬a'.Guarded signers := by
  obtain ⟨b, hb, h⟩ := found_bind_ok h
  obtain ⟨hauthority, h⟩ := check_bind_ok h
  obtain ⟨hmem, -⟩ := check_bind_ok h
  intro a' ha' hguarded
  rw [hb] at ha'
  rw [← Option.some.inj ha'] at hguarded
  rw [hguarded.closeAuthority, Option.getD_none] at hauthority
  exact hguarded.owner (hauthority ▸ hmem)

theorem bind_ok {α β : Type} {x : Except Fault α} {f : α → Except Fault β} {b : β}
    (h : (x >>= f) = .ok b) : ∃ a, x = .ok a ∧ f a = .ok b := by
  cases x with
  | error fault => exact nomatch h
  | ok a => exact ⟨a, rfl, h⟩

/-- **GUARD.** No call lowers a guarded account or takes it from its holder. -/
theorem spares_call {l l' : Ledger κ} {signers : List κ} {c : Call κ}
    (h : l.call signers c = .ok l') : l.Spares signers l' := by
  cases c with
  | transfer source destination authority amount => exact spares_transfer h
  | mintTo mint account authority amount => exact spares_mintTo h
  | burn account mint authority amount => exact spares_burn h
  | approve account delegate authority amount =>
      obtain ⟨a, ha, h⟩ := bind_ok h
      rw [← Except.ok.inj h]
      exact spares_of_ne (fun _ hne => if_neg hne) (byOwner_ok ha)
  | setOwner account owner authority =>
      obtain ⟨a, ha, h⟩ := bind_ok h
      rw [← Except.ok.inj h]
      exact spares_of_ne (fun _ hne => if_neg hne) (byOwner_ok ha)
  | setCloseAuthority account closeAuthority authority =>
      obtain ⟨a, ha, h⟩ := bind_ok h
      rw [← Except.ok.inj h]
      exact spares_of_ne (fun _ hne => if_neg hne) (byCloser_ok ha)
  | closeAccount account authority =>
      obtain ⟨a, ha, h⟩ := bind_ok h
      obtain ⟨-, h⟩ := check_bind_ok h
      rw [← Except.ok.inj h]
      exact spares_of_ne (fun _ hne => if_neg hne) (byCloser_ok ha)
  | initializeAccount account mint owner =>
      obtain ⟨hnone, h⟩ := check_bind_ok h
      obtain ⟨-, -, h⟩ := found_bind_ok h
      rw [← Except.ok.inj h]
      refine spares_of_ne (fun _ hne => if_neg hne) ?_
      intro a ha
      rw [ha] at hnone
      exact absurd hnone Bool.false_ne_true

end Ledger

end Albus.Lib.Token
