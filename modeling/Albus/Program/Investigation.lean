import Albus.Program.ProofRequest

/-! # Investigations

    `instructions/investigation/*.rs` and `trustee/create_trustee.rs`: a service
    opens an investigation of a proved request with a list of trustees, and shares
    of the request's secret are revealed one by one until a threshold is reached.

    A derived address IS its seeds, as for a request; a trustee's address is a key
    of its own, since an investigation lists any keys it likes.  Bumps are left
    out: nothing reads them. -/

namespace Albus.Program

open Albus.Lib

/-! ## Addresses and accounts -/

structure InvestigationSeeds where
  proofRequest : ProofRequestSeeds
  authority : Pubkey
  deriving DecidableEq

structure ShareSeeds where
  investigationRequest : InvestigationSeeds
  trustee : Pubkey
  deriving DecidableEq

inductive InvestigationStatus where
  | pending
  | inProgress
  | underReview
  | resolved
  deriving DecidableEq

structure InvestigationRequest where
  authority : Pubkey
  encryptionKey : Pubkey
  proofRequest : ProofRequestSeeds
  proofRequestOwner : Pubkey
  serviceProvider : Pubkey
  requiredShareCount : UInt8
  revealedShareCount : UInt8
  status : InvestigationStatus
  createdAt : Int
  trustees : List Pubkey
  deriving DecidableEq

inductive RevelationStatus where
  | pending
  | revealedByUser
  | revealedByTrustee
  deriving DecidableEq

/-- The address fields hold the zero key before they are set. -/
structure InvestigationRequestShare where
  investigationRequest : Option InvestigationSeeds
  proofRequestOwner : Pubkey
  trustee : Pubkey
  index : UInt8
  createdAt : Int
  revealedAt : Int
  status : RevelationStatus
  share : List UInt8
  deriving DecidableEq

namespace InvestigationRequestShare

/-- What a freshly allocated account decodes to. -/
def zeroed : InvestigationRequestShare where
  investigationRequest := none
  proofRequestOwner := .default
  trustee := .default
  index := 0
  createdAt := 0
  revealedAt := 0
  status := .pending
  share := []

/-- `#[max_len(128)]` of `share`: what the account's space leaves for it. -/
def maxShareLen : Nat := 128

end InvestigationRequestShare

/-- The share accounts. -/
abbrev Shares := ShareSeeds → Option InvestigationRequestShare

/-! ## create_trustee -/

structure CreateTrusteeData where
  key : Bytes 32
  authority : Option Pubkey
  deriving DecidableEq

/-- The authority of the trustee: the signer, or the one a root authority names. -/
def trusteeAuthority (rt : Runtime) (authority : Pubkey) :
    Option Pubkey → Except ProgramError Pubkey
  | some named => do
      assertAuthorized rt authority
      .ok named
  | none => .ok authority

/-- `create_trustee::handler`, signed by `authority`. -/
def createTrustee (rt : Runtime) (authority : Pubkey) (data : CreateTrusteeData) :
    Except ProgramError Trustee := do
  let trusteeAuthority ← trusteeAuthority rt authority data.authority
  .ok
    { key := data.key
      authority := trusteeAuthority
      isVerified := false
      revealedShareCount := 0 }

/-! ## create_investigation_request -/

structure CreateInvestigationRequestData where
  encryptionKey : Pubkey
  trustees : List Pubkey
  deriving DecidableEq

/-- The accounts of `create_investigation_request`, the new one apart. -/
structure CreateInvestigationRequest where
  proofRequest : ProofRequestSeeds
  serviceProvider : Account ServiceProvider
  authority : Pubkey
  deriving DecidableEq

/-- An account of `ctx.remaining_accounts`: at a share's address, or at any
    other. -/
inductive RemainingAccount where
  | share (seeds : ShareSeeds)
  | other (dataIsEmpty : Bool)
  deriving DecidableEq

def RemainingAccount.shareSeeds : RemainingAccount → Option ShareSeeds
  | .share seeds => some seeds
  | .other _ => none

/-- The body of the loop that initializes share accounts, at position `idx`: an
    account that exists is passed over, whatever it is. -/
def initShare (investigationRequest : InvestigationSeeds) (owner : Pubkey) (now : Int)
    (idx : Nat) (trustee : Pubkey) (acc : RemainingAccount) (shares : Shares) :
    Except ProgramError Shares :=
  match acc with
  | .other dataIsEmpty => if dataIsEmpty then .error (.albus .invalidData) else .ok shares
  | .share seeds =>
      if (shares seeds).isSome then .ok shares
      else if seeds = ⟨investigationRequest, trustee⟩ then
        .ok (Function.update shares seeds (some
          { InvestigationRequestShare.zeroed with
            investigationRequest := some investigationRequest
            proofRequestOwner := owner
            trustee := trustee
            createdAt := now
            index := UInt8.ofNat (idx + 1)
            share := [] }))
      else .error (.albus .invalidData)

/-- The loop, from position `idx` on. -/
def initShares (investigationRequest : InvestigationSeeds) (owner : Pubkey) (now : Int) :
    Nat → List (Pubkey × RemainingAccount) → Shares → Except ProgramError Shares
  | _, [], shares => .ok shares
  | idx, (trustee, acc) :: rest, shares => do
      let shares ← initShare investigationRequest owner now idx trustee acc shares
      initShares investigationRequest owner now (idx + 1) rest shares

/-- `// Try to initialize share accounts` -/
def initRemaining (investigationRequest : InvestigationSeeds) (owner : Pubkey) (now : Int)
    (trustees : List Pubkey) (remaining : List RemainingAccount) (shares : Shares) :
    Except ProgramError Shares :=
  if remaining = [] then .ok shares
  else do
    require (trustees.length = remaining.length) (.albus .invalidData)
    initShares investigationRequest owner now 0 (trustees.zip remaining) shares

/-- `create_investigation_request::handler`. -/
def createInvestigationRequest (ctx : CreateInvestigationRequest)
    (data : CreateInvestigationRequestData) (remaining : List RemainingAccount) (now : Int)
    (req : ProofRequest) (shares : Shares) :
    Except ProgramError (InvestigationRequest × Shares) := do
  require (req.serviceProvider = ctx.serviceProvider.key) .constraintHasOne
  require (req.isProved = true) (.albus .unproved)
  let shares ← initRemaining ⟨ctx.proofRequest, ctx.authority⟩ req.owner now data.trustees
    remaining shares
  .ok
    ({ authority := ctx.authority
       encryptionKey := data.encryptionKey
       proofRequest := ctx.proofRequest
       proofRequestOwner := req.owner
       serviceProvider := req.serviceProvider
       requiredShareCount := ctx.serviceProvider.data.secretShareThreshold
       revealedShareCount := 0
       status := .pending
       createdAt := now
       trustees := data.trustees }, shares)

/-! ## reveal_secret_share -/

structure RevealSecretShareData where
  index : UInt8
  share : List UInt8
  deriving DecidableEq

/-- The accounts of `reveal_secret_share`; the share's address is derived from the
    other two. -/
structure RevealSecretShare where
  investigationRequest : InvestigationSeeds
  trustee : Pubkey
  authority : Pubkey
  deriving DecidableEq

def RevealSecretShare.shareSeeds (ctx : RevealSecretShare) : ShareSeeds :=
  ⟨ctx.investigationRequest, ctx.trustee⟩

/-- Who reveals: the share's status, and the trustee with its counter, a `u32`. -/
def revealedBy (ctx : RevealSecretShare) (req : InvestigationRequest) (trustee : Trustee) :
    Except ProgramError (RevelationStatus × Trustee) :=
  if req.proofRequestOwner = ctx.authority then .ok (.revealedByUser, trustee)
  else if trustee.authority = ctx.authority then do
    require (trustee.revealedShareCount + 1 < 2 ^ 32) .panicked
    .ok (.revealedByTrustee,
      { trustee with revealedShareCount := trustee.revealedShareCount + 1 })
  else .error (.albus .unauthorized)

/-- `reveal_secret_share::handler`: the share, the investigation and the trustee
    afterwards.  The counter stays a `u8`, being below the threshold before. -/
def revealSecretShare (ctx : RevealSecretShare) (data : RevealSecretShareData) (now : Int)
    (share : InvestigationRequestShare) (req : InvestigationRequest) (trustee : Trustee) :
    Except ProgramError (InvestigationRequestShare × InvestigationRequest × Trustee) := do
  require (share.revealedAt = 0) (.albus .invalidData)
  require (req.revealedShareCount < req.requiredShareCount) (.albus .unauthorized)
  let revealer ← revealedBy ctx req trustee
  .ok
    ({ investigationRequest := some ctx.investigationRequest
       proofRequestOwner := req.proofRequestOwner
       trustee := ctx.trustee
       index := data.index
       share := data.share
       revealedAt := now
       createdAt := if share.createdAt = 0 then now else share.createdAt
       status := revealer.1 },
      { req with revealedShareCount := req.revealedShareCount + 1 }, revealer.2)

/-! ## What each instruction can do -/

/-- An initialization leaves the accounts that exist, and adds unrevealed empty
    shares of the investigation only. -/
structure SharesAdded (inv : InvestigationSeeds) (shares shares' : Shares) : Prop where
  kept : ∀ seeds s, shares seeds = some s → shares' seeds = some s
  added : ∀ seeds s, shares seeds = none → shares' seeds = some s →
    seeds.investigationRequest = inv ∧ s.revealedAt = 0 ∧ s.share = [] ∧
      s.investigationRequest = some inv

theorem SharesAdded.refl (inv : InvestigationSeeds) (shares : Shares) :
    SharesAdded inv shares shares where
  kept _ _ h := h
  added seeds s hnone hsome := by
    rw [hnone] at hsome
    exact nomatch hsome

theorem SharesAdded.trans {inv : InvestigationSeeds} {s₁ s₂ s₃ : Shares}
    (h : SharesAdded inv s₁ s₂) (h' : SharesAdded inv s₂ s₃) : SharesAdded inv s₁ s₃ where
  kept seeds s hs := h'.kept seeds s (h.kept seeds s hs)
  added seeds s hnone hsome := by
    cases hmid : s₂ seeds with
    | none => exact h'.added seeds s hmid hsome
    | some s' =>
        have heq : s₃ seeds = some s' := h'.kept seeds s' hmid
        rw [heq] at hsome
        obtain rfl := Option.some.inj hsome
        exact h.added seeds s' hnone hmid

theorem initShare_ok {inv : InvestigationSeeds} {owner : Pubkey} {now : Int} {idx : Nat}
    {trustee : Pubkey} {acc : RemainingAccount} {shares shares' : Shares}
    (h : initShare inv owner now idx trustee acc shares = .ok shares') :
    SharesAdded inv shares shares' := by
  cases acc with
  | other dataIsEmpty =>
      cases dataIsEmpty with
      | true => exact nomatch h
      | false =>
          obtain rfl := Except.ok.inj h
          exact SharesAdded.refl inv shares
  | share seeds =>
      cases hs : shares seeds with
      | some s =>
          simp only [initShare, hs, Option.isSome_some, if_true] at h
          obtain rfl := Except.ok.inj h
          exact SharesAdded.refl inv shares
      | none =>
          simp only [initShare, hs, Option.isSome_none, Bool.false_eq_true, if_false] at h
          by_cases hseeds : seeds = ⟨inv, trustee⟩
          · rw [if_pos hseeds] at h
            obtain rfl := Except.ok.inj h
            constructor
            · intro seeds' s hs'
              have hne : seeds' ≠ seeds := by
                rintro rfl
                rw [hs] at hs'
                exact nomatch hs'
              rw [Function.update_of_ne hne]
              exact hs'
            · intro seeds' s hnone hsome
              by_cases heq : seeds' = seeds
              · subst heq
                rw [Function.update_self] at hsome
                obtain rfl := Option.some.inj hsome
                exact ⟨congrArg ShareSeeds.investigationRequest hseeds, rfl, rfl, rfl⟩
              · rw [Function.update_of_ne heq, hnone] at hsome
                exact nomatch hsome
          · rw [if_neg hseeds] at h
            exact nomatch h

theorem initShares_ok {inv : InvestigationSeeds} {owner : Pubkey} {now : Int}
    {accs : List (Pubkey × RemainingAccount)} :
    ∀ {idx : Nat} {shares shares' : Shares},
      initShares inv owner now idx accs shares = .ok shares' →
      SharesAdded inv shares shares' := by
  induction accs with
  | nil =>
      intro idx shares shares' h
      obtain rfl := Except.ok.inj h
      exact SharesAdded.refl inv shares
  | cons p accs ih =>
      intro idx shares shares' h
      obtain ⟨mid, hmid, h⟩ := bind_ok h
      exact (initShare_ok hmid).trans (ih h)

/-- An account that an initialization adds is one of those it was given. -/
theorem initShare_added {inv : InvestigationSeeds} {owner : Pubkey} {now : Int} {idx : Nat}
    {trustee : Pubkey} {acc : RemainingAccount} {shares shares' : Shares}
    (h : initShare inv owner now idx trustee acc shares = .ok shares') {seeds : ShareSeeds}
    (hnone : shares seeds = none) (hsome : shares' seeds ≠ none) : acc = .share seeds := by
  cases acc with
  | other dataIsEmpty =>
      cases dataIsEmpty with
      | true => exact nomatch h
      | false =>
          obtain rfl := Except.ok.inj h
          exact absurd hnone hsome
  | share seeds' =>
      rw [initShare] at h
      split_ifs at h with hold hseeds
      · obtain rfl := Except.ok.inj h
        exact absurd hnone hsome
      · obtain rfl := Except.ok.inj h
        by_cases heq : seeds = seeds'
        · rw [heq]
        · rw [Function.update_of_ne heq] at hsome
          exact absurd hnone hsome

theorem initShares_added {inv : InvestigationSeeds} {owner : Pubkey} {now : Int}
    {accs : List (Pubkey × RemainingAccount)} {seeds : ShareSeeds} :
    ∀ {idx : Nat} {shares shares' : Shares},
      initShares inv owner now idx accs shares = .ok shares' → shares seeds = none →
      shares' seeds ≠ none → RemainingAccount.share seeds ∈ accs.map Prod.snd := by
  induction accs with
  | nil =>
      intro idx shares shares' h hnone hsome
      obtain rfl := Except.ok.inj h
      exact absurd hnone hsome
  | cons p accs ih =>
      intro idx shares shares' h hnone hsome
      obtain ⟨mid, hmid, h⟩ := bind_ok h
      by_cases hadded : mid seeds = none
      · exact List.mem_cons_of_mem _ (ih h hadded hsome)
      · have hacc := initShare_added hmid hnone hadded
        rw [List.map_cons, hacc]
        exact List.mem_cons_self

theorem initRemaining_ok {inv : InvestigationSeeds} {owner : Pubkey} {now : Int}
    {trustees : List Pubkey} {remaining : List RemainingAccount} {shares shares' : Shares}
    (h : initRemaining inv owner now trustees remaining shares = .ok shares') :
    SharesAdded inv shares shares' := by
  by_cases hnil : remaining = []
  · rw [initRemaining, if_pos hnil] at h
    obtain rfl := Except.ok.inj h
    exact SharesAdded.refl inv shares
  · rw [initRemaining, if_neg hnil] at h
    obtain ⟨-, h⟩ := require_bind_ok h
    exact initShares_ok h

theorem createInvestigationRequest_added {ctx : CreateInvestigationRequest}
    {data : CreateInvestigationRequestData} {remaining : List RemainingAccount} {now : Int}
    {req : ProofRequest} {shares shares' : Shares} {inv : InvestigationRequest}
    (h : createInvestigationRequest ctx data remaining now req shares = .ok (inv, shares'))
    {seeds : ShareSeeds} (hnone : shares seeds = none) (hsome : shares' seeds ≠ none) :
    RemainingAccount.share seeds ∈ remaining := by
  obtain ⟨-, h⟩ := require_bind_ok h
  obtain ⟨-, h⟩ := require_bind_ok h
  obtain ⟨mid, hmid, h⟩ := bind_ok h
  obtain ⟨-, rfl⟩ := Prod.mk.inj (Except.ok.inj h)
  rw [initRemaining] at hmid
  split_ifs at hmid with hnil
  · obtain rfl := Except.ok.inj hmid
    exact absurd hnone hsome
  · obtain ⟨-, hmid⟩ := require_bind_ok hmid
    obtain ⟨p, hp, hacc⟩ := List.mem_map.mp (initShares_added hmid hnone hsome)
    rw [← hacc]
    exact (List.of_mem_zip hp).2

/-- **WHAT OPENING AN INVESTIGATION DOES.** -/
theorem createInvestigationRequest_ok {ctx : CreateInvestigationRequest}
    {data : CreateInvestigationRequestData} {remaining : List RemainingAccount} {now : Int}
    {req : ProofRequest} {shares shares' : Shares} {inv : InvestigationRequest}
    (h : createInvestigationRequest ctx data remaining now req shares
      = .ok (inv, shares')) :
    inv.proofRequestOwner = req.owner ∧ inv.trustees = data.trustees ∧
    inv.revealedShareCount = 0 ∧
    inv.requiredShareCount = ctx.serviceProvider.data.secretShareThreshold ∧
    SharesAdded ⟨ctx.proofRequest, ctx.authority⟩ shares shares' := by
  obtain ⟨-, h⟩ := require_bind_ok h
  obtain ⟨-, h⟩ := require_bind_ok h
  obtain ⟨mid, hmid, h⟩ := bind_ok h
  obtain ⟨rfl, rfl⟩ := Prod.mk.inj (Except.ok.inj h)
  exact ⟨rfl, rfl, rfl, rfl, initRemaining_ok hmid⟩

theorem revealedBy_ok {ctx : RevealSecretShare} {req : InvestigationRequest}
    {trustee trustee' : Trustee} {status : RevelationStatus}
    (h : revealedBy ctx req trustee = .ok (status, trustee')) :
    ctx.authority = req.proofRequestOwner ∨ ctx.authority = trustee.authority := by
  by_cases howner : req.proofRequestOwner = ctx.authority
  · exact Or.inl howner.symm
  · by_cases hauth : trustee.authority = ctx.authority
    · exact Or.inr hauth.symm
    · rw [revealedBy, if_neg howner, if_neg hauth] at h
      exact nomatch h

/-- **WHAT A REVEAL DOES**: the share was not revealed, the threshold not reached;
    the counter goes up by one and the share is what the call brought. -/
theorem revealSecretShare_ok {ctx : RevealSecretShare} {data : RevealSecretShareData}
    {now : Int} {share share' : InvestigationRequestShare} {req req' : InvestigationRequest}
    {trustee trustee' : Trustee}
    (h : revealSecretShare ctx data now share req trustee = .ok (share', req', trustee')) :
    share.revealedAt = 0 ∧ req.revealedShareCount < req.requiredShareCount ∧
    (ctx.authority = req.proofRequestOwner ∨ ctx.authority = trustee.authority) ∧
    req' = { req with revealedShareCount := req.revealedShareCount + 1 } ∧
    share'.revealedAt = now ∧ share'.index = data.index ∧ share'.share = data.share ∧
    share'.investigationRequest = some ctx.investigationRequest := by
  obtain ⟨hat, h⟩ := require_bind_ok h
  obtain ⟨hlt, h⟩ := require_bind_ok h
  obtain ⟨revealer, hby, h⟩ := bind_ok h
  obtain ⟨rfl, hpair⟩ := Prod.mk.inj (Except.ok.inj h)
  obtain ⟨rfl, rfl⟩ := Prod.mk.inj hpair
  exact ⟨hat, hlt, revealedBy_ok hby, rfl, rfl, rfl, rfl, rfl⟩

end Albus.Program
