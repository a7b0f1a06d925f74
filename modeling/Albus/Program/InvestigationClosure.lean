import Albus.Program.Reveals

/-! # Deleting an investigation

    `delete_investigation_request` closes the share accounts that the caller passes.
    It wants as many as the investigation has trustees, each a share of some trustee
    of its list; whose share of that trustee it is, the handler does not ask.  Two
    investigations with common trustees can therefore close each other's shares. -/

namespace Albus.Program

open Albus.Lib

/-! ## delete_investigation_request -/

/-- The accounts of `delete_investigation_request`. -/
structure DeleteInvestigationRequest where
  investigationRequest : InvestigationSeeds
  authority : Pubkey
  deriving DecidableEq

/-- The body of the loop over the remaining accounts: an account that is no share, or
    is closed already, does not load. -/
def closeShare (trustees : List Pubkey) (shares : Shares) (acc : RemainingAccount) :
    Except ProgramError Shares :=
  match acc with
  | .other _ => .error (.albus .invalidData)
  | .share seeds =>
      match shares seeds with
      | none => .error (.albus .invalidData)
      | some share => do
          require (share.trustee ∈ trustees) (.albus .invalidData)
          .ok (Function.update shares seeds none)

/-- `// close all share accounts` -/
def closeShares (trustees : List Pubkey) :
    Shares → List RemainingAccount → Except ProgramError Shares
  | shares, [] => .ok shares
  | shares, acc :: rest => do
      let shares ← closeShare trustees shares acc
      closeShares trustees shares rest

/-- `delete_investigation_request::handler`, with the constraint on the authority: the
    shares afterwards. -/
def deleteInvestigationRequest (ctx : DeleteInvestigationRequest)
    (remaining : List RemainingAccount) (req : InvestigationRequest) (shares : Shares) :
    Except ProgramError Shares := do
  require (req.authority = ctx.authority) (.albus .unauthorized)
  require (remaining.length = req.trustees.length) (.albus .unauthorized)
  closeShares req.trustees shares remaining

/-- `delete_investigation_request` on the ledger: the request is closed at the end. -/
def Ledger.deleteInvestigation (l : Ledger) (ctx : DeleteInvestigationRequest)
    (remaining : List RemainingAccount) : Except ProgramError Ledger :=
  match l.investigations ctx.investigationRequest with
  | none => .error .accountNotInitialized
  | some req => do
      let shares ← deleteInvestigationRequest ctx remaining req l.shares
      .ok
        { l with
          investigations := Function.update l.investigations ctx.investigationRequest none
          shares }

/-! ## What it does -/

/-- The accounts that were passed existed, were shares of listed trustees, and are
    closed; no other account is touched. -/
structure SharesClosed (trustees : List Pubkey) (remaining : List RemainingAccount)
    (shares shares' : Shares) : Prop where
  listed : ∀ seeds, .share seeds ∈ remaining →
    ∃ s, shares seeds = some s ∧ s.trustee ∈ trustees
  closed : ∀ seeds, .share seeds ∈ remaining → shares' seeds = none
  kept : ∀ seeds, .share seeds ∉ remaining → shares' seeds = shares seeds
  /-- No account was passed twice. -/
  nodup : remaining.Nodup

theorem closeShare_ok {trustees : List Pubkey} {shares shares' : Shares}
    {acc : RemainingAccount} (h : closeShare trustees shares acc = .ok shares') :
    ∃ seeds s, acc = .share seeds ∧ shares seeds = some s ∧ s.trustee ∈ trustees ∧
      shares' = Function.update shares seeds none := by
  cases acc with
  | other dataIsEmpty => exact nomatch h
  | share seeds =>
      rw [closeShare] at h
      cases hs : shares seeds with
      | none =>
          rw [hs] at h
          exact nomatch h
      | some s =>
          rw [hs] at h
          obtain ⟨hmem, h⟩ := require_bind_ok h
          exact ⟨seeds, s, rfl, hs, hmem, (Except.ok.inj h).symm⟩

theorem closeShares_ok {trustees : List Pubkey} {remaining : List RemainingAccount} :
    ∀ {shares shares' : Shares}, closeShares trustees shares remaining = .ok shares' →
      SharesClosed trustees remaining shares shares' := by
  induction remaining with
  | nil =>
      intro shares shares' h
      obtain rfl := Except.ok.inj h
      exact ⟨(fun _ hmem => nomatch hmem), (fun _ hmem => nomatch hmem), fun _ _ => rfl,
        List.nodup_nil⟩
  | cons acc rest ih =>
      intro shares shares' h
      obtain ⟨mid, hmid, h⟩ := bind_ok h
      obtain ⟨seeds, s, rfl, hs, hmem, rfl⟩ := closeShare_ok hmid
      obtain ⟨hlisted, hclosed, hkept, hnodup⟩ := ih h
      -- the account is gone after its turn, so it does not come again
      have hfresh : RemainingAccount.share seeds ∉ rest := by
        intro hin
        obtain ⟨s', hs', -⟩ := hlisted seeds hin
        rw [Function.update_self] at hs'
        exact nomatch hs'
      constructor
      · intro seeds' hin
        rcases List.mem_cons.mp hin with heq | hin
        · obtain rfl := RemainingAccount.share.inj heq
          exact ⟨s, hs, hmem⟩
        · obtain ⟨s', hs', hmem'⟩ := hlisted seeds' hin
          have hne : seeds' ≠ seeds := fun heq => hfresh (heq ▸ hin)
          rw [Function.update_of_ne hne] at hs'
          exact ⟨s', hs', hmem'⟩
      · intro seeds' hin
        rcases List.mem_cons.mp hin with heq | hin
        · obtain rfl := RemainingAccount.share.inj heq
          rw [hkept _ hfresh, Function.update_self]
        · exact hclosed seeds' hin
      · intro seeds' hout
        have hne : seeds' ≠ seeds := by
          rintro rfl
          exact hout List.mem_cons_self
        rw [hkept seeds' (fun hin => hout (List.mem_cons_of_mem _ hin)),
          Function.update_of_ne hne]
      · exact List.nodup_cons.mpr ⟨hfresh, hnodup⟩

/-- **WHAT A DELETION DOES**: its authority signed, and exactly the accounts it was
    given are closed, the request apart. -/
theorem Ledger.deleteInvestigation_ok {l l' : Ledger} {ctx : DeleteInvestigationRequest}
    {remaining : List RemainingAccount}
    (h : l.deleteInvestigation ctx remaining = .ok l') :
    ∃ req, l.investigations ctx.investigationRequest = some req ∧
      req.authority = ctx.authority ∧ remaining.length = req.trustees.length ∧
      SharesClosed req.trustees remaining l.shares l'.shares ∧
      l' = { l with
        investigations := Function.update l.investigations ctx.investigationRequest none
        shares := l'.shares } := by
  rw [Ledger.deleteInvestigation] at h
  cases hreq : l.investigations ctx.investigationRequest with
  | none =>
      rw [hreq] at h
      exact nomatch h
  | some req =>
      rw [hreq] at h
      obtain ⟨shares, hdel, h⟩ := bind_ok h
      obtain ⟨hauth, hdel⟩ := require_bind_ok hdel
      obtain ⟨hlen, hdel⟩ := require_bind_ok hdel
      obtain rfl := Except.ok.inj h
      exact ⟨req, rfl, hauth, hlen, closeShares_ok hdel, rfl⟩

/-! ## Its own shares, and nothing else -/

/-- The deletion of `inv` closed exactly the shares of `inv` for its trustees, left
    the shares of other investigations as they were, and left no share of `inv`. -/
structure ClosesOwnShares (inv : InvestigationSeeds) (l l' : Ledger) : Prop where
  closed : ∀ req, l.investigations inv = some req → ∀ seeds s, l.shares seeds = some s →
    (l'.shares seeds = none ↔ s.investigationRequest = some inv ∧ s.trustee ∈ req.trustees)
  kept : ∀ seeds s, l.shares seeds = some s → s.investigationRequest ≠ some inv →
    l'.shares seeds = some s
  gone : ∀ seeds s, l'.shares seeds = some s → s.investigationRequest ≠ some inv

/-- Among the accounts that exist, those passed are the shares of `inv`. -/
def PassesOwnShares (inv : InvestigationSeeds) (remaining : List RemainingAccount)
    (shares : Shares) : Prop :=
  ∀ seeds s, shares seeds = some s →
    (.share seeds ∈ remaining ↔ s.investigationRequest = some inv)

/-- **A DELETION CLOSES ITS OWN SHARES, EXACTLY WHEN** the accounts passed are all
    shares of its investigation, and all there are. -/
theorem closes_own_shares_iff {l l' : Ledger} {ctx : DeleteInvestigationRequest}
    {remaining : List RemainingAccount}
    (h : l.deleteInvestigation ctx remaining = .ok l') :
    ClosesOwnShares ctx.investigationRequest l l' ↔
      PassesOwnShares ctx.investigationRequest remaining l.shares := by
  obtain ⟨req, hreq, -, -, hclosed, -⟩ := l.deleteInvestigation_ok h
  constructor
  · intro hown seeds s hs
    constructor
    · intro hin
      exact ((hown.closed req hreq seeds s hs).mp (hclosed.closed seeds hin)).1
    · intro hinv
      by_contra hout
      have hstays := hclosed.kept seeds hout
      rw [hs] at hstays
      exact hown.gone seeds s hstays hinv
  · intro hpass
    constructor
    · intro req' hreq' seeds s hs
      rw [hreq] at hreq'
      obtain rfl := Option.some.inj hreq'
      constructor
      · intro hnone
        have hin : RemainingAccount.share seeds ∈ remaining := by
          by_contra hout
          rw [hclosed.kept seeds hout, hs] at hnone
          exact nomatch hnone
        obtain ⟨s', hs', hmem⟩ := hclosed.listed seeds hin
        rw [hs] at hs'
        obtain rfl := Option.some.inj hs'
        exact ⟨(hpass seeds s hs).mp hin, hmem⟩
      · rintro ⟨hinv, -⟩
        exact hclosed.closed seeds ((hpass seeds s hs).mpr hinv)
    · intro seeds s hs hne
      rw [hclosed.kept seeds (fun hin => hne ((hpass seeds s hs).mp hin)), hs]
    · intro seeds s hs' hinv
      by_cases hin : RemainingAccount.share seeds ∈ remaining
      · rw [hclosed.closed seeds hin] at hs'
        exact nomatch hs'
      · rw [hclosed.kept seeds hin] at hs'
        exact hin ((hpass seeds s hs').mpr hinv)

/-! ### Two investigations with the same trustees -/

namespace TwoInvestigations

/-- A second investigation of the request, with the same trustees. -/
def other : InvestigationSeeds := ⟨Sample.seeds, Sample.key 32⟩

def otherOpening : Instruction :=
  .createInvestigation
    { proofRequest := Sample.seeds
      serviceProvider := ⟨Sample.key 4, ⟨0, 2, []⟩⟩
      authority := Sample.key 32 }
    { encryptionKey := Sample.key 33, trustees := [Sample.key 21, Sample.key 22] }
    [.share ⟨other, Sample.key 21⟩, .share ⟨other, Sample.key 22⟩] Sample.now

/-- Both are open. -/
def opened : LedgerHistory × Ledger := InvestigationSample.run [otherOpening]

def delete : DeleteInvestigationRequest where
  investigationRequest := InvestigationSample.inv
  authority := Sample.key 30

/-- The shares of the first investigation. -/
def ownShares : List RemainingAccount :=
  [.share ⟨InvestigationSample.inv, Sample.key 21⟩,
    .share ⟨InvestigationSample.inv, Sample.key 22⟩]

/-- Those of the second. -/
def otherShares : List RemainingAccount :=
  [.share ⟨other, Sample.key 21⟩, .share ⟨other, Sample.key 22⟩]

/-- A share of `n`-th trustee of an investigation, at its opening. -/
def share (inv : InvestigationSeeds) (n : UInt8) : InvestigationRequestShare :=
  { InvestigationRequestShare.zeroed with
    investigationRequest := some inv
    proofRequestOwner := Sample.owner
    trustee := Sample.key (20 + n)
    createdAt := Sample.now
    index := n }

/-- The share accounts of the two investigations, and no others. -/
theorem shares_opened : opened.2.shares =
    Function.update (Function.update (Function.update (Function.update (fun _ => none)
      ⟨InvestigationSample.inv, Sample.key 21⟩ (some (share InvestigationSample.inv 1)))
      ⟨InvestigationSample.inv, Sample.key 22⟩ (some (share InvestigationSample.inv 2)))
      ⟨other, Sample.key 21⟩ (some (share other 1)))
      ⟨other, Sample.key 22⟩ (some (share other 2)) :=
  rfl

theorem passesOwnShares :
    PassesOwnShares InvestigationSample.inv ownShares opened.2.shares := by
  intro seeds s hs
  rw [shares_opened] at hs
  by_cases h₁ : seeds = ⟨other, Sample.key 22⟩
  · subst h₁
    rw [Function.update_self] at hs
    obtain rfl := Option.some.inj hs
    decide
  rw [Function.update_of_ne h₁] at hs
  by_cases h₂ : seeds = ⟨other, Sample.key 21⟩
  · subst h₂
    rw [Function.update_self] at hs
    obtain rfl := Option.some.inj hs
    decide
  rw [Function.update_of_ne h₂] at hs
  by_cases h₃ : seeds = ⟨InvestigationSample.inv, Sample.key 22⟩
  · subst h₃
    rw [Function.update_self] at hs
    obtain rfl := Option.some.inj hs
    decide
  rw [Function.update_of_ne h₃] at hs
  by_cases h₄ : seeds = ⟨InvestigationSample.inv, Sample.key 21⟩
  · subst h₄
    rw [Function.update_self] at hs
    obtain rfl := Option.some.inj hs
    decide
  rw [Function.update_of_ne h₄] at hs
  exact nomatch hs

end TwoInvestigations

/-- Passing its own shares closes them, and no others. -/
theorem closes_own_shares_sample :
    ∃ l', TwoInvestigations.opened.2.deleteInvestigation TwoInvestigations.delete
        TwoInvestigations.ownShares = .ok l' ∧
      ClosesOwnShares InvestigationSample.inv TwoInvestigations.opened.2 l' := by
  obtain ⟨l', hok⟩ := exists_ok (x := TwoInvestigations.opened.2.deleteInvestigation
    TwoInvestigations.delete TwoInvestigations.ownShares) (by decide +kernel)
  exact ⟨l', hok, (closes_own_shares_iff hok).mpr TwoInvestigations.passesOwnShares⟩

/-- **A DELETION CLOSES ANOTHER'S SHARES**: those of the second investigation go, and
    those of the first one stay. -/
theorem closes_own_shares_fails :
    Run (Ledger.step Sample.runtime id) Ledger.empty TwoInvestigations.opened.1
      TwoInvestigations.opened.2 ∧
    ∃ l', TwoInvestigations.opened.2.deleteInvestigation TwoInvestigations.delete
        TwoInvestigations.otherShares = .ok l' ∧
      ¬ ClosesOwnShares InvestigationSample.inv TwoInvestigations.opened.2 l' ∧
      l'.shares ⟨TwoInvestigations.other, Sample.key 21⟩ = none ∧
      l'.shares ⟨InvestigationSample.inv, Sample.key 21⟩
        = some (TwoInvestigations.share InvestigationSample.inv 1) := by
  refine ⟨InvestigationSample.run_run _, ?_⟩
  obtain ⟨l', hok⟩ := exists_ok (x := TwoInvestigations.opened.2.deleteInvestigation
    TwoInvestigations.delete TwoInvestigations.otherShares) (by decide +kernel)
  obtain ⟨req, -, -, -, hclosed, -⟩ := Ledger.deleteInvestigation_ok hok
  have hstays : l'.shares ⟨InvestigationSample.inv, Sample.key 21⟩
      = some (TwoInvestigations.share InvestigationSample.inv 1) := by
    rw [hclosed.kept _ (by decide)]
    rfl
  refine ⟨l', hok, ?_, hclosed.closed _ (by decide), hstays⟩
  intro hown
  exact hown.gone _ _ hstays rfl

end Albus.Program
