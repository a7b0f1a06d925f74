import Albus.Lib.Run
import Albus.Program.Investigation

/-! # The ledger

    All accounts of proof requests and their investigations, and the machine that
    the instructions on them form: the five calls on a request, the creation of a
    trustee, the opening of an investigation and the reveal of a share.  A request
    alone moves as its own machine does (`Ledger.request_step`).

    `trusteeAddress` is the address derived from a trustee's key. -/

namespace Albus.Program

open Albus.Lib

structure Ledger where
  requests : ProofRequestSeeds → Option ProofRequestAccount
  trustees : Pubkey → Option Trustee
  investigations : InvestigationSeeds → Option InvestigationRequest
  shares : Shares

inductive Instruction where
  | request (seeds : ProofRequestSeeds) (call : Call)
  | createTrustee (authority : Pubkey) (data : CreateTrusteeData)
  | createInvestigation (ctx : CreateInvestigationRequest)
      (data : CreateInvestigationRequestData) (remaining : List RemainingAccount) (now : Int)
  | reveal (ctx : RevealSecretShare) (data : RevealSecretShareData) (now : Int)
  deriving DecidableEq

/-- The `authority: Signer` of a call. -/
def Call.signer : Call → Pubkey
  | .create ctx _ _ => ctx.authority
  | .prove ctx _ _ => ctx.authority
  | .verify ctx _ => ctx.authority
  | .update authority _ _ => authority
  | .delete authority _ => authority

/-- The `authority: Signer` of an instruction. -/
def Instruction.signer : Instruction → Pubkey
  | .request _ call => call.signer
  | .createTrustee authority _ => authority
  | .createInvestigation ctx _ _ _ => ctx.authority
  | .reveal ctx _ _ => ctx.authority

namespace Ledger

/-- No account exists. -/
def empty : Ledger where
  requests _ := none
  trustees _ := none
  investigations _ := none
  shares _ := none

variable (rt : Runtime) (trusteeAddress : Bytes 32 → Pubkey)

/-- `create_trustee` on the ledger: `init` takes an address that holds nothing. -/
def addTrustee (l : Ledger) (authority : Pubkey) (data : CreateTrusteeData) :
    Except ProgramError Ledger := do
  let address := trusteeAddress data.key
  require (l.trustees address = none) .accountAlreadyInUse
  let trustee ← createTrustee rt authority data
  .ok { l with trustees := Function.update l.trustees address (some trustee) }

/-- `create_investigation_request` on the ledger: the request is held by a mutable
    reference and written back. -/
def openInvestigation (l : Ledger) (ctx : CreateInvestigationRequest)
    (data : CreateInvestigationRequestData) (remaining : List RemainingAccount)
    (now : Int) : Except ProgramError Ledger :=
  match l.requests ctx.proofRequest with
  | none => .error .accountNotInitialized
  | some a => do
      let seeds : InvestigationSeeds := ⟨ctx.proofRequest, ctx.authority⟩
      require (l.investigations seeds = none) .accountAlreadyInUse
      let opened ← createInvestigationRequest ctx data remaining now a.request l.shares
      let acc ← exitAccount a.space a.request
      .ok
        { l with
          requests := Function.update l.requests ctx.proofRequest acc
          investigations := Function.update l.investigations seeds (some opened.1)
          shares := opened.2 }

/-- `reveal_secret_share` on the ledger: a missing share is allocated, and the data
    must fit the account. -/
def revealShare (l : Ledger) (ctx : RevealSecretShare) (data : RevealSecretShareData)
    (now : Int) : Except ProgramError Ledger :=
  match l.investigations ctx.investigationRequest, l.trustees ctx.trustee with
  | some req, some trustee => do
      let share := (l.shares ctx.shareSeeds).getD .zeroed
      let revealed ← revealSecretShare ctx data now share req trustee
      require (revealed.1.share.length ≤ InvestigationRequestShare.maxShareLen)
        .accountDidNotSerialize
      .ok
        { l with
          trustees := Function.update l.trustees ctx.trustee (some revealed.2.2)
          investigations := Function.update l.investigations ctx.investigationRequest
            (some revealed.2.1)
          shares := Function.update l.shares ctx.shareSeeds (some revealed.1) }
  | _, _ => .error .accountNotInitialized

/-- One transaction. -/
def step (l : Ledger) : Instruction → Except ProgramError Ledger
  | .request seeds call => do
      let acc ← Program.step rt seeds (l.requests seeds) call
      .ok { l with requests := Function.update l.requests seeds acc }
  | .createTrustee authority data => addTrustee rt trusteeAddress l authority data
  | .createInvestigation ctx data remaining now => openInvestigation l ctx data remaining now
  | .reveal ctx data now => revealShare l ctx data now

variable {rt trusteeAddress}

theorem addTrustee_ok {l l' : Ledger} {authority : Pubkey} {data : CreateTrusteeData}
    (h : addTrustee rt trusteeAddress l authority data = .ok l') :
    ∃ trustee, l.trustees (trusteeAddress data.key) = none ∧
      createTrustee rt authority data = .ok trustee ∧
      l' = { l with
        trustees := Function.update l.trustees (trusteeAddress data.key) (some trustee) } := by
  obtain ⟨hnone, h⟩ := require_bind_ok h
  obtain ⟨trustee, htrustee, h⟩ := bind_ok h
  exact ⟨trustee, hnone, htrustee, (Except.ok.inj h).symm⟩

/-- Opening an investigation leaves every request as it was. -/
theorem openInvestigation_ok {l l' : Ledger} {ctx : CreateInvestigationRequest}
    {data : CreateInvestigationRequestData} {remaining : List RemainingAccount} {now : Int}
    (h : openInvestigation l ctx data remaining now = .ok l') :
    ∃ a inv shares, l.requests ctx.proofRequest = some a ∧
      l.investigations ⟨ctx.proofRequest, ctx.authority⟩ = none ∧
      createInvestigationRequest ctx data remaining now a.request l.shares
        = .ok (inv, shares) ∧
      l' = { l with
        investigations := Function.update l.investigations
          ⟨ctx.proofRequest, ctx.authority⟩ (some inv)
        shares := shares } := by
  rw [openInvestigation] at h
  cases hacc : l.requests ctx.proofRequest with
  | none =>
      rw [hacc] at h
      exact nomatch h
  | some a =>
      rw [hacc] at h
      obtain ⟨hnone, h⟩ := require_bind_ok h
      obtain ⟨⟨inv, shares⟩, hopened, h⟩ := bind_ok h
      obtain ⟨acc, hexit, h⟩ := bind_ok h
      refine ⟨a, inv, shares, rfl, hnone, hopened, ?_⟩
      have hsame : Function.update l.requests ctx.proofRequest acc = l.requests := by
        rw [exitAccount_ok hexit, ← hacc]
        exact Function.update_eq_self _ _
      rw [← Except.ok.inj h, hsame]

theorem revealShare_ok {l l' : Ledger} {ctx : RevealSecretShare}
    {data : RevealSecretShareData} {now : Int} (h : revealShare l ctx data now = .ok l') :
    ∃ req trustee share' req' trustee',
      l.investigations ctx.investigationRequest = some req ∧
      l.trustees ctx.trustee = some trustee ∧
      revealSecretShare ctx data now ((l.shares ctx.shareSeeds).getD .zeroed) req trustee
        = .ok (share', req', trustee') ∧
      l' = { l with
        trustees := Function.update l.trustees ctx.trustee (some trustee')
        investigations := Function.update l.investigations ctx.investigationRequest
          (some req')
        shares := Function.update l.shares ctx.shareSeeds (some share') } := by
  rw [revealShare] at h
  cases hreq : l.investigations ctx.investigationRequest with
  | none =>
      rw [hreq] at h
      exact nomatch h
  | some req =>
      cases htrustee : l.trustees ctx.trustee with
      | none =>
          rw [hreq, htrustee] at h
          exact nomatch h
      | some trustee =>
          rw [hreq, htrustee] at h
          obtain ⟨⟨share', req', trustee'⟩, hrevealed, h⟩ := bind_ok h
          obtain ⟨-, h⟩ := require_bind_ok h
          exact ⟨req, trustee, share', req', trustee', rfl, rfl, hrevealed,
            (Except.ok.inj h).symm⟩

/-- **STEP CASES**: what a successful transaction can be. -/
theorem step_cases {l l' : Ledger} {i : Instruction}
    (h : step rt trusteeAddress l i = .ok l') :
    (∃ seeds call acc, i = .request seeds call ∧
      Program.step rt seeds (l.requests seeds) call = .ok acc ∧
      l' = { l with requests := Function.update l.requests seeds acc }) ∨
    (∃ authority data, i = .createTrustee authority data ∧
      addTrustee rt trusteeAddress l authority data = .ok l') ∨
    (∃ ctx data remaining now, i = .createInvestigation ctx data remaining now ∧
      openInvestigation l ctx data remaining now = .ok l') ∨
    (∃ ctx data now, i = .reveal ctx data now ∧ revealShare l ctx data now = .ok l') := by
  cases i with
  | request seeds call =>
      obtain ⟨acc, hacc, h⟩ := bind_ok h
      exact Or.inl ⟨seeds, call, acc, rfl, hacc, (Except.ok.inj h).symm⟩
  | createTrustee authority data => exact Or.inr (Or.inl ⟨authority, data, rfl, h⟩)
  | createInvestigation ctx data remaining now =>
      exact Or.inr (Or.inr (Or.inl ⟨ctx, data, remaining, now, rfl, h⟩))
  | reveal ctx data now => exact Or.inr (Or.inr (Or.inr ⟨ctx, data, now, rfl, h⟩))

/-- The transaction, if it is a call on the request at `seeds`. -/
def callOn (seeds : ProofRequestSeeds) (t : Transition Ledger Instruction) :
    Option (Transition (Option ProofRequestAccount) Call) :=
  match t.call with
  | .request seeds' call =>
      if seeds' = seeds then some ⟨t.pre.requests seeds, call, t.post.requests seeds⟩
      else none
  | _ => none

/-- The history of the request at `seeds` in a history of the ledger. -/
def requestHistory (seeds : ProofRequestSeeds) (h : List (Transition Ledger Instruction)) :
    List (Transition (Option ProofRequestAccount) Call) :=
  h.filterMap (callOn seeds)

theorem callOn_some {seeds : ProofRequestSeeds} {t : Transition Ledger Instruction}
    {u : Transition (Option ProofRequestAccount) Call} (h : callOn seeds t = some u) :
    ∃ call, t.call = .request seeds call ∧
      u = ⟨t.pre.requests seeds, call, t.post.requests seeds⟩ := by
  obtain ⟨l, i, l'⟩ := t
  cases i with
  | request seeds' call =>
      by_cases heq : seeds' = seeds
      · subst heq
        rw [callOn] at h
        simp only [if_pos] at h
        exact ⟨call, rfl, (Option.some.inj h).symm⟩
      · rw [callOn] at h
        simp only [if_neg heq] at h
        exact nomatch h
  | createTrustee authority data => exact nomatch h
  | createInvestigation ctx data remaining now => exact nomatch h
  | reveal ctx data now => exact nomatch h

/-- **A TRANSACTION AND THE REQUEST'S HISTORY**: the request is left alone, or the
    transaction is the next call of its history. -/
theorem callOn_cases {l l' : Ledger} {i : Instruction}
    (h : step rt trusteeAddress l i = .ok l') (seeds : ProofRequestSeeds) :
    (callOn seeds ⟨l, i, l'⟩ = none ∧ l'.requests seeds = l.requests seeds) ∨
      ∃ call, callOn seeds ⟨l, i, l'⟩
          = some ⟨l.requests seeds, call, l'.requests seeds⟩ ∧
        Program.step rt seeds (l.requests seeds) call = .ok (l'.requests seeds) := by
  rcases step_cases h with ⟨seeds', call, acc, rfl, hacc, rfl⟩ | ⟨authority, data, rfl, h⟩ |
    ⟨ctx, data, remaining, now, rfl, h⟩ | ⟨ctx, data, now, rfl, h⟩
  · by_cases heq : seeds' = seeds
    · subst heq
      refine Or.inr ⟨call, if_pos rfl, ?_⟩
      show Program.step rt seeds' (l.requests seeds') call
        = .ok (Function.update l.requests seeds' acc seeds')
      rw [Function.update_self]
      exact hacc
    · exact Or.inl ⟨if_neg heq, Function.update_of_ne (Ne.symm heq) _ _⟩
  · obtain ⟨trustee, -, -, rfl⟩ := addTrustee_ok h
    exact Or.inl ⟨rfl, rfl⟩
  · obtain ⟨a, inv, shares, -, -, -, rfl⟩ := openInvestigation_ok h
    exact Or.inl ⟨rfl, rfl⟩
  · obtain ⟨req, trustee, share', req', trustee', -, -, -, rfl⟩ := revealShare_ok h
    exact Or.inl ⟨rfl, rfl⟩

/-- **A REQUEST MOVES AS ITS OWN MACHINE DOES**: a transaction leaves the account at
    `seeds` alone, or is a call on it. -/
theorem request_step {l l' : Ledger} {i : Instruction}
    (h : step rt trusteeAddress l i = .ok l') (seeds : ProofRequestSeeds) :
    l'.requests seeds = l.requests seeds ∨
      ∃ call, i = .request seeds call ∧
        Program.step rt seeds (l.requests seeds) call = .ok (l'.requests seeds) := by
  rcases callOn_cases h seeds with ⟨-, heq⟩ | ⟨call, hsome, hcall⟩
  · exact Or.inl heq
  · obtain ⟨call', hi, heq⟩ := callOn_some hsome
    obtain ⟨-, rfl, -⟩ := Transition.mk.inj heq
    exact Or.inr ⟨call, hi, hcall⟩

/-- **THE HISTORY OF A REQUEST**: the calls of a run on one request are a run of the
    request's machine. -/
theorem request_history {h : List (Transition Ledger Instruction)} {l : Ledger}
    (r : Run (step rt trusteeAddress) empty h l) (seeds : ProofRequestSeeds) :
    Run (Program.step rt seeds) none (requestHistory seeds h) (l.requests seeds) := by
  induction r with
  | init => exact Run.init
  | @step h l l' i _ hs ih =>
      rcases callOn_cases hs seeds with ⟨hnone, heq⟩ | ⟨call, hsome, hcall⟩
      · rw [requestHistory, List.filterMap_cons_none hnone, heq]
        exact ih
      · rw [requestHistory, List.filterMap_cons_some hsome]
        exact ih.step hcall

theorem request_run {h : List (Transition Ledger Instruction)} {l : Ledger}
    (r : Run (step rt trusteeAddress) empty h l) (seeds : ProofRequestSeeds) :
    ∃ h', Run (Program.step rt seeds) none h' (l.requests seeds) :=
  ⟨_, request_history r seeds⟩

end Ledger

end Albus.Program
