import Albus.Program.Ledger
import Albus.Program.StoredProof

/-! # Who writes a proof request

    Six instructions hold a request by a mutable reference.  Whatever is called by
    whomever: what was proved moves under the owner's signature only, owner and
    policy never move, and a request becomes verified by the verifier or by a root
    authority (`write_authority`).  The creation is the case that needs an
    invariant: it writes an existing account over, and it is the derived address
    that makes its signer the owner. -/

namespace Albus.Program

open Albus.Lib

/-- The fields of what was proved. -/
def ProofRequest.SameProof (a b : ProofRequest) : Prop :=
  b.proof = a.proof ∧ b.publicInputs = a.publicInputs ∧ b.issuer = a.issuer ∧
    b.provedAt = a.provedAt

/-- The request lives at the address of its policy and its owner. -/
def Seeded (seeds : ProofRequestSeeds) (acc : Option ProofRequestAccount) : Prop :=
  ∀ a, acc = some a → a.request.policy = seeds.policy ∧ a.request.owner = seeds.owner

/-- The call is a verification whose stored proof and inputs passed the verifier
    against the key of the recorded circuit. -/
def VerifiedByProof (rt : Runtime) (pre : Option ProofRequestAccount) (c : Call) : Prop :=
  ∃ ctx now a proof, c = .verify ctx now ∧ pre = some a ∧
    a.request.circuit = ctx.circuit.key ∧ a.request.proof = some proof ∧
    runVerifier rt.altBn128 ctx.circuit.data.vk proof a.request.publicInputs = .ok ()

/-- The call is a status update signed by a root authority. -/
def VerifiedByRoot (rt : Runtime) (c : Call) : Prop :=
  ∃ authority data now, c = .update authority data now ∧
    authority ∈ rt.authorizedAuthority

/-- What may change on a request account, by whom. -/
structure Authorized (rt : Runtime) (pre : Option ProofRequestAccount) (c : Call)
    (post : Option ProofRequestAccount) : Prop where
  proof : ∀ a b, pre = some a → post = some b → ¬ a.request.SameProof b.request →
    c.signer = a.request.owner
  kept : ∀ a b, pre = some a → post = some b →
    b.request.owner = a.request.owner ∧ b.request.policy = a.request.policy
  created : ∀ b, pre = none → post = some b → c.signer = b.request.owner
  closed : ∀ a, pre = some a → post = none → c.signer = a.request.owner
  verified : ∀ b, post = some b → b.request.status = .verified →
    (∀ a, pre = some a → a.request.status ≠ .verified) →
    VerifiedByProof rt pre c ∨ VerifiedByRoot rt c

theorem receiveInputs_status {data : ProveProofRequestData} {req : ProofRequest}
    (h : (receiveInputs data req).status = .verified) : req.status = .verified := by
  cases hreset : data.reset with
  | true =>
      rw [receiveInputs_reset hreset] at h
      exact nomatch h
  | false =>
      rw [receiveInputs_append hreset] at h
      exact h

theorem proveProofRequest_kept {ctx : ProveProofRequest} {data : ProveProofRequestData}
    {now : Int} {req req' : ProofRequest}
    (h : proveProofRequest ctx data now req = .ok req') :
    req'.owner = req.owner ∧ req'.policy = req.policy ∧
      (req'.status = .verified → req.status = .verified) := by
  obtain ⟨-, -, -, hcase⟩ := proveProofRequest_ok h
  rcases hcase with ⟨-, rfl⟩ | ⟨proof, -, haccept⟩
  · exact ⟨receiveInputs_owner data req, receiveInputs_policy data req,
      receiveInputs_status⟩
  · obtain ⟨_, -, -, -, -, hst, -, -, hpol, -, howner⟩ := acceptProof_ok haccept
    refine ⟨howner.trans (receiveInputs_owner data req),
      hpol.trans (receiveInputs_policy data req), ?_⟩
    intro hv
    rw [hst] at hv
    exact nomatch hv

/-- A call that moves the status and its time alone. -/
theorem authorized_of_status {rt : Runtime} {seeds : ProofRequestSeeds}
    {a : ProofRequestAccount} {c : Call} {status : ProofRequestStatus} {now : Int}
    (hseeded : Seeded seeds (some a))
    (hv : status = .verified → VerifiedByProof rt (some a) c ∨ VerifiedByRoot rt c) :
    Authorized rt (some a) c
        (some ⟨a.space, { a.request with status := status, verifiedAt := now }⟩) ∧
      Seeded seeds
        (some ⟨a.space, { a.request with status := status, verifiedAt := now }⟩) := by
  refine ⟨⟨?_, ?_, ?_, ?_, ?_⟩, ?_⟩
  · intro a' b ha hb hne
    obtain rfl := Option.some.inj ha
    obtain rfl := Option.some.inj hb
    exact absurd ⟨rfl, rfl, rfl, rfl⟩ hne
  · intro a' b ha hb
    obtain rfl := Option.some.inj ha
    obtain rfl := Option.some.inj hb
    exact ⟨rfl, rfl⟩
  · intro b hnone
    exact nomatch hnone
  · intro a' _ hnone
    exact nomatch hnone
  · intro b hb hst _
    obtain rfl := Option.some.inj hb
    exact hv hst
  · intro b hb
    obtain rfl := Option.some.inj hb
    exact hseeded a rfl

/-- **ONE CALL IS AUTHORIZED**, and leaves the request at its address. -/
theorem authorized_of_step {rt : Runtime} (hroot : rt.authorizedAuthority ≠ [])
    {seeds : ProofRequestSeeds} {acc acc' : Option ProofRequestAccount} {c : Call}
    (hseeded : Seeded seeds acc) (h : step rt seeds acc c = .ok acc') :
    Authorized rt acc c acc' ∧ Seeded seeds acc' := by
  rcases step_cases h with
    ⟨ctx, data, now, req, sp, pol, req', rfl, rfl, hinit, hcreate, rfl⟩ |
    ⟨ctx, data, now, a, req', rfl, rfl, hf, rfl⟩ |
    ⟨ctx, now, a, req', rfl, rfl, hf, rfl⟩ |
    ⟨authority, data, now, a, req', rfl, rfl, hf, rfl⟩ |
    ⟨authority, now, a, rfl, rfl, hf, rfl⟩
  · -- the creation: the signer is the owner in the seeds
    obtain ⟨hpol, -, howner, hst, -⟩ := createProofRequest_ok hcreate
    have hseeded' : Seeded ⟨ctx.policy.key, ctx.authority⟩
        (some ⟨ProofRequest.space data.maxPublicInputs, req'⟩) := by
      intro b hb
      obtain rfl := Option.some.inj hb
      exact ⟨hpol, howner⟩
    refine ⟨⟨?_, ?_, ?_, ?_, ?_⟩, hseeded'⟩
    · intro a b ha _ _
      exact (hseeded a ha).2.symm
    · intro a b ha hb
      exact ⟨(hseeded' b hb).2.trans (hseeded a ha).2.symm,
        (hseeded' b hb).1.trans (hseeded a ha).1.symm⟩
    · intro b _ hb
      exact (hseeded' b hb).2.symm
    · intro a _ hnone
      exact nomatch hnone
    · intro b hb hv _
      obtain rfl := Option.some.inj hb
      rw [show req'.status = .pending from hst] at hv
      exact nomatch hv
  · obtain ⟨-, -, hauth, -⟩ := proveProofRequest_ok hf
    obtain ⟨howner, hpol, hst⟩ := proveProofRequest_kept hf
    refine ⟨⟨?_, ?_, ?_, ?_, ?_⟩, ?_⟩
    · intro a' b ha _ _
      obtain rfl := Option.some.inj ha
      exact hauth.symm
    · intro a' b ha hb
      obtain rfl := Option.some.inj ha
      obtain rfl := Option.some.inj hb
      exact ⟨howner, hpol⟩
    · intro b hnone
      exact nomatch hnone
    · intro a' _ hnone
      exact nomatch hnone
    · intro b hb hv hnot
      obtain rfl := Option.some.inj hb
      exact absurd (hst hv) (hnot a rfl)
    · intro b hb
      obtain rfl := Option.some.inj hb
      exact ⟨hpol.trans (hseeded a rfl).1, howner.trans (hseeded a rfl).2⟩
  · obtain ⟨hcirc, ⟨proof, hproof, hrun⟩, rfl⟩ := verifyProofRequest_ok hf
    refine authorized_of_status hseeded ?_
    intro _
    exact Or.inl ⟨ctx, now, a, proof, rfl, rfl, hcirc, hproof, hrun⟩
  · have hauth := (updateProofRequest_authorized hf).resolve_left hroot
    obtain ⟨-, rfl⟩ := updateProofRequest_ok hf
    refine authorized_of_status hseeded ?_
    intro _
    exact Or.inr ⟨authority, data, now, rfl, hauth⟩
  · obtain ⟨howner, -⟩ := require_bind_ok hf
    refine ⟨⟨?_, ?_, ?_, ?_, ?_⟩, ?_⟩
    · intro a' b _ hnone
      exact nomatch hnone
    · intro a' b _ hnone
      exact nomatch hnone
    · intro b hnone
      exact nomatch hnone
    · intro a' ha _
      obtain rfl := Option.some.inj ha
      exact howner.symm
    · intro b hnone
      exact nomatch hnone
    · intro b hnone
      exact nomatch hnone

/-- In every run the request at `seeds` lives at its address. -/
theorem seeded_run {rt : Runtime} (hroot : rt.authorizedAuthority ≠ [])
    {seeds : ProofRequestSeeds} {h : History} {s : Option ProofRequestAccount}
    (r : Run (step rt seeds) none h s) : Seeded seeds s := by
  refine r.preserves (P := Seeded seeds) ?_ ?_
  · intro a ha
    exact nomatch ha
  · intro acc c acc' ih hstep
    exact (authorized_of_step hroot ih hstep).2

theorem authorizedAuthority_ne_nil (testing devnet : Bool) :
    authorizedAuthority testing devnet ≠ [] := by
  rw [authorizedAuthority]
  exact List.append_ne_nil_of_right_ne_nil _ (List.cons_ne_nil _ _)

/-- The program as built with some features, on some curve syscalls. -/
def deployed (testing devnet verifyOnChain : Bool) (altBn128 : AltBn128) : Runtime where
  authorizedAuthority := authorizedAuthority testing devnet
  verifyOnChain := verifyOnChain
  altBn128 := altBn128

/-- The transaction leaves the request at `seeds` alone, or is an authorized call on
    it. -/
def RequestAuthorized (rt : Runtime) (seeds : ProofRequestSeeds)
    (t : Transition Ledger Instruction) : Prop :=
  t.post.requests seeds = t.pre.requests seeds ∨
    ∃ call, t.call = .request seeds call ∧
      Authorized rt (t.pre.requests seeds) call (t.post.requests seeds)

/-- **WRITE AUTHORITY**, of every request, over every run of all instructions, signed
    by anybody. -/
theorem write_authority (testing devnet verifyOnChain : Bool) (altBn128 : AltBn128)
    (trusteeAddress : Bytes 32 → Pubkey) (h : List (Transition Ledger Instruction))
    (l : Ledger)
    (r : Run (Ledger.step (deployed testing devnet verifyOnChain altBn128) trusteeAddress)
      Ledger.empty h l) :
    ∀ t ∈ h, ∀ seeds,
      RequestAuthorized (deployed testing devnet verifyOnChain altBn128) seeds t := by
  intro t ht seeds
  have hroot : (deployed testing devnet verifyOnChain altBn128).authorizedAuthority ≠ [] :=
    authorizedAuthority_ne_nil testing devnet
  obtain ⟨earlier, r', hstep⟩ := r.run_of_mem ht
  -- the account before the step is one of the request's own runs
  obtain ⟨h', r''⟩ := Ledger.request_run r' seeds
  have hseeded := seeded_run hroot r''
  rcases Ledger.request_step hstep seeds with heq | ⟨call, hcall, hstep'⟩
  · exact Or.inl heq
  · exact Or.inr ⟨call, hcall, (authorized_of_step hroot hseeded hstep').1⟩

namespace AuthoritySample

def runtime : Runtime := deployed false false true .atInfinity

def circuit : Account Circuit := Sample.circuit [] 0

/-- A request is created, proved and verified by its owner, and then verified once
    more by the root authority. -/
def calls : List Instruction :=
  [.request Sample.seeds (Sample.create []),
    .request Sample.seeds (Sample.prove [] circuit none (some Sample.proof) []),
    .request Sample.seeds (Sample.verify circuit),
    .request Sample.seeds (.update (pubkey "AuthxkATW25YDWX4kyDLh5qFMV1VhxKtRC9FBHh2JwZR")
      { status := .verified } Sample.now)]

def run : List (Transition Ledger Instruction) × Ledger :=
  exec (Ledger.step runtime id) Ledger.empty calls

end AuthoritySample

/-- All four transactions go through, and each is authorized. -/
theorem write_authority_sample :
    AuthoritySample.run.1.length = 4 ∧
      (∃ a ∈ AuthoritySample.run.2.requests Sample.seeds,
        a.request.status = .verified) ∧
      ∀ t ∈ AuthoritySample.run.1,
        RequestAuthorized AuthoritySample.runtime Sample.seeds t := by
  rw [← and_assoc]
  refine ⟨by decide +kernel, ?_⟩
  intro t ht
  exact write_authority false false true .atInfinity id _ _
    (run_exec _ Ledger.empty AuthoritySample.calls) t ht Sample.seeds

end Albus.Program
