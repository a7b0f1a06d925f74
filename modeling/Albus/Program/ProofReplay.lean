import Albus.Program.WriteAuthority

/-! # One proof for two owners

    A proof and its public inputs are public once they are on chain, and nothing in
    them names the account they are stored in or its owner: the handlers compare the
    caller with the owner of the REQUEST, and the circuits take no owner as an input.
    So the same proof can verify the requests of two owners.  What stands is that no
    owner gets there without having submitted the proof on the own request, while
    its timestamp was current (`verified_was_submitted`). -/

namespace Albus.Program

open Albus.Lib

/-- `t` is a `verify_proof_request` on the request at `seeds`, which then stores
    `proof` and `inputs`. -/
def VerifiesWith (seeds : ProofRequestSeeds) (proof : ProofData)
    (inputs : List (Bytes 32)) (t : Transition Ledger Instruction) : Prop :=
  ∃ ctx now, t.call = .request seeds (.verify ctx now) ∧
    ∃ a, t.post.requests seeds = some a ∧ a.request.status = .verified ∧
      a.request.proof = some proof ∧ a.request.publicInputs = inputs

/-- No two requests of different owners are both set verified with one proof and one
    vector of inputs. -/
def NoReplay (h : List (Transition Ledger Instruction)) : Prop :=
  ∀ seeds₁ seeds₂ proof inputs, seeds₁.owner ≠ seeds₂.owner →
    (∃ t ∈ h, VerifiesWith seeds₁ proof inputs t) →
    ¬ ∃ t ∈ h, VerifiesWith seeds₂ proof inputs t

/-- The owner of `seeds` signed a call that stored this proof, the latest one of the
    request's history that stored any, and it passed the handler's checks; the inputs
    it left begin `inputs`. -/
structure Submitted (seeds : ProofRequestSeeds) (h : History) (proof : ProofData)
    (inputs : List (Bytes 32)) (t : Transition (Option ProofRequestAccount) Call)
    (ctx : ProveProofRequest) (data : ProveProofRequestData) (now : Int) : Prop where
  call : t.call = .prove ctx data now
  latest : ∃ earlier, LatestProof h t earlier
  signer : ctx.authority = seeds.owner
  proof : data.proof = some proof
  /-- On the request as it was: the timestamp was current, and only the issuer's key
      and the policy's values were written over what the owner sent. -/
  checked : ∃ a signals, t.pre = some a ∧ a.request.owner = seeds.owner ∧
    ctx.circuit.data.signals = some signals ∧
    writeAll (receiveInputs data a.request).publicInputs
      (proveWrites signals ctx.issuer ctx.policy.data.rules) <+: inputs ∧
    ∀ span, signals.get timestampSignal = some span →
      ∃ input, (receiveInputs data a.request).publicInputs[span.index]? = some input ∧
        now - timestampThreshold ≤ asI64 (bytesToNum input)

/-- A proof stored on a request was submitted by its owner. -/
theorem submitted_of_stored {rt : Runtime} (hroot : rt.authorizedAuthority ≠ [])
    {seeds : ProofRequestSeeds} {h : History} {s : Option ProofRequestAccount}
    (r : Run (step rt seeds) none h s) {a : ProofRequestAccount} (ha : s = some a)
    {proof : ProofData} (hproof : a.request.proof = some proof) :
    ∃ t ctx data now,
      Submitted seeds h proof a.request.publicInputs t ctx data now := by
  obtain ⟨t, earlier, b, hlatest, hb, hsame, -, hprefix⟩ :=
    storedProof_latest r a ha (by rw [hproof]; rfl)
  obtain ⟨r', hstep⟩ := hlatest.step r
  obtain ⟨-, -, ⟨ctx, data, now, hcall, hsome⟩, -⟩ := id hlatest
  rw [hcall] at hstep
  obtain ⟨before, b', signals, hbefore, hb', -, hacc⟩ := acceptedProof_of_step hstep hsome
  obtain rfl := Option.some.inj (hb.symm.trans hb')
  -- the request lives at the address of its owner
  have howner : before.request.owner = seeds.owner :=
    (seeded_run hroot r' before hbefore).2
  refine ⟨t, ctx, data, now, hcall, ⟨earlier, hlatest⟩, hacc.owner.symm.trans howner, ?_,
    before, signals, hbefore, howner, hacc.layout, ?_, hacc.checked.timestamp⟩
  · rw [← hacc.proof, hsame, hproof]
  · rw [← hacc.inputs]
    exact hprefix

/-- **NO PROOF COUNTS FOR AN OWNER WHO DID NOT SUBMIT IT.**  In every run of the
    ledger, whoever calls what: what a verification is made with, the owner of the
    request has sent, under the own signature and within the threshold of the
    clock. -/
theorem verified_was_submitted (testing devnet verifyOnChain : Bool) (altBn128 : AltBn128)
    (trusteeAddress : Bytes 32 → Pubkey) (h : List (Transition Ledger Instruction))
    (l : Ledger)
    (r : Run (Ledger.step (deployed testing devnet verifyOnChain altBn128) trusteeAddress)
      Ledger.empty h l)
    (later earlier : List (Transition Ledger Instruction))
    (v : Transition Ledger Instruction) (hh : h = later ++ v :: earlier)
    (seeds : ProofRequestSeeds) (proof : ProofData) (inputs : List (Bytes 32))
    (hv : VerifiesWith seeds proof inputs v) :
    ∃ t ctx data now,
      Submitted seeds (Ledger.requestHistory seeds earlier) proof inputs t ctx data now := by
  obtain ⟨r', hstep⟩ := r.split hh
  obtain ⟨vctx, vnow, hcall, b, hb, -, hproof, hinputs⟩ := hv
  rw [hcall] at hstep
  obtain ⟨acc, hacc, hpost⟩ := bind_ok hstep
  obtain ⟨a, req', hpre, hf, rfl⟩ := onAccount_ok hacc
  obtain ⟨-, -, rfl⟩ := verifyProofRequest_ok hf
  -- a verification moves neither the proof nor the inputs
  have hpost' : v.post.requests seeds =
      some ⟨a.space, { a.request with status := .verified, verifiedAt := vnow }⟩ := by
    rw [← Except.ok.inj hpost]
    exact Function.update_self _ _ _
  obtain rfl := Option.some.inj (hpost'.symm.trans hb)
  subst hinputs
  have hroot : (deployed testing devnet verifyOnChain altBn128).authorizedAuthority ≠ [] :=
    authorizedAuthority_ne_nil testing devnet
  exact submitted_of_stored hroot (Ledger.request_history r' seeds) hpre hproof

namespace ReplaySample

def runtime : Runtime := deployed false false true .atInfinity

/-- A circuit with a timestamp, as the circuits of the repository have. -/
def circuit : Account Circuit := Sample.circuit ["timestamp"] 1

/-- The time of all calls. -/
def timestamp : Bytes 32 := Bytes.ofNum 32 1700000000

def other : Pubkey := Sample.key 8

def seeds (owner : Pubkey) : ProofRequestSeeds := ⟨Sample.key 3, owner⟩

/-- An owner creates a request, stores the proof and has it verified. -/
def callsOf (owner : Pubkey) : List Instruction :=
  [.request (seeds owner)
      (.create
        { serviceProvider := ⟨Sample.key 4, ⟨0, 2, []⟩⟩
          policy := Sample.policy []
          authority := owner
          bump := 255 }
        { expiresIn := 0, maxPublicInputs := 8 } Sample.now),
    .request (seeds owner)
      (.prove { circuit, policy := Sample.policy [], issuer := none, authority := owner }
        { proof := some Sample.proof, publicInputs := [timestamp], reset := false }
        Sample.now),
    .request (seeds owner) (.verify { circuit, authority := owner } Sample.now)]

/-- One owner after the other, with the same proof and the same inputs. -/
def run : List (Transition Ledger Instruction) × Ledger :=
  exec (Ledger.step runtime id) Ledger.empty (callsOf Sample.owner ++ callsOf other)

/-- The call of an owner's verification. -/
def verifies (owner : Pubkey) : Instruction :=
  .request (seeds owner) (.verify { circuit, authority := owner } Sample.now)

/-- All six calls go through. -/
theorem run_calls :
    run.1.map (fun t => t.call) = (callsOf Sample.owner ++ callsOf other).reverse :=
  exec_calls (by decide +kernel)

/-- The verification of each owner is made with the one proof and the one vector of
    inputs. -/
theorem verified_both : ∀ owner ∈ [Sample.owner, other],
    ∃ t ∈ run.1, t.call = verifies owner ∧
      ∃ a ∈ t.post.requests (seeds owner), a.request.status = .verified ∧
        a.request.proof = some Sample.proof ∧ a.request.publicInputs = [timestamp] := by
  decide +kernel

theorem verifiesWith {owner : Pubkey} (h : owner ∈ [Sample.owner, other]) :
    ∃ t ∈ run.1, VerifiesWith (seeds owner) Sample.proof [timestamp] t := by
  obtain ⟨t, ht, hcall, a, ha, hstored⟩ := verified_both owner h
  exact ⟨t, ht, _, _, hcall, a, ha, hstored⟩

end ReplaySample

/-- Before its verification the second owner has submitted the proof as well. -/
theorem verified_was_submitted_sample :
    ∃ later v earlier, ReplaySample.run.1 = later ++ v :: earlier ∧
      VerifiesWith (ReplaySample.seeds ReplaySample.other) Sample.proof
        [ReplaySample.timestamp] v ∧
      ∃ t ctx data now,
        Submitted (ReplaySample.seeds ReplaySample.other)
          (Ledger.requestHistory (ReplaySample.seeds ReplaySample.other) earlier)
          Sample.proof [ReplaySample.timestamp] t ctx data now := by
  obtain ⟨v, hv, hverifies⟩ :=
    ReplaySample.verifiesWith (List.mem_cons_of_mem _ List.mem_cons_self)
  obtain ⟨later, earlier, hh⟩ := List.append_of_mem hv
  exact ⟨later, v, earlier, hh, hverifies,
    verified_was_submitted false false true .atInfinity id _ _
      (run_exec _ Ledger.empty _) later earlier v hh _ _ _ hverifies⟩

/-- **A REPLAYED PROOF VERIFIES**: the proof that one owner has published makes the
    request of another verified. -/
theorem replayed_proof_verifies :
    ∃ (h : List (Transition Ledger Instruction)) (l : Ledger),
      Run (Ledger.step (deployed false false true .atInfinity) id) Ledger.empty h l ∧
      h.map (fun t => t.call)
        = (ReplaySample.callsOf Sample.owner
            ++ ReplaySample.callsOf ReplaySample.other).reverse ∧
      ¬ NoReplay h := by
  refine ⟨_, _, run_exec _ Ledger.empty _, ReplaySample.run_calls, ?_⟩
  intro hno
  exact hno (ReplaySample.seeds Sample.owner) (ReplaySample.seeds ReplaySample.other)
    Sample.proof [ReplaySample.timestamp] (by decide)
    (ReplaySample.verifiesWith List.mem_cons_self)
    (ReplaySample.verifiesWith (List.mem_cons_of_mem _ List.mem_cons_self))

end Albus.Program
