import Albus.Program.StoredProof

/-! # What a verified request stores

    A chunk of inputs is appended whatever the status is, and only a reset or a
    proof lowers the status.  So a verified request keeps the data that was
    verified exactly as long as no chunk is sent to it: one more input and the
    count is wrong for the key. -/

namespace Albus.Program

open Albus.Lib

/-- A verified request stores a proof and inputs that the verifier accepts against
    the key of its circuit, `circuits` being the circuit accounts. -/
def VerifiedVerifies (sys : AltBn128) (circuits : Pubkey → Circuit)
    (acc : Option ProofRequestAccount) : Prop :=
  ∀ a, acc = some a → a.request.status = .verified →
    ∃ proof, a.request.proof = some proof ∧
      runVerifier sys (circuits a.request.circuit).vk proof a.request.publicInputs = .ok ()

instance (sys : AltBn128) (circuits : Pubkey → Circuit)
    (acc : Option ProofRequestAccount) : Decidable (VerifiedVerifies sys circuits acc) :=
  inferInstanceAs (Decidable (∀ a ∈ acc, a.request.status = .verified →
    ∃ proof ∈ a.request.proof,
      runVerifier sys (circuits a.request.circuit).vk proof a.request.publicInputs = .ok ()))

/-- A call by which a request may become verified only through the verifier, with
    the circuit accounts as they are. -/
def Call.UnderCircuits (circuits : Pubkey → Circuit) : Call → Prop
  | .verify ctx _ => ctx.circuit.data = circuits ctx.circuit.key
  | .update _ _ _ => False
  | _ => True

instance (circuits : Pubkey → Circuit) :
    (c : Call) → Decidable (c.UnderCircuits circuits)
  | .verify ctx _ => inferInstanceAs (Decidable (ctx.circuit.data = _))
  | .update _ _ _ => inferInstanceAs (Decidable False)
  | .create _ _ _ => inferInstanceAs (Decidable True)
  | .prove _ _ _ => inferInstanceAs (Decidable True)
  | .delete _ _ => inferInstanceAs (Decidable True)

/-- A chunk of inputs, with neither a proof nor a reset, for a verified request. -/
def ChunkAfterVerified (t : Transition (Option ProofRequestAccount) Call) : Prop :=
  match t.call, t.pre with
  | .prove _ data _, some a =>
      data.proof = none ∧ data.reset = false ∧ data.publicInputs ≠ [] ∧
        a.request.status = .verified
  | _, _ => False

instance (t : Transition (Option ProofRequestAccount) Call) :
    Decidable (ChunkAfterVerified t) :=
  match t with
  | ⟨some a, .prove _ data _, _⟩ =>
      inferInstanceAs (Decidable (data.proof = none ∧ data.reset = false ∧
        data.publicInputs ≠ [] ∧ a.request.status = .verified))
  | ⟨none, .prove _ _ _, _⟩ => isFalse id
  | ⟨_, .create _ _ _, _⟩ => isFalse id
  | ⟨_, .verify _ _, _⟩ => isFalse id
  | ⟨_, .update _ _ _, _⟩ => isFalse id
  | ⟨_, .delete _ _, _⟩ => isFalse id

theorem ChunkAfterVerified.inv {acc acc' : Option ProofRequestAccount} {c : Call}
    (h : ChunkAfterVerified ⟨acc, c, acc'⟩) :
    ∃ ctx data now a, c = .prove ctx data now ∧ acc = some a ∧ data.proof = none ∧
      data.reset = false ∧ data.publicInputs ≠ [] ∧ a.request.status = .verified := by
  cases c with
  | prove ctx data now =>
      cases acc with
      | none => exact h.elim
      | some a => exact ⟨ctx, data, now, a, rfl, rfl, h⟩
  | _ => exact h.elim

/-- The verifier accepts no more and no fewer inputs than the key has points. -/
theorem runVerifier_length {sys : AltBn128} {vk : VerificationKey} {proof : ProofData}
    {inputs : List (Bytes 32)} (h : runVerifier sys vk proof inputs = .ok ()) :
    inputs.length + 1 = vk.ic.length := by
  by_contra hne
  rw [runVerifier, Groth16Verifier.new, if_pos hne] at h
  exact nomatch h

/-- **ONE CALL KEEPS A VERIFIED REQUEST VERIFYING**, unless it is a chunk. -/
theorem verifiedVerifies_of_step {rt : Runtime} {seeds : ProofRequestSeeds}
    {circuits : Pubkey → Circuit} {acc acc' : Option ProofRequestAccount} {c : Call}
    (ih : VerifiedVerifies rt.altBn128 circuits acc) (h : step rt seeds acc c = .ok acc')
    (hc : c.UnderCircuits circuits) (hchunk : ¬ ChunkAfterVerified ⟨acc, c, acc'⟩) :
    VerifiedVerifies rt.altBn128 circuits acc' := by
  intro b hb hst
  rcases step_cases h with
    ⟨ctx, data, now, req, sp, pol, req', rfl, -, -, hcreate, rfl⟩ |
    ⟨ctx, data, now, a, req', rfl, rfl, hf, rfl⟩ |
    ⟨ctx, now, a, req', rfl, rfl, hf, rfl⟩ |
    ⟨authority, data, now, a, req', rfl, rfl, hf, rfl⟩ |
    ⟨authority, now, a, rfl, rfl, -, rfl⟩
  · obtain rfl := Option.some.inj hb
    obtain ⟨-, -, -, hpending, -⟩ := createProofRequest_ok hcreate
    rw [show req'.status = .pending from hpending] at hst
    exact nomatch hst
  · obtain rfl := Option.some.inj hb
    obtain ⟨-, -, -, hcase⟩ := proveProofRequest_ok hf
    rcases hcase with ⟨hnone, rfl⟩ | ⟨proof, -, haccept⟩
    · cases hreset : data.reset with
      | true =>
          simp only at hst
          rw [receiveInputs_reset hreset] at hst
          exact nomatch hst
      | false =>
          simp only at hst ⊢
          rw [receiveInputs_append hreset] at hst ⊢
          -- the status is the one before, so the chunk is empty
          have hempty : data.publicInputs = [] := by
            by_contra hne
            exact hchunk ⟨hnone, hreset, hne, hst⟩
          obtain ⟨proof, hproof, hrun⟩ := ih a rfl hst
          refine ⟨proof, hproof, ?_⟩
          rw [hempty, List.append_nil]
          exact hrun
    · obtain ⟨_, -, -, -, -, hproved, -⟩ := acceptProof_ok haccept
      simp only [hproved] at hst
      exact nomatch hst
  · obtain rfl := Option.some.inj hb
    obtain ⟨hcirc, ⟨proof, hproof, hrun⟩, rfl⟩ := verifyProofRequest_ok hf
    refine ⟨proof, hproof, ?_⟩
    have hdata : ctx.circuit.data = circuits ctx.circuit.key := hc
    show runVerifier rt.altBn128 (circuits a.request.circuit).vk proof
      a.request.publicInputs = .ok ()
    rw [hcirc, ← hdata]
    exact hrun
  · exact hc.elim
  · exact nomatch hb

/-- A chunk spoils what was verified. -/
theorem not_verifiedVerifies_of_chunk {rt : Runtime} {seeds : ProofRequestSeeds}
    {circuits : Pubkey → Circuit} {acc acc' : Option ProofRequestAccount} {c : Call}
    (ih : VerifiedVerifies rt.altBn128 circuits acc) (h : step rt seeds acc c = .ok acc')
    (hchunk : ChunkAfterVerified ⟨acc, c, acc'⟩) :
    ¬ VerifiedVerifies rt.altBn128 circuits acc' := by
  intro hpost
  obtain ⟨ctx, data, now, a, rfl, rfl, hnone, hreset, hne, hst⟩ := hchunk.inv
  have hon : onAccount (some a) (proveProofRequest ctx data now) = .ok acc' := h
  obtain ⟨a', req', ha, hf, rfl⟩ := onAccount_ok hon
  obtain rfl := Option.some.inj ha
  obtain ⟨-, -, -, hcase⟩ := proveProofRequest_ok hf
  rcases hcase with ⟨-, rfl⟩ | ⟨proof, hsome, -⟩
  · obtain ⟨proof, -, hrun⟩ := ih a rfl hst
    have hstat : (receiveInputs data a.request).status = .verified := by
      rw [receiveInputs_append hreset]
      exact hst
    obtain ⟨proof', -, hrun'⟩ := hpost _ rfl hstat
    rw [receiveInputs_append hreset] at hrun'
    have hlen := runVerifier_length hrun
    have hlen' : (a.request.publicInputs ++ data.publicInputs).length + 1
        = (circuits a.request.circuit).vk.ic.length := runVerifier_length hrun'
    rw [List.length_append] at hlen'
    have hpos : 0 < data.publicInputs.length := List.length_pos_iff.mpr hne
    omega
  · rw [hnone] at hsome
    exact nomatch hsome

/-- **VERIFIED DATA VERIFIES AS LONG AS NO CHUNK IS SENT.**  In every run with the
    circuit accounts unchanged: a verified request stores data that the verifier
    accepts, in every state, if and only if no call of the run sends a verified
    request a chunk of inputs. -/
theorem verified_verifies_iff (rt : Runtime) (seeds : ProofRequestSeeds)
    (circuits : Pubkey → Circuit) (h : History) (s : Option ProofRequestAccount)
    (r : Run (step rt seeds) none h s) (hcalls : ∀ t ∈ h, t.call.UnderCircuits circuits) :
    (∀ t ∈ h, VerifiedVerifies rt.altBn128 circuits t.post) ↔
      ∀ t ∈ h, ¬ ChunkAfterVerified t := by
  have hnone : VerifiedVerifies rt.altBn128 circuits none := by
    intro a ha
    exact nomatch ha
  constructor
  · intro hall t ht hchunk
    obtain ⟨later, earlier, hh⟩ := List.append_of_mem ht
    obtain ⟨r', hstep⟩ := r.split hh
    have hpre : VerifiedVerifies rt.altBn128 circuits t.pre := by
      refine r'.at_end hnone ?_
      intro t' ht'
      exact hall t' (hh ▸ List.mem_append_right later (List.mem_cons_of_mem _ ht'))
    exact not_verifiedVerifies_of_chunk hpre hstep hchunk (hall t ht)
  · intro hall
    refine r.forall_post
      (G := fun t => t.call.UnderCircuits circuits ∧ ¬ ChunkAfterVerified t)
      (P := VerifiedVerifies rt.altBn128 circuits) hnone ?_ ?_
    · intro acc c acc' ih hstep hG
      exact verifiedVerifies_of_step ih hstep hG.1 hG.2
    · intro t' ht'
      exact ⟨hcalls t' ht', hall t' ht'⟩

namespace ChunkSample

def circuit : Account Circuit := Sample.circuit [] 0

def circuits (_ : Pubkey) : Circuit := circuit.data

def verifiedCalls : List Call :=
  [Sample.create [],
    Sample.prove [] circuit none (some Sample.proof) [],
    Sample.verify circuit]

/-- One more input, after the verification. -/
def calls : List Call :=
  verifiedCalls ++ [Sample.prove [] circuit none none [Bytes.ofNum 32 5]]

theorem underCircuits_verifiedCalls : ∀ c ∈ verifiedCalls, c.UnderCircuits circuits := by
  intro c hc
  simp only [verifiedCalls, List.mem_cons, List.not_mem_nil, or_false] at hc
  rcases hc with rfl | rfl | rfl
  · exact trivial
  · exact trivial
  · rfl

theorem underCircuits_calls : ∀ c ∈ calls, c.UnderCircuits circuits := by
  intro c hc
  rcases List.mem_append.mp hc with h | h
  · exact underCircuits_verifiedCalls c h
  · obtain rfl := List.mem_singleton.mp h
    exact trivial

end ChunkSample

/-- Without the chunk the verified request verifies. -/
theorem verified_verifies_sample :
    (∃ a ∈ (exec (step Sample.runtime Sample.seeds) none ChunkSample.verifiedCalls).2,
      a.request.status = .verified) ∧
    ∀ t ∈ (exec (step Sample.runtime Sample.seeds) none ChunkSample.verifiedCalls).1,
      VerifiedVerifies .atInfinity ChunkSample.circuits t.post := by
  have hrun : (∃ a ∈ (exec (step Sample.runtime Sample.seeds) none
        ChunkSample.verifiedCalls).2, a.request.status = .verified) ∧
      ∀ t ∈ (exec (step Sample.runtime Sample.seeds) none ChunkSample.verifiedCalls).1,
        ¬ ChunkAfterVerified t := by
    decide +kernel
  refine ⟨hrun.1, ?_⟩
  exact (verified_verifies_iff Sample.runtime Sample.seeds ChunkSample.circuits _ _
    (run_exec _ none ChunkSample.verifiedCalls)
    (forall_exec ChunkSample.underCircuits_verifiedCalls)).mpr hrun.2

/-- **VERIFIED, AND NOT VERIFYING**: an input sent after the verification stays with
    a request that stays verified. -/
theorem verified_verifies_fails :
    ∃ (h : History) (s : Option ProofRequestAccount),
      Run (step Sample.runtime Sample.seeds) none h s ∧
      (∀ t ∈ h, t.call.UnderCircuits ChunkSample.circuits) ∧
      (∃ t ∈ h, t.call = Sample.verify ChunkSample.circuit) ∧
      ∃ t ∈ h, ¬ VerifiedVerifies Sample.runtime.altBn128 ChunkSample.circuits t.post := by
  have hcalls : ((exec (step Sample.runtime Sample.seeds) none
      ChunkSample.calls).1.map fun t => t.call) = ChunkSample.calls.reverse :=
    exec_calls (by decide +kernel)
  refine ⟨_, _, run_exec (step Sample.runtime Sample.seeds) none ChunkSample.calls,
    forall_exec ChunkSample.underCircuits_calls, ?_, by decide +kernel⟩
  refine List.mem_map.mp ?_
  rw [hcalls]
  exact List.mem_cons_of_mem _ List.mem_cons_self

end Albus.Program
