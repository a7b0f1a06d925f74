import Albus.Program.StoredProof

/-! # Policy rules and what was proved

    `apply_rules` runs only in the call that carries the proof, on the inputs
    present at that moment, and skips a slot that is not there yet.  A chunk that
    arrives later fills the slot with whatever the owner sent, and the status
    stays `Proved`.  So the rules bind a proved request exactly when every
    proof-carrying call finds all designated slots submitted and no rule spills
    over another one's slot. -/

namespace Albus.Program

open Albus.Lib

/-- `verify_proof_request`. -/
def Call.isVerify : Call → Bool
  | .verify _ _ => true
  | _ => false

theorem Call.isVerify_iff {c : Call} :
    c.isVerify = true ↔ ∃ ctx now, c = .verify ctx now := by
  constructor
  · intro h
    cases c with
    | verify ctx now => exact ⟨ctx, now, rfl⟩
    | _ => exact nomatch h
  · rintro ⟨ctx, now, rfl⟩
    rfl

/-- After the step `t`: if the request is proved, or `t` is the verification that
    sets it verified, every designated slot exists and holds its rule's value. -/
def BindsRules (signals : Signals) (rules : List PolicyRule)
    (t : Transition (Option ProofRequestAccount) Call) : Prop :=
  ∀ a, t.post = some a →
    (a.request.status = .proved ∨ t.call.isVerify) →
    Bound signals rules a.request.publicInputs

instance (signals : Signals) (rules : List PolicyRule)
    (t : Transition (Option ProofRequestAccount) Call) :
    Decidable (BindsRules signals rules t) :=
  inferInstanceAs (Decidable (∀ a ∈ t.post,
    (a.request.status = .proved ∨ t.call.isVerify) →
      Bound signals rules a.request.publicInputs))

/-- If `t` carries a proof, the inputs submitted up to and with it reach every
    designated slot, and no spill overwrites one. -/
def SubmitsDesignated (signals : Signals) (rules : List PolicyRule)
    (t : Transition (Option ProofRequestAccount) Call) : Prop :=
  match t.call, t.pre with
  | .prove _ data _, some a =>
      data.proof.isSome →
        Covers signals rules (receiveInputs data a.request).publicInputs.length ∧
          SpillFree signals rules
  | _, _ => True

instance (signals : Signals) (rules : List PolicyRule)
    (t : Transition (Option ProofRequestAccount) Call) :
    Decidable (SubmitsDesignated signals rules t) :=
  match t with
  | ⟨some a, .prove _ data _, _⟩ =>
      inferInstanceAs (Decidable (data.proof.isSome →
        Covers signals rules (receiveInputs data a.request).publicInputs.length ∧
          SpillFree signals rules))
  | ⟨none, .prove _ _ _, _⟩ => isTrue trivial
  | ⟨_, .create _ _ _, _⟩ => isTrue trivial
  | ⟨_, .verify _ _, _⟩ => isTrue trivial
  | ⟨_, .update _ _ _, _⟩ => isTrue trivial
  | ⟨_, .delete _ _, _⟩ => isTrue trivial

/-- The rules are the last writes of an accepted proof: they decide alone what
    the designated slots hold. -/
theorem bound_proveWrites_iff (signals : Signals)
    (issuer : Option (Account Issuer)) (rules : List PolicyRule)
    (inputs : List (Bytes 32)) :
    Bound signals rules (writeAll inputs (proveWrites signals issuer rules)) ↔
      Covers signals rules inputs.length ∧ SpillFree signals rules := by
  rw [proveWrites, writeAll_append, ← applyRules_eq_writeAll,
    bound_applyRules_iff, writeAll_length]

/-- A proved request stores a proof. -/
def ProvedStores (acc : Option ProofRequestAccount) : Prop :=
  ∀ a, acc = some a → a.request.status = .proved → a.request.proof.isSome

theorem provedStores_of_step {rt : Runtime} {seeds : ProofRequestSeeds}
    {acc acc' : Option ProofRequestAccount} {c : Call} (ih : ProvedStores acc)
    (h : step rt seeds acc c = .ok acc') : ProvedStores acc' := by
  intro b hb hst
  rcases step_cases h with
    ⟨ctx, data, now, req, sp, pol, req', -, -, -, hcreate, hacc'⟩ |
    ⟨ctx, data, now, a, req', -, hacc, hf, hacc'⟩ |
    ⟨ctx, now, a, req', -, -, hf, hacc'⟩ |
    ⟨authority, data, now, a, req', -, -, hf, hacc'⟩ |
    ⟨authority, now, a, -, -, -, hacc'⟩
  · rw [hacc'] at hb
    obtain rfl := Option.some.inj hb
    obtain ⟨-, -, -, hpending, -⟩ := createProofRequest_ok hcreate
    rw [hpending] at hst
    exact nomatch hst
  · rw [hacc'] at hb
    obtain rfl := Option.some.inj hb
    obtain ⟨-, -, -, hcase⟩ := proveProofRequest_ok hf
    rcases hcase with ⟨-, rfl⟩ | ⟨proof, -, haccept⟩
    · cases hreset : data.reset with
      | true =>
          simp only at hst
          rw [receiveInputs_reset hreset] at hst
          exact nomatch hst
      | false =>
          simp only at hst ⊢
          rw [receiveInputs_append hreset] at hst ⊢
          exact ih a hacc hst
    · obtain ⟨_, -, -, -, -, -, -, hpr, -⟩ := acceptProof_ok haccept
      simp only
      rw [hpr]
      rfl
  · rw [hacc'] at hb
    obtain rfl := Option.some.inj hb
    obtain ⟨-, -, rfl⟩ := verifyProofRequest_ok hf
    exact nomatch hst
  · rw [hacc'] at hb
    obtain rfl := Option.some.inj hb
    obtain ⟨hor, rfl⟩ := updateProofRequest_ok hf
    simp only at hst
    rcases hor with hv | hv <;> rw [hv] at hst <;> exact nomatch hst
  · rw [hacc'] at hb
    exact nomatch hb

theorem provedStores_run {rt : Runtime} {seeds : ProofRequestSeeds}
    {h : History} {s : Option ProofRequestAccount}
    (r : Run (step rt seeds) none h s) : ProvedStores s := by
  refine r.preserves (P := ProvedStores) ?_ ?_
  · intro a ha
    exact nomatch ha
  · intro acc c acc' ih hstep
    exact provedStores_of_step ih hstep

/-- After a successful `verify` the request still stores the proof that was verified. -/
theorem proof_isSome_of_verify {rt : Runtime} {seeds : ProofRequestSeeds}
    {t : Transition (Option ProofRequestAccount) Call} {a : ProofRequestAccount}
    (hstep : step rt seeds t.pre t.call = .ok t.post) (hverify : t.call.isVerify = true)
    (hpost : t.post = some a) : a.request.proof.isSome := by
  obtain ⟨ctx, now, hcall⟩ := Call.isVerify_iff.mp hverify
  rw [hcall] at hstep
  obtain ⟨a', req', -, hf, hpost'⟩ := onAccount_ok hstep
  obtain ⟨-, ⟨proof, hsome, -⟩, rfl⟩ := verifyProofRequest_ok hf
  rw [hpost] at hpost'
  obtain rfl := Option.some.inj hpost'
  show a'.request.proof.isSome
  rw [hsome]
  rfl

/-- A proof-carrying step leaves the slots bound exactly when every one of them was
    submitted, with no spill over them. -/
theorem bound_iff_of_accepted {rt : Runtime} {circuit : Account Circuit}
    {policy : Account Policy} {owner : Pubkey}
    (hcirc : policy.data.circuit = circuit.key) {signals signals' : Signals}
    (hsig : circuit.data.signals = some signals) {h later earlier : History}
    {s : Option ProofRequestAccount} (r : Run (step rt ⟨policy.key, owner⟩) none h s)
    (hcalls : ∀ t ∈ h, t.call.Unchanged circuit policy)
    {t : Transition (Option ProofRequestAccount) Call} (hh : h = later ++ t :: earlier)
    {ctx : ProveProofRequest} {data : ProveProofRequestData} {now : Int}
    {before b : ProofRequestAccount} (hcall : t.call = .prove ctx data now)
    (hpre : t.pre = some before)
    (hacc : AcceptedProof ctx data now before.request b.request signals') :
    Bound signals policy.data.rules b.request.publicInputs ↔
      Covers signals policy.data.rules
          (receiveInputs data before.request).publicInputs.length ∧
        SpillFree signals policy.data.rules := by
  obtain ⟨hrules, hsig'⟩ := accepted_under hcirc r hcalls hh hcall hpre hacc
  rw [hsig] at hsig'
  obtain rfl := Option.some.inj hsig'
  rw [hacc.inputs, hrules]
  exact bound_proveWrites_iff _ _ _ _

/-- **RULES BIND WHAT WAS PROVED, EXACTLY WHEN …**  In every run with policy and
    circuit unchanged: the designated slots hold the rules' values whenever the
    request is proved or set verified, if and only if every proof-carrying call
    of the run found all of them submitted, with no spill over them. -/
theorem rules_bind_iff (rt : Runtime) (circuit : Account Circuit)
    (policy : Account Policy) (owner : Pubkey)
    (hcirc : policy.data.circuit = circuit.key) (signals : Signals)
    (hsig : circuit.data.signals = some signals) (h : History)
    (s : Option ProofRequestAccount)
    (r : Run (step rt ⟨policy.key, owner⟩) none h s)
    (hcalls : ∀ t ∈ h, t.call.Unchanged circuit policy) :
    (∀ t ∈ h, BindsRules signals policy.data.rules t) ↔
      ∀ t ∈ h, SubmitsDesignated signals policy.data.rules t := by
  constructor
  · -- a proof-carrying step leaves the request proved
    intro hbinds t ht
    rw [SubmitsDesignated]
    split
    case h_2 => trivial
    case h_1 ctx data now a hcall hpre =>
    intro hsome
    obtain ⟨later, earlier, hh⟩ := List.append_of_mem ht
    have hstep := r.step_of_mem ht
    rw [hcall] at hstep
    obtain ⟨before, b, signals', hbefore, hb, -, hacc⟩ :=
      acceptedProof_of_step hstep hsome
    rw [hpre] at hbefore
    obtain rfl := Option.some.inj hbefore
    exact (bound_iff_of_accepted hcirc hsig r hcalls hh hcall hpre hacc).mp
      (hbinds t ht b hb (Or.inl hacc.status))
  · -- the stored proof is the latest one; its call bound the slots, and later
    -- chunks only append
    intro hsub t ht a hpost hcase
    obtain ⟨later, earlier, hh⟩ := List.append_of_mem ht
    obtain ⟨r', hstep⟩ := r.split hh
    have rt' : Run (step rt ⟨policy.key, owner⟩) none (t :: earlier) t.post :=
      Run.step r' hstep
    have hproof : a.request.proof.isSome := by
      rcases hcase with hst | hverify
      · exact provedStores_run rt' a hpost hst
      · exact proof_isSome_of_verify hstep hverify hpost
    obtain ⟨u, before', b, ⟨mid, hmid, hcar, -⟩, hb, -, -, hprefix⟩ :=
      storedProof_latest rt' a hpost hproof
    have hh' : h = (later ++ mid) ++ u :: before' := by
      rw [hh, List.append_assoc, ← hmid]
    obtain ⟨ctx, data, now, hcall, hsome⟩ := hcar
    have hustep := (r.split hh').2
    rw [hcall] at hustep
    obtain ⟨before, b', signals', hbefore, hb', -, hacc⟩ :=
      acceptedProof_of_step hustep hsome
    rw [hb] at hb'
    obtain rfl := Option.some.inj hb'
    have humem : u ∈ h := hh' ▸ List.mem_append_right _ List.mem_cons_self
    have hmeets := hsub u humem
    rw [SubmitsDesignated] at hmeets
    rw [hcall, hbefore] at hmeets
    have hbound := (bound_iff_of_accepted hcirc hsig r hcalls hh' hcall hbefore hacc).mpr
      (hmeets hsome)
    obtain ⟨more, hmore⟩ := hprefix
    rw [← hmore]
    exact hbound.append more

/-! ### The late chunk -/

namespace LateChunk

/-- A layout of one timestamp and one policy signal. -/
def circuit : Account Circuit := Sample.circuit ["timestamp", "minAge"] 2

def signals : Signals :=
  { data := [("minAge", ⟨1, 1⟩), ("timestamp", ⟨0, 1⟩)], count := 2 }

/-- `minAge` must be 18. -/
def rules : List PolicyRule := [⟨"minAge", Bytes.ofNum 32 18⟩]

def timestamp : Bytes 32 := Bytes.ofNum 32 1700000000

/-- The proof comes with the timestamp only; `minAge = 5` follows in a chunk. -/
def calls : List Call :=
  [Sample.create rules,
    Sample.prove rules circuit none (some Sample.proof) [timestamp],
    Sample.prove rules circuit none none [Bytes.ofNum 32 5]]

/-- The same inputs, all before the proof. -/
def honestCalls : List Call :=
  [Sample.create rules,
    Sample.prove rules circuit none none [timestamp],
    Sample.prove rules circuit none (some Sample.proof) [Bytes.ofNum 32 5]]

theorem unchanged_calls :
    ∀ c ∈ calls, c.Unchanged circuit (Sample.policy rules) := by
  simp only [calls, List.forall_mem_cons, Sample.unchanged_create, Sample.unchanged_prove,
    List.not_mem_nil, false_imp_iff, implies_true, and_self]

theorem unchanged_honestCalls :
    ∀ c ∈ honestCalls, c.Unchanged circuit (Sample.policy rules) := by
  simp only [honestCalls, List.forall_mem_cons, Sample.unchanged_create,
    Sample.unchanged_prove, List.not_mem_nil, false_imp_iff, implies_true, and_self]

end LateChunk

/-- With all inputs submitted before the proof, the proved request is bound. -/
theorem rules_bind_honest :
    (∃ t ∈ (exec (step Sample.runtime Sample.seeds) none LateChunk.honestCalls).1,
      ∃ a ∈ t.post, a.request.status = .proved) ∧
    ∀ t ∈ (exec (step Sample.runtime Sample.seeds) none LateChunk.honestCalls).1,
      BindsRules LateChunk.signals LateChunk.rules t := by
  constructor
  · decide +kernel
  · exact (rules_bind_iff Sample.runtime LateChunk.circuit (Sample.policy LateChunk.rules)
      Sample.owner rfl LateChunk.signals (by decide) _ _
      (run_exec (step Sample.runtime Sample.seeds) none LateChunk.honestCalls)
      (forall_exec LateChunk.unchanged_honestCalls)).mpr (by decide +kernel)

/-- **THE RULES DO NOT BIND**: the rule says 18, the proved request says 5. -/
theorem rules_bind_fails :
    ∃ (h : History) (s : Option ProofRequestAccount),
      Run (step Sample.runtime ⟨(Sample.policy LateChunk.rules).key,
        Sample.owner⟩) none h s ∧
      (∀ t ∈ h, t.call.Unchanged LateChunk.circuit
        (Sample.policy LateChunk.rules)) ∧
      LateChunk.circuit.data.signals = some LateChunk.signals ∧
      ∃ t ∈ h, ¬ BindsRules LateChunk.signals LateChunk.rules t ∧
        ∃ a, t.post = some a ∧ a.request.status = .proved ∧
          (1, Bytes.ofNum 32 18) ∈ designated LateChunk.signals LateChunk.rules ∧
          a.request.publicInputs[1]? = some (Bytes.ofNum 32 5) := by
  refine ⟨_, _, run_exec (step Sample.runtime Sample.seeds) none LateChunk.calls,
    forall_exec LateChunk.unchanged_calls, by decide, ?_⟩
  decide +kernel

end Albus.Program
