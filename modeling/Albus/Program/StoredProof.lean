import Albus.Program.ProofRequest

/-! # Where a stored proof comes from

    Histories of a request account.  The one fact behind every law about a
    verified request: a stored proof was stored by the LATEST call that carried
    one, and since then the public inputs have only grown at the end and the
    issuer field has not moved (`storedProof_latest`).  Neither the status nor the
    time of proving says as much: `create_proof_request` resets both and keeps
    the proof. -/

namespace Albus.Program

open Albus.Lib

/-- A history of a request account, latest transaction first. -/
abbrev History := List (Transition (Option ProofRequestAccount) Call)

/-- A `prove_proof_request` with `proof = Some(..)`. -/
def Call.CarriesProof (c : Call) : Prop :=
  ∃ ctx data now, c = .prove ctx data now ∧ data.proof.isSome

@[simp] theorem carriesProof_prove (ctx : ProveProofRequest)
    (data : ProveProofRequestData) (now : Int) :
    (Call.prove ctx data now).CarriesProof ↔ data.proof.isSome := by
  constructor
  · rintro ⟨_, _, _, heq, h⟩
    cases heq
    exact h
  · intro h
    exact ⟨ctx, data, now, rfl, h⟩

@[simp] theorem not_carriesProof_create (ctx : CreateProofRequest)
    (data : CreateProofRequestData) (now : Int) :
    ¬ (Call.create ctx data now).CarriesProof := by
  rintro ⟨_, _, _, heq, -⟩
  exact nomatch heq

@[simp] theorem not_carriesProof_verify (ctx : VerifyProofRequest) (now : Int) :
    ¬ (Call.verify ctx now).CarriesProof := by
  rintro ⟨_, _, _, heq, -⟩
  exact nomatch heq

@[simp] theorem not_carriesProof_update (authority : Pubkey)
    (data : UpdateProofRequestData) (now : Int) :
    ¬ (Call.update authority data now).CarriesProof := by
  rintro ⟨_, _, _, heq, -⟩
  exact nomatch heq

@[simp] theorem not_carriesProof_delete (authority : Pubkey) (now : Int) :
    ¬ (Call.delete authority now).CarriesProof := by
  rintro ⟨_, _, _, heq, -⟩
  exact nomatch heq

instance : (c : Call) → Decidable c.CarriesProof
  | .prove ctx data now =>
      decidable_of_iff (data.proof.isSome = true)
        (carriesProof_prove ctx data now).symm
  | .create _ _ _ => isFalse (not_carriesProof_create _ _ _)
  | .verify _ _ => isFalse (not_carriesProof_verify _ _)
  | .update _ _ _ => isFalse (not_carriesProof_update _ _ _)
  | .delete _ _ => isFalse (not_carriesProof_delete _ _)

/-- `t` is the latest call of the history that carried a proof, and `earlier`
    is what came before it. -/
def LatestProof (h : History)
    (t : Transition (Option ProofRequestAccount) Call) (earlier : History) : Prop :=
  ∃ later, h = later ++ t :: earlier ∧ t.call.CarriesProof ∧
    ∀ t' ∈ later, ¬ t'.call.CarriesProof

theorem LatestProof.head {h : History}
    {t : Transition (Option ProofRequestAccount) Call}
    (ht : t.call.CarriesProof) : LatestProof (t :: h) t h :=
  ⟨[], rfl, ht, fun _ ht' => nomatch ht'⟩

theorem LatestProof.mem {h earlier : History}
    {t : Transition (Option ProofRequestAccount) Call}
    (hl : LatestProof h t earlier) : t ∈ h := by
  obtain ⟨later, rfl, -⟩ := hl
  exact List.mem_append_right later List.mem_cons_self

theorem LatestProof.cons {h earlier : History}
    {t t' : Transition (Option ProofRequestAccount) Call}
    (hl : LatestProof h t earlier) (ht' : ¬ t'.call.CarriesProof) :
    LatestProof (t' :: h) t earlier := by
  obtain ⟨later, rfl, ht, hlater⟩ := hl
  refine ⟨t' :: later, rfl, ht, ?_⟩
  intro u hu
  rcases List.mem_cons.mp hu with heq | hmem
  · exact heq ▸ ht'
  · exact hlater u hmem

/-- The proof-carrying calls of a history have one latest. -/
theorem LatestProof.unique {h earlier earlier' : History}
    {t t' : Transition (Option ProofRequestAccount) Call}
    (hl : LatestProof h t earlier) (hl' : LatestProof h t' earlier') :
    t = t' ∧ earlier = earlier' := by
  obtain ⟨later, rfl, ht, hlater⟩ := hl
  obtain ⟨later', heq, ht', hlater'⟩ := hl'
  induction later generalizing later' with
  | nil =>
      cases later' with
      | nil => exact List.cons.inj heq
      | cons u later' =>
          obtain ⟨rfl, -⟩ := List.cons.inj heq
          exact absurd ht (hlater' t List.mem_cons_self)
  | cons u later ih =>
      cases later' with
      | nil =>
          obtain ⟨rfl, -⟩ := List.cons.inj heq
          exact absurd ht' (hlater u List.mem_cons_self)
      | cons u' later' =>
          obtain ⟨-, heq⟩ := List.cons.inj heq
          exact ih (fun v hv => hlater v (List.mem_cons_of_mem _ hv)) later' heq
            (fun v hv => hlater' v (List.mem_cons_of_mem _ hv))

/-- A run's latest proof-carrying call was a step of the run. -/
theorem LatestProof.step {rt : Runtime} {seeds : ProofRequestSeeds}
    {h earlier : History} {s s₀ : Option ProofRequestAccount}
    {t : Transition (Option ProofRequestAccount) Call}
    (r : Run (step rt seeds) s₀ h s) (hl : LatestProof h t earlier) :
    Run (Program.step rt seeds) s₀ earlier t.pre ∧
      Program.step rt seeds t.pre t.call = .ok t.post := by
  obtain ⟨later, hh, -, -⟩ := hl
  exact r.split hh

/-- **A PROOF-CARRYING CALL, INVERTED**: the request before and after it, the
    layout, and the checks it passed on the inputs as submitted. -/
structure AcceptedProof (ctx : ProveProofRequest) (data : ProveProofRequestData)
    (now : Int) (before after : ProofRequest) (signals : Signals) : Prop where
  circuit : before.circuit = ctx.circuit.key
  policy : before.policy = ctx.policy.key
  owner : before.owner = ctx.authority
  layout : ctx.circuit.data.signals = some signals
  checked : ProofChecked signals ctx.issuer
    (receiveInputs data before).publicInputs now
  issuer : ∀ s, signals.get issuerPkSignal = some s →
    ∃ iss, ctx.issuer = some iss ∧ after.issuer = iss.key
  inputs : after.publicInputs =
    writeAll (receiveInputs data before).publicInputs
      (proveWrites signals ctx.issuer ctx.policy.data.rules)
  status : after.status = .proved
  provedAt : after.provedAt = now
  proof : after.proof = data.proof

theorem acceptedProof_of_step {rt : Runtime} {seeds : ProofRequestSeeds}
    {acc acc' : Option ProofRequestAccount} {ctx : ProveProofRequest}
    {data : ProveProofRequestData} {now : Int}
    (h : step rt seeds acc (.prove ctx data now) = .ok acc')
    (hp : data.proof.isSome) :
    ∃ a b signals, acc = some a ∧ acc' = some b ∧ b.space = a.space ∧
      AcceptedProof ctx data now a.request b.request signals := by
  obtain ⟨a, req', hacc, hf, hacc'⟩ := onAccount_ok h
  obtain ⟨hc, hpol, ho, hcase⟩ := proveProofRequest_ok hf
  rcases hcase with ⟨hnone, -⟩ | ⟨proof, hsome, haccept⟩
  · rw [hnone] at hp
    exact nomatch hp
  · obtain ⟨signals, hsig, hchk, hiss, hin, hst, hat, hpr, -, -, -⟩ :=
      acceptProof_ok haccept
    exact ⟨a, ⟨a.space, req'⟩, signals, hacc, hacc', rfl,
      ⟨hc, hpol, ho, hsig, hchk, hiss, hin, hst, hat, hpr.trans hsome.symm⟩⟩

/-- **WHAT A CALL WITHOUT A PROOF LEAVES**: if a proof is stored after such a
    call, it was stored before, the issuer is the same, and the inputs before are
    a prefix of the inputs after. -/
theorem kept_of_step {rt : Runtime} {seeds : ProofRequestSeeds}
    {acc acc' : Option ProofRequestAccount} {c : Call}
    (h : step rt seeds acc c = .ok acc') (hc : ¬ c.CarriesProof)
    {b : ProofRequestAccount} (hb : acc' = some b)
    (hproof : b.request.proof.isSome) :
    ∃ a, acc = some a ∧ a.request.proof = b.request.proof ∧
      a.request.issuer = b.request.issuer ∧
      a.request.publicInputs <+: b.request.publicInputs := by
  rcases step_cases h with
    ⟨ctx, data, now, req, sp, pol, req', -, -, hinit, hcreate, hacc'⟩ |
    ⟨ctx, data, now, a, req', rfl, hacc, hf, hacc'⟩ |
    ⟨ctx, now, a, req', -, hacc, hf, hacc'⟩ |
    ⟨authority, data, now, a, req', -, hacc, hf, hacc'⟩ |
    ⟨authority, now, a, -, -, -, hacc'⟩
  · -- creation: the proof is the one the account already held
    rw [hacc'] at hb
    obtain rfl := Option.some.inj hb
    obtain ⟨-, -, -, -, -, hpr, hin, hiss⟩ := createProofRequest_ok hcreate
    simp only at hproof ⊢
    rcases hinit with ⟨-, rfl⟩ | ⟨a, hacc, rfl⟩
    · rw [hpr] at hproof
      exact nomatch hproof
    · exact ⟨a, hacc, hpr.symm, hiss.symm, hin ▸ List.prefix_rfl⟩
  · -- a chunk or a reset
    rw [hacc'] at hb
    obtain rfl := Option.some.inj hb
    obtain ⟨-, -, -, hcase⟩ := proveProofRequest_ok hf
    rcases hcase with ⟨-, rfl⟩ | ⟨proof, hsome, -⟩
    · cases hreset : data.reset with
      | true =>
          simp only at hproof
          rw [receiveInputs_reset hreset] at hproof
          exact nomatch hproof
      | false =>
          refine ⟨a, hacc, ?_⟩
          show a.request.proof = (receiveInputs data a.request).proof ∧
            a.request.issuer = (receiveInputs data a.request).issuer ∧
            a.request.publicInputs <+: (receiveInputs data a.request).publicInputs
          rw [receiveInputs_append hreset]
          exact ⟨rfl, rfl, List.prefix_append _ _⟩
    · exact absurd ⟨ctx, data, now, rfl, by rw [hsome]; rfl⟩ hc
  · -- verification
    rw [hacc'] at hb
    obtain rfl := Option.some.inj hb
    obtain ⟨-, -, rfl⟩ := verifyProofRequest_ok hf
    exact ⟨a, hacc, rfl, rfl, List.prefix_rfl⟩
  · -- status update
    rw [hacc'] at hb
    obtain rfl := Option.some.inj hb
    obtain ⟨-, rfl⟩ := updateProofRequest_ok hf
    exact ⟨a, hacc, rfl, rfl, List.prefix_rfl⟩
  · -- close
    rw [hacc'] at hb
    exact nomatch hb

/-- The account holds a proof that `h`'s latest proof-carrying call left, with
    its issuer, its proof, and its inputs as a prefix. -/
def ProofTraced (h : History) (acc : Option ProofRequestAccount) : Prop :=
  ∀ a, acc = some a → a.request.proof.isSome →
    ∃ t earlier b, LatestProof h t earlier ∧ t.post = some b ∧
      b.request.proof = a.request.proof ∧
      b.request.issuer = a.request.issuer ∧
      b.request.publicInputs <+: a.request.publicInputs

/-- **THE STORED PROOF IS THE LATEST ONE**, in every run from a missing
    account. -/
theorem storedProof_latest {rt : Runtime} {seeds : ProofRequestSeeds}
    {h : History} {s : Option ProofRequestAccount}
    (r : Run (step rt seeds) none h s) : ProofTraced h s := by
  refine r.always (I := ProofTraced) ?_ ?_
  · intro a ha
    exact nomatch ha
  · intro h acc c acc' ih hstep b hb hproof
    by_cases hc : c.CarriesProof
    · exact ⟨⟨acc, c, acc'⟩, h, b, LatestProof.head hc, hb, rfl, rfl,
        List.prefix_rfl⟩
    · obtain ⟨a, ha, hpr, hiss, hin⟩ := kept_of_step hstep hc hb hproof
      obtain ⟨t, earlier, b', hl, hpost, h1, h2, h3⟩ :=
        ih a ha (by rw [hpr]; exact hproof)
      exact ⟨t, earlier, b', hl.cons hc, hpost, h1.trans hpr, h2.trans hiss,
        h3.trans hin⟩

/-- A verification step, inverted together with the call its proof came from. -/
theorem verify_traced {rt : Runtime} {seeds : ProofRequestSeeds}
    {h : History} {s : Option ProofRequestAccount}
    (r : Run (step rt seeds) none h s) {later earlier : History}
    {pre post : Option ProofRequestAccount} {vctx : VerifyProofRequest}
    {vnow : Int} (hh : h = later ++ ⟨pre, .verify vctx vnow, post⟩ :: earlier) :
    ∃ a t earlier' pctx data now before b signals,
      pre = some a ∧ LatestProof earlier t earlier' ∧
      t.call = .prove pctx data now ∧ t.pre = some before ∧ t.post = some b ∧
      AcceptedProof pctx data now before.request b.request signals ∧
      b.request.issuer = a.request.issuer ∧
      b.request.publicInputs <+: a.request.publicInputs ∧
      post = some ⟨a.space,
        { a.request with status := .verified, verifiedAt := vnow }⟩ := by
  obtain ⟨r', hstep⟩ := r.split hh
  obtain ⟨a, req', hpre, hf, hpost⟩ := onAccount_ok hstep
  obtain ⟨-, ⟨proof, hproof, -⟩, rfl⟩ := verifyProofRequest_ok hf
  obtain ⟨t, earlier', b, hl, hb, -, hiss, hin⟩ :=
    storedProof_latest r' a hpre (by rw [hproof]; rfl)
  obtain ⟨-, htstep⟩ := hl.step r'
  obtain ⟨-, -, ⟨pctx, data, now, hcall, hsome⟩, -⟩ := id hl
  rw [hcall] at htstep
  obtain ⟨before, b', signals, hbefore, hb', -, hacc⟩ :=
    acceptedProof_of_step htstep hsome
  rw [hb] at hb'
  obtain rfl := Option.some.inj hb'
  exact ⟨a, t, earlier', pctx, data, now, before, b, signals, hpre, hl, hcall,
    hbefore, hb, hacc, hiss, hin, hpost⟩

/-- A slot of a prefix keeps its value. -/
theorem getElem?_of_prefix {α : Type} {xs ys : List α} (h : xs <+: ys) {i : Nat}
    {x : α} (hx : xs[i]? = some x) : ys[i]? = some x := by
  obtain ⟨zs, rfl⟩ := h
  rw [List.getElem?_append_left (List.getElem?_eq_some_iff.mp hx).1]
  exact hx

/-! ## Policy and circuit unchanged -/

/-- The same policy, its request counter apart. -/
def Policy.SameAs (p q : Policy) : Prop :=
  q = { p with proofRequestCount := q.proofRequestCount }

theorem Policy.SameAs.circuit {p q : Policy} (h : p.SameAs q) :
    q.circuit = p.circuit := by
  have h' : q = { p with proofRequestCount := q.proofRequestCount } := h
  rw [h']

theorem Policy.SameAs.rules {p q : Policy} (h : p.SameAs q) :
    q.rules = p.rules := by
  have h' : q = { p with proofRequestCount := q.proofRequestCount } := h
  rw [h']

/-- Whatever a call is given at the addresses of `circuit` and `policy` is what
    they hold: the two accounts stay as they are over a run. -/
def Call.Unchanged (circuit : Account Circuit) (policy : Account Policy) :
    Call → Prop
  | .create ctx _ _ =>
      ctx.policy.key = policy.key → policy.data.SameAs ctx.policy.data
  | .prove ctx _ _ =>
      (ctx.policy.key = policy.key → policy.data.SameAs ctx.policy.data) ∧
      (ctx.circuit.key = circuit.key → ctx.circuit.data = circuit.data)
  | .verify ctx _ =>
      ctx.circuit.key = circuit.key → ctx.circuit.data = circuit.data
  | .update _ _ _ => True
  | .delete _ _ => True

instance (circuit : Account Circuit) (policy : Account Policy) (c : Call) :
    Decidable (c.Unchanged circuit policy) := by
  cases c <;> unfold Call.Unchanged Policy.SameAs <;> infer_instance

namespace Sample

/-- The calls of the deployment bring its policy and its circuit as they are. -/
theorem unchanged_create (circuit : Account Circuit) (rules : List PolicyRule) :
    (create rules).Unchanged circuit (policy rules) :=
  fun _ => rfl

theorem unchanged_prove (rules : List PolicyRule) (circuit : Account Circuit)
    (issuer : Option (Account Issuer)) (proof : Option ProofData)
    (publicInputs : List (Bytes 32)) :
    (prove rules circuit issuer proof publicInputs).Unchanged circuit (policy rules) :=
  ⟨fun _ => rfl, fun _ => rfl⟩

theorem unchanged_verify (rules : List PolicyRule) (circuit : Account Circuit) :
    (verify circuit).Unchanged circuit (policy rules) :=
  fun _ => rfl

end Sample

/-- The request names the policy and the circuit it was created under. -/
def Pinned (circuit : Account Circuit) (policy : Account Policy)
    (acc : Option ProofRequestAccount) : Prop :=
  ∀ a, acc = some a →
    a.request.policy = policy.key ∧ a.request.circuit = circuit.key

theorem pinned_of_step {rt : Runtime} {circuit : Account Circuit}
    {policy : Account Policy} {owner : Pubkey}
    (hcirc : policy.data.circuit = circuit.key)
    {acc acc' : Option ProofRequestAccount} {c : Call}
    (ih : Pinned circuit policy acc)
    (h : step rt ⟨policy.key, owner⟩ acc c = .ok acc')
    (hc : c.Unchanged circuit policy) : Pinned circuit policy acc' := by
  intro b hb
  rcases step_cases h with
    ⟨ctx, data, now, req, sp, pol, req', rfl, hseeds, -, hcreate, hacc'⟩ |
    ⟨ctx, data, now, a, req', -, hacc, hf, hacc'⟩ |
    ⟨ctx, now, a, req', -, hacc, hf, hacc'⟩ |
    ⟨authority, data, now, a, req', -, hacc, hf, hacc'⟩ |
    ⟨authority, now, a, -, -, -, hacc'⟩
  · rw [hacc'] at hb
    obtain rfl := Option.some.inj hb
    obtain ⟨hpol, hcir, -⟩ := createProofRequest_ok hcreate
    have hkey : ctx.policy.key = policy.key :=
      (congrArg ProofRequestSeeds.policy hseeds).symm
    have hsame : ctx.policy.data.circuit = policy.data.circuit :=
      (hc hkey).circuit
    exact ⟨hpol.trans hkey, hcir.trans (hsame.trans hcirc)⟩
  · rw [hacc'] at hb
    obtain rfl := Option.some.inj hb
    obtain ⟨-, -, -, hcase⟩ := proveProofRequest_ok hf
    rcases hcase with ⟨-, rfl⟩ | ⟨proof, -, haccept⟩
    · simpa using ih a hacc
    · obtain ⟨_, -, -, -, -, -, -, -, hpol, hcir, -⟩ := acceptProof_ok haccept
      simp only [receiveInputs_policy, receiveInputs_circuit] at hpol hcir
      exact ⟨hpol.trans (ih a hacc).1, hcir.trans (ih a hacc).2⟩
  · rw [hacc'] at hb
    obtain rfl := Option.some.inj hb
    obtain ⟨-, -, rfl⟩ := verifyProofRequest_ok hf
    exact ih a hacc
  · rw [hacc'] at hb
    obtain rfl := Option.some.inj hb
    obtain ⟨-, rfl⟩ := updateProofRequest_ok hf
    exact ih a hacc
  · rw [hacc'] at hb
    exact nomatch hb

/-- A run that leaves policy and circuit unchanged keeps the request pinned. -/
theorem pinned_run {rt : Runtime} {circuit : Account Circuit}
    {policy : Account Policy} {owner : Pubkey}
    (hcirc : policy.data.circuit = circuit.key) {h : History}
    {s : Option ProofRequestAccount}
    (r : Run (step rt ⟨policy.key, owner⟩) none h s)
    (hcalls : ∀ t ∈ h, t.call.Unchanged circuit policy) :
    Pinned circuit policy s := by
  refine r.invariant (G := fun t => t.call.Unchanged circuit policy)
    (I := fun _ acc => Pinned circuit policy acc) ?_ ?_ hcalls
  · intro a ha
    exact nomatch ha
  · intro h acc c acc' ih hstep hc
    exact pinned_of_step hcirc ih hstep hc

/-- In such a run every accepted proof was accepted under this policy's rules and
    this circuit's layout. -/
theorem accepted_under {rt : Runtime} {circuit : Account Circuit}
    {policy : Account Policy} {owner : Pubkey}
    (hcirc : policy.data.circuit = circuit.key) {h : History}
    {s : Option ProofRequestAccount}
    (r : Run (step rt ⟨policy.key, owner⟩) none h s)
    (hcalls : ∀ t ∈ h, t.call.Unchanged circuit policy) {later earlier : History}
    {t : Transition (Option ProofRequestAccount) Call}
    (hh : h = later ++ t :: earlier) {ctx : ProveProofRequest}
    {data : ProveProofRequestData} {now : Int}
    (hcall : t.call = .prove ctx data now) {before : ProofRequestAccount}
    (hbefore : t.pre = some before) {after : ProofRequest} {signals : Signals}
    (hacc : AcceptedProof ctx data now before.request after signals) :
    ctx.policy.data.rules = policy.data.rules ∧
      circuit.data.signals = some signals := by
  obtain ⟨r', -⟩ := r.split hh
  have hcalls' : ∀ t' ∈ earlier, t'.call.Unchanged circuit policy := by
    intro t' ht'
    exact hcalls t' (hh ▸ List.mem_append_right later (List.mem_cons_of_mem _ ht'))
  obtain ⟨hpol, hcir⟩ := pinned_run hcirc r' hcalls' before hbefore
  have hthis : t.call.Unchanged circuit policy :=
    hcalls t (hh ▸ List.mem_append_right later List.mem_cons_self)
  rw [hcall] at hthis
  have hkey : ctx.policy.key = policy.key := hacc.policy.symm.trans hpol
  have hckey : ctx.circuit.key = circuit.key := hacc.circuit.symm.trans hcir
  refine ⟨(hthis.1 hkey).rules, ?_⟩
  rw [← hthis.2 hckey]
  exact hacc.layout

end Albus.Program
