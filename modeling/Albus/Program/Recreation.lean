import Albus.Program.FreshProof
import Albus.Program.Retention

/-! # A request created again, against one created afresh

    `create_proof_request` runs the same handler on an account it has just
    allocated and on one that is already there.  It sets the keys, the identifier,
    the status and all times but two, and leaves four fields to what the account
    holds: the proof, the public inputs, the issuer, and, when neither the call nor
    the policy gives a period, the expiry.  So a request created again is the fresh
    one exactly when nothing of its previous life is left in those fields. -/

namespace Albus.Program

open Albus.Lib

/-- The call or the policy gives the request a period. -/
def GivesPeriod (ctx : CreateProofRequest) (data : CreateProofRequestData) : Prop :=
  0 < data.expiresIn ∨ 0 < ctx.policy.data.expirationPeriod

/-- What the next creation leaves to the account is as in an account just
    allocated. -/
structure Blank (ctx : CreateProofRequest) (data : CreateProofRequestData)
    (req : ProofRequest) : Prop where
  proof : req.proof = none
  publicInputs : req.publicInputs = []
  expiredAt : ¬ GivesPeriod ctx data → req.expiredAt = 0

theorem requestExpiry_of_period {policy : Policy} {data : CreateProofRequestData}
    (h : 0 < data.expiresIn ∨ 0 < policy.expirationPeriod) (now e e' : Int) :
    requestExpiry policy data now e = requestExpiry policy data now e' := by
  rw [requestExpiry, requestExpiry]
  by_cases hcall : 0 < data.expiresIn
  · rw [if_pos hcall, if_pos hcall]
  · have hpolicy := h.resolve_left hcall
    rw [if_neg hcall, if_neg hcall, if_pos hpolicy, if_pos hpolicy]

theorem requestExpiry_of_no_period {policy : Policy} {data : CreateProofRequestData}
    (h : ¬ (0 < data.expiresIn ∨ 0 < policy.expirationPeriod)) (now e : Int) :
    requestExpiry policy data now e = e := by
  rw [not_or] at h
  rw [requestExpiry, if_neg h.1, if_neg h.2]

/-- `fresh`, with what a creation leaves to the account taken from `req`. -/
def leave (fresh req : ProofRequest) (expiredAt : Int) : ProofRequest :=
  { fresh with
    proof := req.proof
    publicInputs := req.publicInputs
    issuer := req.issuer
    retentionEndDate := req.retentionEndDate
    expiredAt }

theorem leave_inj {fresh req req' : ProofRequest} {e e' : Int} :
    leave fresh req e = leave fresh req' e' ↔
      req.issuer = req'.issuer ∧ e = e' ∧ req.retentionEndDate = req'.retentionEndDate ∧
      req.proof = req'.proof ∧ req.publicInputs = req'.publicInputs := by
  simp only [leave, ProofRequest.mk.injEq, true_and]

/-- **WHAT A CREATION LEAVES TO THE ACCOUNT.**  The handler gives the same request on
    any data as on zeroed data, but for five fields. -/
theorem createProofRequest_zeroed {ctx : CreateProofRequest}
    {data : CreateProofRequestData} {now : Int} {req req' : ProofRequest}
    {sp : ServiceProvider} {pol : Policy}
    (h : createProofRequest ctx data now req = .ok (sp, pol, req')) :
    ∃ fresh, createProofRequest ctx data now .zeroed = .ok (sp, pol, fresh) ∧
      fresh = leave fresh .zeroed (requestExpiry ctx.policy.data data now 0) ∧
      req' = leave fresh req (requestExpiry ctx.policy.data data now req.expiredAt) := by
  obtain ⟨hprovider, h⟩ := require_bind_ok h
  obtain ⟨policyCount, hpolicy, h⟩ := bind_ok h
  obtain ⟨serviceCount, hservice, h⟩ := bind_ok h
  obtain ⟨rfl, hpair⟩ := Prod.mk.inj (Except.ok.inj h)
  obtain ⟨rfl, hreq⟩ := Prod.mk.inj hpair
  refine ⟨leave req' .zeroed (requestExpiry ctx.policy.data data now 0), ?_, rfl, ?_⟩
  · rw [createProofRequest, require, if_pos hprovider, hpolicy, hservice, ← hreq]
    rfl
  · rw [← hreq]
    rfl

/-- A request without proof and inputs fits every allocation. -/
theorem serializedLen_le_space {req : ProofRequest} (hproof : req.proof = none)
    (hinputs : req.publicInputs = []) (maxPublicInputs : UInt8) :
    req.serializedLen ≤ ProofRequest.space maxPublicInputs := by
  rw [ProofRequest.serializedLen, ProofRequest.space, ProofRequest.initSpace, hproof, hinputs]
  simp only [Option.isSome_none, Bool.false_eq_true, if_false, List.length_nil]
  omega

/-- The issuer is recorded with a proof, and dropped with it. -/
theorem issuer_of_no_proof {rt : Runtime} {seeds : ProofRequestSeeds} {h : History}
    {s : Option ProofRequestAccount} (r : Run (step rt seeds) none h s) :
    ∀ a, s = some a → a.request.proof = none → a.request.issuer = .default := by
  refine r.preserves
    (P := fun acc => ∀ a, acc = some a → a.request.proof = none →
      a.request.issuer = .default) ?_ ?_
  · intro a ha
    exact nomatch ha
  · intro acc c acc' ih hstep b hb hnone
    rcases step_cases hstep with
      ⟨ctx, data, now, req, sp, pol, req', -, -, hinit, hcreate, rfl⟩ |
      ⟨ctx, data, now, a, req', -, hacc, hf, rfl⟩ |
      ⟨ctx, now, a, req', -, hacc, hf, rfl⟩ |
      ⟨authority, data, now, a, req', -, hacc, hf, rfl⟩ |
      ⟨authority, now, a, -, -, -, rfl⟩
    · obtain rfl := Option.some.inj hb
      obtain ⟨-, -, -, -, -, hproof, -, hissuer⟩ := createProofRequest_ok hcreate
      have hreq : req.proof = none := hproof ▸ hnone
      refine hissuer.trans ?_
      rcases hinit with ⟨-, rfl⟩ | ⟨a, hacc, rfl⟩
      · rfl
      · exact ih a hacc hreq
    · obtain rfl := Option.some.inj hb
      obtain ⟨-, -, -, hcase⟩ := proveProofRequest_ok hf
      rcases hcase with ⟨-, rfl⟩ | ⟨proof, -, haccept⟩
      · cases hreset : data.reset with
        | true => simp only [receiveInputs_reset hreset]
        | false =>
            rw [receiveInputs_append hreset] at hnone ⊢
            exact ih a hacc hnone
      · -- an accepted proof is there
        obtain ⟨-, -, -, -, -, -, -, hproof, -⟩ := acceptProof_ok haccept
        rw [hproof] at hnone
        exact nomatch hnone
    · obtain rfl := Option.some.inj hb
      obtain ⟨-, -, rfl⟩ := verifyProofRequest_ok hf
      exact ih a hacc hnone
    · obtain rfl := Option.some.inj hb
      obtain ⟨-, rfl⟩ := updateProofRequest_ok hf
      exact ih a hacc hnone
    · exact nomatch hb

/-- A creation that succeeds on a live account succeeds on a missing one. -/
theorem create_on_missing {rt : Runtime} {seeds : ProofRequestSeeds}
    {a b : ProofRequestAccount} {ctx : CreateProofRequest} {data : CreateProofRequestData}
    {now : Int} (h : step rt seeds (some a) (.create ctx data now) = .ok (some b)) :
    ∃ fresh, step rt seeds none (.create ctx data now) = .ok (some ⟨b.space, fresh⟩) ∧
      fresh = leave fresh .zeroed (requestExpiry ctx.policy.data data now 0) ∧
      b.request = leave fresh a.request
        (requestExpiry ctx.policy.data data now a.request.expiredAt) := by
  obtain ⟨hseeds, h⟩ := require_bind_ok h
  obtain ⟨req, hinit, h⟩ := bind_ok h
  obtain ⟨⟨sp, pol, req'⟩, hcreate, hexit⟩ := bind_ok h
  have hb : b = ⟨ProofRequest.space data.maxPublicInputs, req'⟩ :=
    Option.some.inj (exitAccount_ok hexit)
  have hreq : req = a.request := by
    rcases initIfNeeded_ok hinit with ⟨hnone, -⟩ | ⟨a', ha', hreq⟩
    · exact nomatch hnone
    · rw [hreq, Option.some.inj ha']
  subst hb hreq
  obtain ⟨fresh, hfresh, hzeroed, hreq'⟩ := createProofRequest_zeroed hcreate
  refine ⟨fresh, ?_, hzeroed, hreq'⟩
  have hfits : fresh.serializedLen ≤ ProofRequest.space data.maxPublicInputs :=
    serializedLen_le_space (congrArg ProofRequest.proof hzeroed)
      (congrArg ProofRequest.publicInputs hzeroed) _
  show (require _ _ >>= fun _ => initIfNeeded none _ >>= fun req =>
    createProofRequest ctx data now req >>= fun p => exitAccount _ p.2.2) = _
  rw [require, if_pos hseeds]
  show (createProofRequest ctx data now .zeroed >>= fun p => exitAccount _ p.2.2) = _
  rw [hfresh]
  show exitAccount _ fresh = _
  rw [exitAccount, if_pos hfits]

/-- **CREATED AGAIN IS CREATED AFRESH EXACTLY ON A BLANK ACCOUNT.**  In every
    reachable state of a request, a creation that succeeds there also succeeds on a
    missing account, and gives the same account exactly when the request holds
    neither proof nor inputs, nor an expiry that the creation would not set. -/
theorem create_afresh_iff (rt : Runtime) (seeds : ProofRequestSeeds) (h : History)
    (a : ProofRequestAccount) (r : Run (step rt seeds) none h (some a))
    (ctx : CreateProofRequest) (data : CreateProofRequestData) (now : Int)
    (b : ProofRequestAccount)
    (hstep : step rt seeds (some a) (.create ctx data now) = .ok (some b)) :
    ∃ fresh, step rt seeds none (.create ctx data now) = .ok (some fresh) ∧
      (b = fresh ↔ Blank ctx data a.request) := by
  obtain ⟨fresh, hfresh, hzeroed, hreq⟩ := create_on_missing hstep
  refine ⟨_, hfresh, ?_⟩
  have hsame : b = ⟨b.space, fresh⟩ ↔ b.request = fresh :=
    ⟨fun h => congrArg ProofRequestAccount.request h,
      fun h => congrArg (ProofRequestAccount.mk b.space) h⟩
  rw [hsame, hreq]
  nth_rewrite 2 [hzeroed]
  rw [leave_inj]
  constructor
  · rintro ⟨-, hexpiry, -, hproof, hinputs⟩
    refine ⟨hproof, hinputs, ?_⟩
    intro hperiod
    rwa [requestExpiry_of_no_period hperiod, requestExpiry_of_no_period hperiod] at hexpiry
  · rintro ⟨hproof, hinputs, hexpiry⟩
    refine ⟨issuer_of_no_proof r a rfl hproof, ?_, retentionEndDate_run r a rfl, hproof,
      hinputs⟩
    by_cases hperiod : GivesPeriod ctx data
    · exact requestExpiry_of_period hperiod now _ _
    · rw [hexpiry hperiod]

namespace CreatedAgain

/-- The account these calls leave. -/
def before (calls : List Call) : Option ProofRequestAccount :=
  (exec (step Sample.runtime Sample.seeds) none calls).2

theorem run_before {calls : List Call} {a : ProofRequestAccount}
    (h : before calls = some a) :
    Run (step Sample.runtime Sample.seeds) none
      (exec (step Sample.runtime Sample.seeds) none calls).1 (some a) := by
  rw [← h]
  exact run_exec _ _ _

/-- What the creation leaves there. -/
def created (acc : Option ProofRequestAccount) : Option ProofRequestAccount :=
  match step Sample.runtime Sample.seeds acc (Sample.create []) with
  | .ok acc' => acc'
  | .error _ => none

theorem created_eq {acc : Option ProofRequestAccount} {b : ProofRequestAccount}
    (h : created acc = some b) :
    step Sample.runtime Sample.seeds acc (Sample.create []) = .ok (some b) := by
  rw [created] at h
  split at h
  · rename_i acc' hok
    exact h ▸ hok
  · exact nomatch h

end CreatedAgain

open CreatedAgain in
/-- A request created twice in a row is a fresh one. -/
theorem create_afresh_twice :
    ∃ a b, before [Sample.create []] = some a ∧
      step Sample.runtime Sample.seeds (some a) (Sample.create []) = .ok (some b) ∧
      step Sample.runtime Sample.seeds none (Sample.create []) = .ok (some b) := by
  obtain ⟨a, ha⟩ := Option.isSome_iff_exists.mp
    (by decide +kernel : (before [Sample.create []]).isSome)
  obtain ⟨b, hb⟩ := Option.isSome_iff_exists.mp
    (by decide +kernel : (created (before [Sample.create []])).isSome)
  have hblank : ∀ a ∈ before [Sample.create []],
      a.request.proof = none ∧ a.request.publicInputs = [] ∧ a.request.expiredAt = 0 := by
    decide +kernel
  obtain ⟨hproof, hinputs, hexpiry⟩ := hblank a ha
  rw [ha] at hb
  obtain ⟨fresh, hfresh, hiff⟩ := create_afresh_iff Sample.runtime Sample.seeds _ a
    (run_before ha) _ _ _ b (created_eq hb)
  obtain rfl : b = fresh := hiff.mpr ⟨hproof, hinputs, fun _ => hexpiry⟩
  exact ⟨a, b, ha, created_eq hb, hfresh⟩

open CreatedAgain in
/-- **A PROOF AND ITS INPUTS SURVIVE THE NEXT CREATION.** -/
theorem create_afresh_fails :
    ∃ (h : History) (a b fresh : ProofRequestAccount),
      Run (step Sample.runtime Sample.seeds) none h (some a) ∧
      step Sample.runtime Sample.seeds (some a) (Sample.create []) = .ok (some b) ∧
      step Sample.runtime Sample.seeds none (Sample.create []) = .ok (some fresh) ∧
      b.request.proof = some Sample.proof ∧ fresh.request.proof = none ∧
      b.request.publicInputs = ReCreation.inputs ∧ fresh.request.publicInputs = [] := by
  obtain ⟨a, ha⟩ := Option.isSome_iff_exists.mp
    (by decide +kernel : (before ReCreation.proved).isSome)
  obtain ⟨b, hb⟩ := Option.isSome_iff_exists.mp
    (by decide +kernel : (created (before ReCreation.proved)).isSome)
  obtain ⟨fresh, hfresh⟩ := Option.isSome_iff_exists.mp
    (by decide +kernel : (created none).isSome)
  have hkept : ∀ b ∈ created (before ReCreation.proved),
      b.request.proof = some Sample.proof ∧ b.request.publicInputs = ReCreation.inputs := by
    decide +kernel
  have hempty : ∀ fresh ∈ created none,
      fresh.request.proof = none ∧ fresh.request.publicInputs = [] := by
    decide +kernel
  have hstep := created_eq (ha ▸ hb : created (some a) = some b)
  exact ⟨_, a, b, fresh, run_before ha, hstep, created_eq hfresh,
    (hkept b hb).1, (hempty fresh hfresh).1, (hkept b hb).2, (hempty fresh hfresh).2⟩

end Albus.Program
