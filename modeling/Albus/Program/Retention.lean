import Albus.Program.Services
import Mathlib.Data.List.Pairwise

/-! # How long a verified request is kept

    A policy has a `retention_period`, a request a `retention_end_date`, and
    `delete_proof_request` refuses to close a verified request before that date.
    Nothing ever sets the date: it is zero from the allocation on, so no verified
    request is kept at all.  A prove call with `reset` does not ask for it
    either. -/

namespace Albus.Program

open Albus.Lib

/-- The `Clock` of a call. -/
def Call.now : Call → Int
  | .create _ _ now => now
  | .prove _ _ now => now
  | .verify _ now => now
  | .update _ _ now => now
  | .delete _ now => now

/-- The `Clock` of an instruction; three of them do not read it. -/
def ServiceInstruction.now : ServiceInstruction → Option Int
  | .createServiceProvider _ _ now => some now
  | .createPolicy _ _ now => some now
  | .request _ call => some call.now
  | .updateServiceProvider _ _ _ => none
  | .deleteServiceProvider _ _ => none
  | .updatePolicy _ _ => none
  | .deletePolicy _ => none

/-- From `t` on, the clock does not go back. -/
def ClockForward (t : Int) (later : List (Transition Registry ServiceInstruction)) : Prop :=
  (later.filterMap (fun u => u.call.now) ++ [t]).Pairwise fun a b => b ≤ a

/-- The transaction `v` sets the request at `seeds` verified, at time `t`; `a` is the
    request then. -/
def SetsVerified (seeds : ProofRequestSeeds) (a : ProofRequestAccount) (t : Int)
    (v : Transition Registry ServiceInstruction) : Prop :=
  (∃ call, v.call = .request seeds call ∧ call.now = t ∧
    ((∃ ctx, call = .verify ctx t) ∨ ∃ authority data, call = .update authority data t)) ∧
  v.post.requests seeds = some a ∧ a.request.status = .verified

/-- The account holds the proof and the public inputs of `a`. -/
def Holds (a : ProofRequestAccount) (acc : Option ProofRequestAccount) : Prop :=
  ∃ b, acc = some b ∧ b.request.proof = a.request.proof ∧
    a.request.publicInputs <+: b.request.publicInputs

/-- By a call before `deadline`, the owner of the request closes it or erases what `a`
    holds. -/
def ErasesBefore (seeds : ProofRequestSeeds) (a : ProofRequestAccount) (deadline : Int)
    (u : Transition Registry ServiceInstruction) : Prop :=
  ∃ call, u.call = .request seeds call ∧ call.signer = seeds.owner ∧ call.now < deadline ∧
    Holds a (u.pre.requests seeds) ∧ ¬ Holds a (u.post.requests seeds)

/-- After a request is set verified under a policy, the owner erases nothing in the
    run before the policy's retention period is over. -/
def RespectsRetention (h : List (Transition Registry ServiceInstruction)) : Prop :=
  ∀ later v earlier, h = later ++ v :: earlier →
    ∀ seeds a t p, SetsVerified seeds a t v → v.post.policies seeds.policy = some p →
      ∀ u ∈ later, ¬ ErasesBefore seeds a (t + p.retentionPeriod.toNat) u

/-- **NOTHING SETS THE RETENTION DATE**, in any run on a request. -/
theorem retentionEndDate_run {rt : Runtime} {seeds : ProofRequestSeeds} {h : History}
    {s : Option ProofRequestAccount} (r : Run (step rt seeds) none h s) :
    ∀ a, s = some a → a.request.retentionEndDate = 0 := by
  refine r.preserves
    (P := fun acc => ∀ a, acc = some a → a.request.retentionEndDate = 0) ?_ ?_
  · intro a ha
    exact nomatch ha
  · intro acc c acc' ih hstep b hb
    rcases step_cases hstep with
      ⟨ctx, data, now, req, sp, pol, req', -, -, hinit, hcreate, rfl⟩ |
      ⟨ctx, data, now, a, req', -, hacc, hf, rfl⟩ |
      ⟨ctx, now, a, req', -, hacc, hf, rfl⟩ |
      ⟨authority, data, now, a, req', -, hacc, hf, rfl⟩ |
      ⟨authority, now, a, -, -, -, rfl⟩
    · obtain rfl := Option.some.inj hb
      refine (createProofRequest_times hcreate).2.1.trans ?_
      rcases hinit with ⟨-, rfl⟩ | ⟨a, hacc, rfl⟩
      · rfl
      · exact ih a hacc
    · -- neither chunk, reset nor proof writes the date
      obtain rfl := Option.some.inj hb
      have hkept : (receiveInputs data a.request).retentionEndDate = 0 :=
        (receiveInputs_times data a.request).2.1.trans (ih a hacc)
      obtain ⟨-, -, -, hcase⟩ := proveProofRequest_ok hf
      rcases hcase with ⟨-, rfl⟩ | ⟨proof, -, haccept⟩
      · exact hkept
      · exact (acceptProof_times haccept).2.1.trans hkept
    · obtain rfl := Option.some.inj hb
      obtain ⟨-, -, rfl⟩ := verifyProofRequest_ok hf
      exact ih a hacc
    · obtain rfl := Option.some.inj hb
      obtain ⟨-, rfl⟩ := updateProofRequest_ok hf
      exact ih a hacc
    · exact nomatch hb

/-- Without a retention date the owner's deletion succeeds. -/
theorem delete_succeeds {rt : Runtime} {seeds : ProofRequestSeeds}
    {a : ProofRequestAccount} {now : Int} (hdate : a.request.retentionEndDate = 0)
    (hnow : 0 ≤ now) : step rt seeds (some a) (.delete a.request.owner now) = .ok none := by
  have hopen : ¬ (a.request.isVerified ∧ now < a.request.retentionEndDate) := by
    rw [hdate]
    rintro ⟨-, hlt⟩
    omega
  show (deleteProofRequest a.request.owner now a.request >>= fun _ => _) = _
  rw [deleteProofRequest, require, if_pos rfl]
  show ((require _ _ : Except ProgramError Unit) >>= fun _ => _) = _
  rw [require, if_pos hopen]
  rfl

/-- **THE OWNER CLOSES A VERIFIED REQUEST AT ONCE**: in every reachable registry the
    deletion of a live request by its owner goes through. -/
theorem owner_deletes {rt : Runtime} (hroot : rt.authorizedAuthority ≠ [])
    {serviceAddress : String → Pubkey} {policyAddress : Pubkey → String → Pubkey}
    {h : List (Transition Registry ServiceInstruction)} {reg : Registry}
    (r : Run (Registry.step rt serviceAddress policyAddress) Registry.empty h reg)
    {seeds : ProofRequestSeeds} {a : ProofRequestAccount} (ha : reg.requests seeds = some a)
    {now : Int} (hnow : 0 ≤ now) :
    Registry.step rt serviceAddress policyAddress reg
        (.request seeds (.delete seeds.owner now))
      = .ok { reg with requests := Function.update reg.requests seeds none } := by
  obtain ⟨h', r'⟩ := Registry.request_run r seeds
  have howner : a.request.owner = seeds.owner := (seeded_run hroot r' a ha).2
  have hdelete : Program.step rt seeds (some a) (.delete a.request.owner now) = .ok none :=
    delete_succeeds (retentionEndDate_run r' a ha) hnow
  rw [howner] at hdelete
  have hloads : reg.Loads (.delete seeds.owner now) := trivial
  show (require (reg.Loads (.delete seeds.owner now)) _ >>= fun _ => _) = _
  rw [require, if_pos hloads]
  show (Program.step rt seeds (reg.requests seeds) (.delete seeds.owner now) >>= fun _ => _) = _
  rw [ha, hdelete]
  rfl

/-- The deletion closes what was set verified. -/
theorem delete_erases {reg : Registry} {seeds : ProofRequestSeeds} {a : ProofRequestAccount}
    (ha : reg.requests seeds = some a) {t deadline : Int} (hlt : t < deadline) :
    ErasesBefore seeds a deadline ⟨reg, .request seeds (.delete seeds.owner t),
      { reg with requests := Function.update reg.requests seeds none }⟩ := by
  refine ⟨_, rfl, rfl, hlt, ⟨a, ha, rfl, List.prefix_rfl⟩, ?_⟩
  rintro ⟨b, hb, -⟩
  have hnone : Function.update reg.requests seeds none seeds = some b := hb
  rw [Function.update_self] at hnone
  exact nomatch hnone

/-- **RETENTION HOLDS EXACTLY FOR A PERIOD OF ZERO.**  In every run, whenever a request
    is set verified, at time `t` under a policy with retention period `R`: in every
    continuation, with a clock that does not go back, the owner neither closes the
    request nor erases what it holds before `t + R`, if and only if `R = 0`. -/
theorem retained_iff (testing devnet verifyOnChain : Bool) (altBn128 : AltBn128)
    (serviceAddress : String → Pubkey) (policyAddress : Pubkey → String → Pubkey)
    (h : List (Transition Registry ServiceInstruction)) (reg : Registry)
    (v : Transition Registry ServiceInstruction)
    (r : Run (Registry.step (deployed testing devnet verifyOnChain altBn128) serviceAddress
      policyAddress) Registry.empty (v :: h) reg)
    (seeds : ProofRequestSeeds) (a : ProofRequestAccount) (t : Int) (ht : 0 ≤ t)
    (hv : SetsVerified seeds a t v) :
    ∀ p, reg.policies seeds.policy = some p →
      ((∀ later reg', Run (Registry.step (deployed testing devnet verifyOnChain altBn128)
          serviceAddress policyAddress) reg later reg' → ClockForward t later →
        ∀ u ∈ later, ¬ ErasesBefore seeds a (t + p.retentionPeriod.toNat) u) ↔
      p.retentionPeriod = 0) := by
  intro p _
  have hroot : (deployed testing devnet verifyOnChain altBn128).authorizedAuthority ≠ [] :=
    authorizedAuthority_ne_nil testing devnet
  constructor
  · intro hkept
    by_contra hne
    have hpos : 0 < p.retentionPeriod.toNat := by
      rcases Nat.eq_zero_or_pos p.retentionPeriod.toNat with hzero | hpos
      · exact absurd (UInt32.toNat_inj.mp hzero) hne
      · exact hpos
    -- the run continues with the owner's deletion, at the same time
    have ha : reg.requests seeds = some a := r.post_eq ▸ hv.2.1
    have hdelete := owner_deletes hroot r ha ht
    refine hkept _ _ (Run.init.step hdelete) ?_ _ List.mem_cons_self
      (delete_erases ha (by omega))
    show List.Pairwise _ [t, t]
    simp
  · intro hzero later reg' r' hclock u hu
    rintro ⟨call, hcall, -, hbefore, -⟩
    -- no time is left
    have hnow : call.now ∈ later.filterMap fun u => u.call.now :=
      List.mem_filterMap.mpr ⟨u, hu, by rw [hcall]; rfl⟩
    have hle : t ≤ call.now :=
      (List.pairwise_append.mp hclock).2.2 call.now hnow t List.mem_cons_self
    rw [hzero] at hbefore
    have hlt : call.now < t + 0 := hbefore
    omega

namespace RetentionSample

def circuit : Account Circuit := Sample.circuit [] 0

/-- The service, as `create_proof_request` loads it. -/
def service : Account ServiceProvider := ⟨Sample.key 4, ⟨0, 2, []⟩⟩

def policy (retentionPeriod : UInt32) : Account Policy :=
  ⟨Sample.key 3, ⟨Sample.key 4, Sample.key 2, 0, retentionPeriod, 0, []⟩⟩

/-- The policy once the request has been counted. -/
def policyAfter (retentionPeriod : UInt32) : Account Policy :=
  ⟨Sample.key 3, ⟨Sample.key 4, Sample.key 2, 0, retentionPeriod, 1, []⟩⟩

/-- A request under a policy with this retention period is created, proved and
    verified. -/
def calls (retentionPeriod : UInt32) : List ServiceInstruction :=
  [ServiceSample.createService,
    ServiceSample.createPolicy ServiceSample.manager retentionPeriod,
    .request Sample.seeds
      (.create { serviceProvider := service, policy := policy retentionPeriod,
                 authority := Sample.owner, bump := 255 }
        { expiresIn := 0, maxPublicInputs := 8 } Sample.now),
    .request Sample.seeds
      (.prove { circuit, policy := policyAfter retentionPeriod, issuer := none,
                authority := Sample.owner }
        { proof := some Sample.proof, publicInputs := [], reset := false } Sample.now),
    .request Sample.seeds (Sample.verify circuit)]

/-- The owner's deletion, at the time of the verification. -/
def delete : ServiceInstruction := .request Sample.seeds (.delete Sample.owner Sample.now)

def run (calls : List ServiceInstruction) :
    List (Transition Registry ServiceInstruction) × Registry :=
  exec ServiceSample.step Registry.empty calls

/-- The calls go through, and the last one sets the request verified. -/
def Verifies (retentionPeriod : UInt32) : Prop :=
  (run (calls retentionPeriod)).1.length = (calls retentionPeriod).length ∧
  (∃ a ∈ (run (calls retentionPeriod)).2.requests Sample.seeds,
    a.request.status = .verified) ∧
  ∃ p ∈ (run (calls retentionPeriod)).2.policies Sample.seeds.policy,
    p.retentionPeriod = retentionPeriod

instance (retentionPeriod : UInt32) : Decidable (Verifies retentionPeriod) :=
  inferInstanceAs (Decidable (_ ∧ _ ∧ _))

theorem verified_run {retentionPeriod : UInt32} (h : Verifies retentionPeriod) :
    ∃ v earlier reg a p, Run ServiceSample.step Registry.empty (v :: earlier) reg ∧
      (v :: earlier).map (fun t => t.call) = (calls retentionPeriod).reverse ∧
      SetsVerified Sample.seeds a Sample.now v ∧
      reg.policies Sample.seeds.policy = some p ∧ p.retentionPeriod = retentionPeriod := by
  obtain ⟨hlen, ⟨a, ha, hverified⟩, p, hp, hperiod⟩ := h
  have hcalls : (run (calls retentionPeriod)).1.map (fun t => t.call)
      = (calls retentionPeriod).reverse := exec_calls hlen
  have r : Run ServiceSample.step Registry.empty (run (calls retentionPeriod)).1
      (run (calls retentionPeriod)).2 := run_exec _ _ _
  obtain ⟨v, earlier, heq, hcall, -⟩ := List.map_eq_cons_iff.mp hcalls
  rw [heq] at r hcalls
  have hverify : v.call = .request Sample.seeds (Sample.verify circuit) := hcall
  have hpost : v.post.requests Sample.seeds = some a := by
    rw [r.post_eq]
    exact ha
  have hset : SetsVerified Sample.seeds a Sample.now v :=
    ⟨⟨_, hverify, rfl, Or.inl ⟨_, rfl⟩⟩, hpost, hverified⟩
  exact ⟨v, earlier, _, a, p, r, hcalls, hset, hp, hperiod⟩

end RetentionSample

/-- Under a policy without a retention period nothing has to be kept. -/
theorem retained_sample :
    ∃ v earlier reg a p, Run ServiceSample.step Registry.empty (v :: earlier) reg ∧
      SetsVerified Sample.seeds a Sample.now v ∧
      reg.policies Sample.seeds.policy = some p ∧
      ∀ later reg', Run ServiceSample.step reg later reg' → ClockForward Sample.now later →
        ∀ u ∈ later, ¬ ErasesBefore Sample.seeds a (Sample.now + p.retentionPeriod.toNat) u := by
  have hverifies : RetentionSample.Verifies 0 := by decide +kernel
  obtain ⟨v, earlier, reg, a, p, r, -, hv, hp, hzero⟩ :=
    RetentionSample.verified_run hverifies
  have hnow : 0 ≤ Sample.now := by decide
  exact ⟨v, earlier, reg, a, p, r, hv, hp,
    (retained_iff false false true .atInfinity _ _ earlier reg v r _ a _ hnow hv p hp).mpr
      hzero⟩

/-- **A VERIFIED REQUEST IS CLOSED AT ONCE**, under a policy that retains it for a
    thousand seconds. -/
theorem retention_fails :
    ∃ (h : List (Transition Registry ServiceInstruction)) (reg : Registry),
      Run (Registry.step (deployed false false true .atInfinity)
        ServiceSample.serviceAddress ServiceSample.policyAddress) Registry.empty h reg ∧
      h.map (fun t => t.call)
        = RetentionSample.delete :: (RetentionSample.calls 1000).reverse ∧
      ClockForward Sample.now h ∧ ¬ RespectsRetention h := by
  have hverifies : RetentionSample.Verifies 1000 := by decide +kernel
  obtain ⟨v, earlier, reg, a, p, r, hcalls, hv, hp, hperiod⟩ :=
    RetentionSample.verified_run hverifies
  have ha : reg.requests Sample.seeds = some a := r.post_eq ▸ hv.2.1
  have hnow : 0 ≤ Sample.now := by decide
  have hroot : ServiceSample.runtime.authorizedAuthority ≠ [] :=
    authorizedAuthority_ne_nil false false
  refine ⟨_, _, r.step (owner_deletes hroot r ha hnow), congrArg _ hcalls, ?_, ?_⟩
  · have hclocks : (v :: earlier).filterMap (fun u => u.call.now)
        = (RetentionSample.calls 1000).reverse.filterMap ServiceInstruction.now := by
      rw [← hcalls, List.filterMap_map]
      rfl
    show List.Pairwise _ (Sample.now :: ((v :: earlier).filterMap (fun u => u.call.now) ++ _))
    rw [hclocks]
    decide
  · intro hrespects
    refine hrespects [_] v earlier rfl Sample.seeds a Sample.now p hv
      (r.post_eq ▸ hp) _ List.mem_cons_self (delete_erases ha ?_)
    rw [hperiod]
    decide

end Albus.Program
