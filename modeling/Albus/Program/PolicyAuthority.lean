import Albus.Program.Services

/-! # Who shapes a policy

    `update_policy` and `delete_policy` compare their signer with the authority of
    the policy's service (`has_one = authority`); `create_policy` holds the same
    service and does not.  So a policy under a service's name is the service's own
    from its second shape on, and the first is anybody's. -/

namespace Albus.Program

open Albus.Lib

/-- The policy without its counter, which every request moves. -/
def PolicyAccount.shape (p : PolicyAccount) : PolicyAccount :=
  { p with proofRequestCount := 0 }

/-- A policy that the transaction creates, changes or deletes names a service whose
    authority, as it was, signed. -/
def ShapedByAuthority (t : Transition Registry ServiceInstruction) : Prop :=
  ∀ address p, (t.pre.policies address = some p ∨ t.post.policies address = some p) →
    (t.pre.policies address).map PolicyAccount.shape
        ≠ (t.post.policies address).map PolicyAccount.shape →
    ∃ s, t.pre.services p.serviceProvider = some s ∧ t.call.signer = s.authority

/-- If the transaction is a `create_policy`, the authority of its service signed. -/
def CreatesAsAuthority (t : Transition Registry ServiceInstruction) : Prop :=
  ∀ ctx data now, t.call = .createPolicy ctx data now →
    ∃ s, t.pre.services ctx.serviceProvider = some s ∧ ctx.authority = s.authority

instance : (t : Transition Registry ServiceInstruction) → Decidable (CreatesAsAuthority t)
  | ⟨pre, .createPolicy ctx data now, _⟩ =>
      decidable_of_iff
        (∃ s ∈ pre.services ctx.serviceProvider, ctx.authority = s.authority)
        ⟨by
          rintro ⟨s, hs, hauth⟩ ctx' data' now' heq
          cases heq
          exact ⟨s, hs, hauth⟩,
        fun h => h ctx data now rfl⟩
  | ⟨_, .createServiceProvider _ _ _, _⟩ => isTrue fun _ _ _ heq => nomatch heq
  | ⟨_, .updateServiceProvider _ _ _, _⟩ => isTrue fun _ _ _ heq => nomatch heq
  | ⟨_, .deleteServiceProvider _ _, _⟩ => isTrue fun _ _ _ heq => nomatch heq
  | ⟨_, .updatePolicy _ _, _⟩ => isTrue fun _ _ _ heq => nomatch heq
  | ⟨_, .deletePolicy _, _⟩ => isTrue fun _ _ _ heq => nomatch heq
  | ⟨_, .request _ _, _⟩ => isTrue fun _ _ _ heq => nomatch heq

/-- A transaction that shapes no policy. -/
theorem shapedByAuthority_of_same {t : Transition Registry ServiceInstruction}
    (h : ∀ address, (t.pre.policies address).map PolicyAccount.shape
      = (t.post.policies address).map PolicyAccount.shape) : ShapedByAuthority t :=
  fun address _ _ hne => absurd (h address) hne

/-- A transaction that writes one policy, of a service whose authority signed. -/
theorem shapedByAuthority_of_signed {t : Transition Registry ServiceInstruction}
    {k : Pubkey} {x : Option PolicyAccount}
    (hpost : t.post.policies = Function.update t.pre.policies k x)
    (hsigned : ∀ p, (t.pre.policies k = some p ∨ x = some p) →
      ∃ s, t.pre.services p.serviceProvider = some s ∧ t.call.signer = s.authority) :
    ShapedByAuthority t := by
  intro address p hp hne
  by_cases heq : address = k
  · subst heq
    rw [hpost, Function.update_self] at hp
    exact hsigned p hp
  · rw [hpost, Function.update_of_ne heq] at hne
    exact absurd rfl hne

/-- A transaction that creates a policy: it is the service's authority that shapes it,
    exactly if it is the service's authority that signed. -/
theorem shapedByAuthority_iff_of_create {t : Transition Registry ServiceInstruction}
    {ctx : CreatePolicy} {data : CreatePolicyData} {now : Int} {k : Pubkey}
    {p : PolicyAccount} (hcall : t.call = .createPolicy ctx data now)
    (hfree : t.pre.policies k = none)
    (hpost : t.post.policies = Function.update t.pre.policies k (some p))
    (hnames : p.serviceProvider = ctx.serviceProvider) :
    ShapedByAuthority t ↔ CreatesAsAuthority t := by
  have hnew : t.post.policies k = some p := by rw [hpost, Function.update_self]
  have hsigner : t.call.signer = ctx.authority := congrArg ServiceInstruction.signer hcall
  constructor
  · intro hshaped ctx' data' now' heq
    have hne : (t.pre.policies k).map PolicyAccount.shape
        ≠ (t.post.policies k).map PolicyAccount.shape := by
      rw [hfree, hnew]
      exact fun heq => nomatch heq
    obtain ⟨s, hs, hsigned⟩ := hshaped k p (Or.inr hnew) hne
    rw [hcall] at heq
    cases heq
    exact ⟨s, hnames ▸ hs, hsigner.symm.trans hsigned⟩
  · intro hcreates
    obtain ⟨s, hs, hsigned⟩ := hcreates ctx data now hcall
    refine shapedByAuthority_of_signed hpost ?_
    rintro q (hq | hq)
    · rw [hfree] at hq
      exact nomatch hq
    · obtain rfl := Option.some.inj hq
      exact ⟨s, hnames ▸ hs, hsigner.trans hsigned⟩

/-- **ONE TRANSACTION**: the authority shapes, exactly if it creates. -/
theorem shapedByAuthority_iff_of_step {rt : Runtime} {serviceAddress : String → Pubkey}
    {policyAddress : Pubkey → String → Pubkey} {reg reg' : Registry}
    {i : ServiceInstruction}
    (h : Registry.step rt serviceAddress policyAddress reg i = .ok reg') :
    ShapedByAuthority ⟨reg, i, reg'⟩ ↔ CreatesAsAuthority ⟨reg, i, reg'⟩ := by
  -- every other instruction meets both sides
  have hboth : ShapedByAuthority ⟨reg, i, reg'⟩ →
      (∀ ctx data now, i ≠ .createPolicy ctx data now) →
      (ShapedByAuthority ⟨reg, i, reg'⟩ ↔ CreatesAsAuthority ⟨reg, i, reg'⟩) :=
    fun hshaped hne => ⟨fun _ ctx data now heq => absurd heq (hne ctx data now),
      fun _ => hshaped⟩
  cases Registry.effect_of_step h with
  | createServiceProvider free counts =>
      exact hboth (shapedByAuthority_of_same fun _ => rfl) (fun _ _ _ heq => nomatch heq)
  | updateServiceProvider service auth counts =>
      exact hboth (shapedByAuthority_of_same fun _ => rfl) (fun _ _ _ heq => nomatch heq)
  | deleteServiceProvider service =>
      exact hboth (shapedByAuthority_of_same fun _ => rfl) (fun _ _ _ heq => nomatch heq)
  | @createPolicy ctx data now s p service free names =>
      exact shapedByAuthority_iff_of_create rfl free rfl names
  | @updatePolicy ctx data s p p' policy service auth names =>
      refine hboth (shapedByAuthority_of_signed rfl ?_) (fun _ _ _ heq => nomatch heq)
      rintro q (hq | hq)
      · obtain rfl := Option.some.inj (policy.symm.trans hq)
        exact ⟨s, service, auth.symm⟩
      · obtain rfl := Option.some.inj hq
        exact ⟨s, names ▸ service, auth.symm⟩
  | @deletePolicy ctx s p policy service auth =>
      refine hboth (shapedByAuthority_of_signed rfl ?_) (fun _ _ _ heq => nomatch heq)
      rintro q (hq | hq)
      · obtain rfl := Option.some.inj (policy.symm.trans hq)
        exact ⟨s, service, auth.symm⟩
      · exact nomatch hq
  | @createRequest seeds ctx data now s p a policy service names numbered moves =>
      refine hboth (shapedByAuthority_of_same ?_) (fun _ _ _ heq => nomatch heq)
      intro address
      show (reg.policies address).map _ = (Function.update reg.policies _ _ address).map _
      by_cases heq : address = seeds.policy
      · rw [heq, Function.update_self, policy]
        rfl
      · rw [Function.update_of_ne heq]
  | request other moves =>
      exact hboth (shapedByAuthority_of_same fun _ => rfl) (fun _ _ _ heq => nomatch heq)

/-- **ONLY A SERVICE'S AUTHORITY SHAPES ITS POLICIES, EXACTLY WHEN …**  Over every run
    of all instructions by whomever: every creation, change and deletion of a policy is
    signed by the authority its service then has, if and only if every
    `create_policy` is. -/
theorem policies_shaped_iff (rt : Runtime) (serviceAddress : String → Pubkey)
    (policyAddress : Pubkey → String → Pubkey)
    (h : List (Transition Registry ServiceInstruction)) (reg : Registry)
    (r : Run (Registry.step rt serviceAddress policyAddress) Registry.empty h reg) :
    (∀ t ∈ h, ShapedByAuthority t) ↔ ∀ t ∈ h, CreatesAsAuthority t := by
  constructor
  · intro hshaped t ht
    exact (shapedByAuthority_iff_of_step (r.step_of_mem ht)).mp (hshaped t ht)
  · intro hcreates t ht
    exact (shapedByAuthority_iff_of_step (r.step_of_mem ht)).mpr (hcreates t ht)

namespace PolicySample

/-- The service is registered, and its policy created by `authority`. -/
def calls (authority : Pubkey) : List ServiceInstruction :=
  [ServiceSample.createService, ServiceSample.createPolicy authority 0]

def run (authority : Pubkey) : List (Transition Registry ServiceInstruction) × Registry :=
  exec ServiceSample.step Registry.empty (calls authority)

end PolicySample

/-- The manager of the service creates its policy. -/
theorem policies_shaped_sample :
    (PolicySample.run ServiceSample.manager).1.length = 2 ∧
      ∀ t ∈ (PolicySample.run ServiceSample.manager).1, ShapedByAuthority t := by
  refine ⟨by decide +kernel, ?_⟩
  refine (policies_shaped_iff ServiceSample.runtime ServiceSample.serviceAddress
    ServiceSample.policyAddress _ _ (run_exec _ Registry.empty _)).mpr ?_
  show ∀ t ∈ (PolicySample.run ServiceSample.manager).1, CreatesAsAuthority t
  decide +kernel

/-- **A POLICY OF ANYBODY**: a stranger creates a policy under the service's name. -/
theorem policies_shaped_fails :
    ∃ (h : List (Transition Registry ServiceInstruction)) (reg : Registry),
      Run (Registry.step (deployed false false true .atInfinity)
        ServiceSample.serviceAddress ServiceSample.policyAddress) Registry.empty h reg ∧
      h.map (fun t => t.call) = (PolicySample.calls (Sample.key 8)).reverse ∧
      ¬ ∀ t ∈ h, ShapedByAuthority t := by
  have r := run_exec ServiceSample.step Registry.empty (PolicySample.calls (Sample.key 8))
  refine ⟨_, _, r, exec_calls (by decide +kernel), ?_⟩
  intro hshaped
  have hcreates : ∀ t ∈ (PolicySample.run (Sample.key 8)).1, CreatesAsAuthority t :=
    fun t ht => (shapedByAuthority_iff_of_step (r.step_of_mem ht)).mp (hshaped t ht)
  revert hcreates
  decide +kernel

end Albus.Program
