import Albus.Lib.Census
import Albus.Program.Services

/-! # The counters of a service

    `policy_count` counts the policies of a service, `proof_request_count` numbers its
    requests.  Both live in the service's account and start at zero with it, while
    the policies and the requests outlive it: `delete_service_provider` looks at
    neither.  A service registered again at its address starts counting beside what
    is already there, and nothing brings the counters back. -/

namespace Albus.Program

open Albus.Lib

/-- The policy names the service at `S`. -/
def PolicyAccount.Of (S : Pubkey) (p : PolicyAccount) : Prop := p.serviceProvider = S

/-- The request names the service at `S`. -/
def ProofRequestAccount.Of (S : Pubkey) (a : ProofRequestAccount) : Prop :=
  a.request.serviceProvider = S

def ProofRequestAccount.identifier (a : ProofRequestAccount) : Nat := a.request.identifier

/-- The counters of a live service: its policies are `policy_count` many, and its
    requests have different identifiers up to `proof_request_count`. -/
structure Counted (reg : Registry) (S : Pubkey) (s : ServiceProviderAccount) : Prop where
  policies : CensusCard reg.policies (PolicyAccount.Of S) s.policyCount
  requests : Numbered reg.requests (ProofRequestAccount.Of S) ProofRequestAccount.identifier
    s.proofRequestCount

/-- The counters of every live service. -/
def AllCounted (reg : Registry) : Prop :=
  ∀ S s, reg.services S = some s → Counted reg S s

/-- No live policy and no live request names the service at `S`. -/
def Unnamed (reg : Registry) (S : Pubkey) : Prop :=
  (∀ k p, reg.policies k = some p → ¬ p.Of S) ∧ ∀ k a, reg.requests k = some a → ¬ a.Of S

/-- A service is registered at an address that nothing names. -/
def RegistersUnnamed (serviceAddress : String → Pubkey)
    (t : Transition Registry ServiceInstruction) : Prop :=
  ∀ ctx data now, t.call = .createServiceProvider ctx data now →
    Unnamed t.pre (serviceAddress data.code)

/-- Every live request has been numbered. -/
def IdentifiersPositive (requests : ProofRequestSeeds → Option ProofRequestAccount) : Prop :=
  ∀ k a, requests k = some a → 1 ≤ a.identifier

/-- A service of an address that nothing names starts counted. -/
theorem Counted.of_unnamed {reg : Registry} {S : Pubkey} {s : ServiceProviderAccount}
    (h : Unnamed reg S) (hzero : s.policyCount = 0) : Counted reg S s where
  policies := by
    rw [hzero]
    exact censusCard_zero_iff.mpr h.1
  requests := numbered_of_none h.2

/-- A service that starts counted starts at an address that nothing names. -/
theorem Counted.unnamed {reg : Registry} {S : Pubkey} {s : ServiceProviderAccount}
    (h : Counted reg S s) (hzero : s.policyCount = 0 ∧ s.proofRequestCount = 0)
    (hpos : IdentifiersPositive reg.requests) : Unnamed reg S := by
  constructor
  · have hcounts := h.policies
    rw [hzero.1] at hcounts
    exact censusCard_zero_iff.mp hcounts
  · intro k a ha hof
    have hle := h.requests.le k a ha hof
    have hge := hpos k a ha
    omega

/-! ## What a call leaves of a request's service and number -/

theorem acceptProof_service {ctx : ProveProofRequest} {proof : ProofData} {now : Int}
    {req req' : ProofRequest} (h : acceptProof ctx proof now req = .ok req') :
    req'.serviceProvider = req.serviceProvider ∧ req'.identifier = req.identifier := by
  rw [acceptProof] at h
  cases hsig : ctx.circuit.data.signals with
  | none =>
      rw [hsig] at h
      cases h
  | some signals =>
      rw [hsig] at h
      obtain ⟨_, -, h⟩ := bind_ok h
      obtain ⟨expiredAt, -, h⟩ := bind_ok h
      obtain ⟨⟨key, inputs⟩, -, h⟩ := bind_ok h
      obtain rfl := Except.ok.inj h
      exact ⟨rfl, rfl⟩

theorem receiveInputs_service (data : ProveProofRequestData) (req : ProofRequest) :
    (receiveInputs data req).serviceProvider = req.serviceProvider ∧
      (receiveInputs data req).identifier = req.identifier := by
  rw [receiveInputs]
  cases data.reset <;> exact ⟨rfl, rfl⟩

/-- **ONLY A CREATION RENUMBERS**: after any other call a live request was live before,
    for the same service and with the same identifier. -/
theorem service_of_step {rt : Runtime} {seeds : ProofRequestSeeds}
    {acc : Option ProofRequestAccount} {call : Call}
    (hother : ∀ ctx data now, call ≠ .create ctx data now) {b : ProofRequestAccount}
    (h : step rt seeds acc call = .ok (some b)) :
    ∃ a, acc = some a ∧ b.request.serviceProvider = a.request.serviceProvider ∧
      b.identifier = a.identifier := by
  rcases step_cases h with
    ⟨ctx, data, now, req, sp, pol, req', hcall, -, -, -, -⟩ |
    ⟨ctx, data, now, a, req', -, hacc, hf, hb⟩ |
    ⟨ctx, now, a, req', -, hacc, hf, hb⟩ |
    ⟨authority, data, now, a, req', -, hacc, hf, hb⟩ |
    ⟨authority, now, a, -, -, -, hb⟩
  · exact absurd hcall (hother ctx data now)
  · obtain rfl := Option.some.inj hb
    obtain ⟨hsp, hid⟩ := receiveInputs_service data a.request
    obtain ⟨-, -, -, hcase⟩ := proveProofRequest_ok hf
    rcases hcase with ⟨-, rfl⟩ | ⟨proof, -, haccept⟩
    · exact ⟨a, hacc, hsp, hid⟩
    · obtain ⟨hsp', hid'⟩ := acceptProof_service haccept
      exact ⟨a, hacc, hsp'.trans hsp, hid'.trans hid⟩
  · obtain rfl := Option.some.inj hb
    obtain ⟨-, -, rfl⟩ := verifyProofRequest_ok hf
    exact ⟨a, hacc, rfl, rfl⟩
  · obtain rfl := Option.some.inj hb
    obtain ⟨-, rfl⟩ := updateProofRequest_ok hf
    exact ⟨a, hacc, rfl, rfl⟩
  · exact nomatch hb

namespace Registry

variable {rt : Runtime} {serviceAddress : String → Pubkey}
  {policyAddress : Pubkey → String → Pubkey}

/-- Identifiers start at one. -/
theorem identifiersPositive_of_step {reg reg' : Registry} {i : ServiceInstruction}
    (hpos : IdentifiersPositive reg.requests)
    (h : step rt serviceAddress policyAddress reg i = .ok reg') :
    IdentifiersPositive reg'.requests := by
  cases effect_of_step h with
  | createServiceProvider free counts => exact hpos
  | updateServiceProvider service auth counts => exact hpos
  | deleteServiceProvider service => exact hpos
  | createPolicy service free names => exact hpos
  | updatePolicy policy service auth names => exact hpos
  | deletePolicy policy service auth => exact hpos
  | createRequest policy service names numbered moves =>
      intro k b hb
      rcases update_eq_some hb with ⟨-, hb⟩ | ⟨-, hb⟩
      · obtain rfl := Option.some.inj hb
        rw [ProofRequestAccount.identifier, numbered]
        exact Nat.le_add_left 1 _
      · exact hpos k b hb
  | request other moves =>
      intro k b hb
      rcases update_eq_some hb with ⟨-, rfl⟩ | ⟨-, hb⟩
      · obtain ⟨a, ha, -, hid⟩ := service_of_step other moves
        exact hid ▸ hpos _ a ha
      · exact hpos k b hb

theorem identifiersPositive_run {h : List (Transition Registry ServiceInstruction)}
    {reg : Registry} (r : Run (step rt serviceAddress policyAddress) empty h reg) :
    IdentifiersPositive reg.requests := by
  refine r.preserves (P := fun reg => IdentifiersPositive reg.requests) ?_ ?_
  · intro k a ha
    exact nomatch ha
  · intro _ _ _ hpos hs
    exact identifiersPositive_of_step hpos hs

/-- A live service after a write is the one written or one of before. -/
theorem service_cases {P : Pubkey → ServiceProviderAccount → Prop}
    {services : Pubkey → Option ServiceProviderAccount} {k : Pubkey}
    {s : ServiceProviderAccount} (hnew : P k s)
    (hold : ∀ S s', S ≠ k → services S = some s' → P S s') :
    ∀ S s', Function.update services k (some s) S = some s' → P S s' := by
  intro S s' hs'
  rcases update_eq_some hs' with ⟨rfl, heq⟩ | ⟨hne, hs'⟩
  · obtain rfl := Option.some.inj heq
    exact hnew
  · exact hold S s' hne hs'

/-- **ONE TRANSACTION KEEPS THE COUNTERS**, if it registers no service where something
    names it. -/
theorem allCounted_of_step {reg reg' : Registry} {i : ServiceInstruction}
    (hall : AllCounted reg) (h : step rt serviceAddress policyAddress reg i = .ok reg')
    (hreg : RegistersUnnamed serviceAddress ⟨reg, i, reg'⟩) : AllCounted reg' := by
  cases effect_of_step h with
  | @createServiceProvider ctx data now s free counts =>
      refine service_cases ?_ ?_
      · exact Counted.of_unnamed (hreg ctx data now rfl) counts.1
      · intro S s' _ hs'
        exact ⟨(hall S s' hs').policies, (hall S s' hs').requests⟩
  | @updateServiceProvider ctx data remaining s s' service auth counts =>
      -- an update leaves both counters
      have hs := hall _ s service
      refine service_cases ?_ ?_
      · exact ⟨counts.1 ▸ hs.policies, counts.2 ▸ hs.requests⟩
      · intro S s' _ hs'
        exact ⟨(hall S s' hs').policies, (hall S s' hs').requests⟩
  | deleteServiceProvider service =>
      -- what named the service is left behind, but nothing is counted there now
      intro S s' hs'
      rcases update_eq_some hs' with ⟨-, heq⟩ | ⟨-, hs'⟩
      · exact nomatch heq
      · exact ⟨(hall S s' hs').policies, (hall S s' hs').requests⟩
  | @createPolicy ctx data now s p service free names =>
      have hs := hall _ s service
      refine service_cases ?_ ?_
      · exact ⟨hs.policies.insert free names, hs.requests⟩
      · -- the policy is another service's
        intro S s' hne hs'
        have hnot : ¬ p.Of S := fun hof => hne (hof.symm.trans names)
        exact ⟨(hall S s' hs').policies.insert_of_not free hnot, (hall S s' hs').requests⟩
  | @updatePolicy ctx data s p p' policy service auth names =>
      intro S s' hs'
      have hof : p'.Of S ↔ p.Of S := by rw [PolicyAccount.Of, PolicyAccount.Of, names]
      exact ⟨(hall S s' hs').policies.replace policy hof, (hall S s' hs').requests⟩
  | @deletePolicy ctx s p policy service auth =>
      have hs := hall _ s service
      refine service_cases ?_ ?_
      · exact ⟨hs.policies.erase policy rfl, hs.requests⟩
      · intro S s' hne hs'
        have hnot : ¬ p.Of S := fun hof => hne hof.symm
        exact ⟨(hall S s' hs').policies.erase_of_not policy hnot, (hall S s' hs').requests⟩
  | @createRequest seeds ctx data now s p a policy service names numbered moves =>
      have hs := hall _ s service
      -- the policy keeps its service
      have hpolicies : ∀ {S n}, CensusCard reg.policies (PolicyAccount.Of S) n →
          CensusCard (Function.update reg.policies seeds.policy
            (some { p with proofRequestCount := p.proofRequestCount + 1 }))
            (PolicyAccount.Of S) n :=
        fun hn => hn.replace policy Iff.rfl
      refine service_cases ?_ ?_
      · -- a request that is created again gets a new number
        exact ⟨hpolicies hs.policies, hs.requests.assign numbered⟩
      · intro S s' hne hs'
        refine ⟨hpolicies (hall S s' hs').policies, (hall S s' hs').requests.mono ?_⟩
        intro k b hb hof
        rcases update_eq_some hb with ⟨-, hb⟩ | ⟨-, hb⟩
        · obtain rfl := Option.some.inj hb
          exact absurd (hof.symm.trans names) hne
        · exact ⟨b, hb, hof, rfl⟩
  | @request seeds call acc other moves =>
      intro S s' hs'
      refine ⟨(hall S s' hs').policies, (hall S s' hs').requests.mono ?_⟩
      intro k b hb hof
      rcases update_eq_some hb with ⟨rfl, rfl⟩ | ⟨-, hb⟩
      · obtain ⟨a, ha, hsp, hid⟩ := service_of_step other moves
        exact ⟨a, ha, hsp.symm.trans hof, hid⟩
      · exact ⟨b, hb, hof, rfl⟩

/-- A registration after which the counters are right was made where nothing named the
    service. -/
theorem registersUnnamed_of_counted {reg reg' : Registry} {i : ServiceInstruction}
    (hpos : IdentifiersPositive reg.requests)
    (h : step rt serviceAddress policyAddress reg i = .ok reg') (hall : AllCounted reg') :
    RegistersUnnamed serviceAddress ⟨reg, i, reg'⟩ := by
  rintro ctx data now rfl
  cases effect_of_step h with
  | @createServiceProvider _ _ _ s free counts =>
      have hcounted := hall (serviceAddress data.code) s (Function.update_self _ _ _)
      have hun := hcounted.unnamed counts hpos
      exact ⟨hun.1, hun.2⟩

end Registry

/-- **THE COUNTERS ARE RIGHT, EXACTLY WHEN …**  Over every run, in any order: after
    every transaction the policies of every live service are as many as it counts and
    its requests have different identifiers up to its count, if and only if every
    service was registered at an address that no live policy and no live request
    named. -/
theorem counters_iff (rt : Runtime) (serviceAddress : String → Pubkey)
    (policyAddress : Pubkey → String → Pubkey)
    (h : List (Transition Registry ServiceInstruction)) (reg : Registry)
    (r : Run (Registry.step rt serviceAddress policyAddress) Registry.empty h reg) :
    (∀ t ∈ h, AllCounted t.post) ↔ ∀ t ∈ h, RegistersUnnamed serviceAddress t := by
  constructor
  · intro hall t ht
    obtain ⟨_, r', hs⟩ := r.run_of_mem ht
    exact Registry.registersUnnamed_of_counted (Registry.identifiersPositive_run r') hs
      (hall t ht)
  · intro hreg
    refine r.forall_post (P := AllCounted) ?_ ?_ hreg
    · intro S s hs
      exact nomatch hs
    · intro _ _ _ hall hs hG
      exact Registry.allCounted_of_step hall hs hG

namespace CounterSample

/-- A service and its policy. -/
def calls : List ServiceInstruction :=
  [ServiceSample.createService, ServiceSample.createPolicy ServiceSample.manager 0]

/-- The service is deleted and registered again. -/
def reregistered : List ServiceInstruction :=
  calls ++ [ServiceSample.deleteService, ServiceSample.createService]

def run (calls : List ServiceInstruction) :
    List (Transition Registry ServiceInstruction) × Registry :=
  exec ServiceSample.step Registry.empty calls

/-- The service is registered in the empty registry. -/
theorem registersUnnamed_run :
    ∀ t ∈ (run calls).1, RegistersUnnamed ServiceSample.serviceAddress t := by
  have r := run_exec ServiceSample.step Registry.empty calls
  have hcalls : (run calls).1.map (fun t => t.call) = calls.reverse :=
    exec_calls (by decide +kernel)
  have hrun : Run ServiceSample.step Registry.empty (run calls).1 (run calls).2 := r
  obtain ⟨policy, rest, heq, hpolicy, hrest⟩ := List.map_eq_cons_iff.mp hcalls
  obtain ⟨service, rest', rfl, hservice, hnil⟩ := List.map_eq_cons_iff.mp hrest
  obtain rfl := List.map_eq_nil_iff.mp hnil
  rw [heq] at hrun ⊢
  intro t ht
  rcases List.mem_cons.mp ht with rfl | ht
  · intro ctx data now hcall
    exact nomatch hpolicy.symm.trans hcall
  · obtain rfl := List.mem_singleton.mp ht
    intro ctx data now _
    rw [hrun.tail.1.tail.1.eq_start]
    exact ⟨(fun _ _ hp => nomatch hp), (fun _ _ ha => nomatch ha)⟩

end CounterSample

/-- One policy, and a count of one. -/
theorem counters_sample :
    (∃ s ∈ (CounterSample.run CounterSample.calls).2.services (Sample.key 4),
        s.policyCount = 1) ∧
      ∀ t ∈ (CounterSample.run CounterSample.calls).1, AllCounted t.post := by
  refine ⟨by decide +kernel, ?_⟩
  exact (counters_iff ServiceSample.runtime ServiceSample.serviceAddress
    ServiceSample.policyAddress _ _ (run_exec _ Registry.empty _)).mpr
      CounterSample.registersUnnamed_run

/-- **A COUNT OF NONE BESIDE A POLICY**: the service is deleted and registered again,
    and its policy is still there. -/
theorem counters_fail :
    ∃ (h : List (Transition Registry ServiceInstruction)) (reg : Registry),
      Run (Registry.step (deployed false false true .atInfinity)
        ServiceSample.serviceAddress ServiceSample.policyAddress) Registry.empty h reg ∧
      h.map (fun t => t.call) = CounterSample.reregistered.reverse ∧
      ¬ ∀ t ∈ h, AllCounted t.post := by
  refine ⟨_, _, run_exec ServiceSample.step Registry.empty CounterSample.reregistered,
    exec_calls (by decide +kernel), ?_⟩
  intro hall
  have hstate : ∃ t ∈ (CounterSample.run CounterSample.reregistered).1,
      ∃ s ∈ t.post.services (Sample.key 4), s.policyCount = 0 ∧
        ∃ p ∈ t.post.policies (Sample.key 3), p.serviceProvider = Sample.key 4 := by
    decide +kernel
  obtain ⟨t, ht, s, hs, hzero, p, hp, hnames⟩ := hstate
  have hcounts := (hall t ht _ s hs).policies
  rw [hzero] at hcounts
  exact censusCard_zero_iff.mp hcounts _ p hp hnames

end Albus.Program
