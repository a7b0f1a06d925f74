import Albus.Program.WriteAuthority

/-! # Services, their policies and the requests

    `instructions/service_provider/*.rs` and `instructions/policy/*.rs`: the six
    handlers, and the machine they form with the calls on proof requests.  A
    `create_proof_request` holds service and policy by mutable references, so it is
    here that its counters are written back.

    `serviceAddress` and `policyAddress` are the addresses derived from a service's
    code and from a policy's service and code. -/

namespace Albus.Program

open Albus.Lib

/-! ## The accounts, whole -/

structure ContactInfo where
  kind : UInt8
  value : String
  deriving DecidableEq

/-- `ServiceProvider`, with the fields that its own instructions write. -/
structure ServiceProviderAccount where
  authority : Pubkey
  code : String
  name : String
  website : String
  contactInfo : ContactInfo
  proofRequestCount : Nat
  policyCount : Nat
  createdAt : Int
  bump : UInt8
  secretShareThreshold : UInt8
  trustees : List Pubkey
  deriving DecidableEq

namespace ServiceProviderAccount

/-- The fields that the other instructions read. -/
def data (s : ServiceProviderAccount) : ServiceProvider :=
  ⟨s.proofRequestCount, s.secretShareThreshold, s.trustees⟩

/-- The account after a handler has left `d` in those fields. -/
def write (s : ServiceProviderAccount) (d : ServiceProvider) : ServiceProviderAccount :=
  { s with
    proofRequestCount := d.proofRequestCount
    secretShareThreshold := d.secretShareThreshold
    trustees := d.trustees }

/-- What a freshly allocated account decodes to. -/
def zeroed : ServiceProviderAccount where
  authority := .default
  code := ""
  name := ""
  website := ""
  contactInfo := ⟨0, ""⟩
  proofRequestCount := 0
  policyCount := 0
  createdAt := 0
  bump := 0
  secretShareThreshold := 0
  trustees := []

/-- `ServiceProvider::space`: the longest texts, and three trustees. -/
def space : Nat :=
  8 + 32 + (4 + 16) + (4 + 32) + (4 + 200) + (1 + (4 + 128)) + 8 + 8 + 8 + 1 + 1
    + (4 + 3 * 32)

/-- Size of the account's serialization, discriminator included. -/
def serializedLen (s : ServiceProviderAccount) : Nat :=
  8 + 32 + (4 + s.code.utf8ByteSize) + (4 + s.name.utf8ByteSize)
    + (4 + s.website.utf8ByteSize) + (1 + (4 + s.contactInfo.value.utf8ByteSize))
    + 8 + 8 + 8 + 1 + 1 + (4 + s.trustees.length * 32)

end ServiceProviderAccount

/-- `PolicyRule`, with its label. -/
structure LabeledRule where
  key : String
  value : Bytes 32
  label : String
  deriving DecidableEq

def LabeledRule.rule (r : LabeledRule) : PolicyRule := ⟨r.key, r.value⟩

/-- A live `Policy` account: its allocated size, and the fields that its own
    instructions write. -/
structure PolicyAccount where
  space : Nat
  serviceProvider : Pubkey
  circuit : Pubkey
  code : String
  name : String
  description : String
  expirationPeriod : UInt32
  retentionPeriod : UInt32
  proofRequestCount : Nat
  createdAt : Int
  bump : UInt8
  rules : List LabeledRule
  deriving DecidableEq

namespace PolicyAccount

/-- The fields that the other instructions read. -/
def data (p : PolicyAccount) : Policy :=
  ⟨p.serviceProvider, p.circuit, p.expirationPeriod, p.retentionPeriod,
    p.proofRequestCount, p.rules.map LabeledRule.rule⟩

/-- The account after `create_proof_request` has left `d`: of the policy it writes
    the counter alone. -/
def write (p : PolicyAccount) (d : Policy) : PolicyAccount :=
  { p with proofRequestCount := d.proofRequestCount }

/-- `PolicyRule::INIT_SPACE`. -/
def ruleSpace : Nat := (4 + 32) + 32 + (4 + 32)

/-- `Policy::space`. -/
def spaceFor (rulesLen : Nat) : Nat :=
  8 + 32 + 32 + (4 + 16) + (4 + 32) + (4 + 64) + 4 + 4 + 8 + 8 + 1 + 4
    + rulesLen * ruleSpace

/-- Size of the account's serialization, discriminator included. -/
def serializedLen (p : PolicyAccount) : Nat :=
  8 + 32 + 32 + (4 + p.code.utf8ByteSize) + (4 + p.name.utf8ByteSize)
    + (4 + p.description.utf8ByteSize) + 4 + 4 + 8 + 8 + 1 + 4
    + (p.rules.map fun r => (4 + r.key.utf8ByteSize) + 32 + (4 + r.label.utf8ByteSize)).sum

end PolicyAccount

/-- `DEFAULT_SECRET_SHARE_THRESHOLD`. -/
def defaultSecretShareThreshold : UInt8 := 2

/-- `MAX_SEED_LEN`: a longer seed has no derived address. -/
def maxSeedLen : Nat := 32

/-! ## The handlers of a service -/

structure CreateServiceProviderData where
  code : String
  name : String
  website : String
  contactInfo : Option ContactInfo
  authority : Option Pubkey
  secretShareThreshold : Option UInt8
  trustees : Option (List Pubkey)
  deriving DecidableEq

structure CreateServiceProvider where
  authority : Pubkey
  bump : UInt8
  deriving DecidableEq

/-- `create_service_provider::handler`, on the account as it was allocated. -/
def createServiceProvider (rt : Runtime) (ctx : CreateServiceProvider)
    (data : CreateServiceProviderData) (now : Int) (service : ServiceProviderAccount) :
    Except ProgramError ServiceProviderAccount := do
  assertAuthorized rt ctx.authority
  .ok { service with
    authority := data.authority.getD ctx.authority
    code := data.code
    name := data.name
    website := data.website
    contactInfo := data.contactInfo.getD ⟨0, ""⟩
    secretShareThreshold := data.secretShareThreshold.getD defaultSecretShareThreshold
    createdAt := now
    bump := ctx.bump
    trustees := data.trustees.getD service.trustees }

structure UpdateServiceProviderData where
  newAuthority : Option Pubkey
  name : Option String
  website : Option String
  contactInfo : Option ContactInfo
  secretShareThreshold : Option UInt8
  clearTrustees : Bool
  deriving DecidableEq

structure UpdateServiceProvider where
  serviceProvider : Pubkey
  authority : Pubkey
  deriving DecidableEq

/-- The loop over the remaining accounts: an account that is not a trustee, or not a
    verified one, ends it. -/
def pushTrustees : List (Pubkey × Option Trustee) → List Pubkey →
    Except ProgramError (List Pubkey)
  | [], trustees => .ok trustees
  | (_, none) :: _, _ => .error (.albus .invalidData)
  | (key, some trustee) :: rest, trustees => do
      require (trustee.isVerified = true) (.albus .invalidData)
      pushTrustees rest (trustees ++ [key])

/-- `update_service_provider::handler`. -/
def updateServiceProvider (ctx : UpdateServiceProvider) (data : UpdateServiceProviderData)
    (remaining : List (Pubkey × Option Trustee)) (service : ServiceProviderAccount) :
    Except ProgramError ServiceProviderAccount := do
  require (service.authority = ctx.authority) .constraintHasOne
  let cleared :=
    if data.clearTrustees ∨ remaining ≠ [] then [] else service.trustees
  let trustees ← pushTrustees remaining cleared
  .ok { service with
    authority := data.newAuthority.getD service.authority
    name := data.name.getD service.name
    website := data.website.getD service.website
    contactInfo := data.contactInfo.getD service.contactInfo
    secretShareThreshold := data.secretShareThreshold.getD service.secretShareThreshold
    trustees := trustees }

/-! ## The handlers of a policy -/

structure CreatePolicyData where
  code : String
  name : String
  description : String
  expirationPeriod : UInt32
  retentionPeriod : UInt32
  rules : List LabeledRule
  deriving DecidableEq

/-- The accounts of `create_policy`: the signer is not compared with the service. -/
structure CreatePolicy where
  serviceProvider : Pubkey
  circuit : Account Circuit
  authority : Pubkey
  bump : UInt8
  deriving DecidableEq

/-- `create_policy::handler`: the service and the new policy. -/
def createPolicy (ctx : CreatePolicy) (data : CreatePolicyData) (now : Int)
    (service : ServiceProviderAccount) :
    Except ProgramError (ServiceProviderAccount × PolicyAccount) := do
  let policyCount ← incrementU64 service.policyCount
  .ok ({ service with policyCount },
    { space := PolicyAccount.spaceFor data.rules.length
      serviceProvider := ctx.serviceProvider
      circuit := ctx.circuit.key
      code := data.code
      name := data.name
      description := data.description
      expirationPeriod := data.expirationPeriod
      retentionPeriod := data.retentionPeriod
      proofRequestCount := 0
      createdAt := now
      bump := ctx.bump
      rules := data.rules })

structure UpdatePolicyData where
  name : Option String
  description : Option String
  expirationPeriod : Option UInt32
  retentionPeriod : Option UInt32
  rules : Option (List LabeledRule)
  deriving DecidableEq

structure UpdatePolicy where
  policy : Pubkey
  serviceProvider : Pubkey
  authority : Pubkey
  deriving DecidableEq

/-- `update_policy::handler`. -/
def updatePolicy (ctx : UpdatePolicy) (data : UpdatePolicyData) (policy : PolicyAccount)
    (service : ServiceProviderAccount) : Except ProgramError PolicyAccount := do
  require (policy.serviceProvider = ctx.serviceProvider) .constraintHasOne
  require (service.authority = ctx.authority) .constraintHasOne
  .ok { policy with
    name := data.name.getD policy.name
    description := data.description.getD policy.description
    expirationPeriod := data.expirationPeriod.getD policy.expirationPeriod
    retentionPeriod := data.retentionPeriod.getD policy.retentionPeriod
    rules := data.rules.getD policy.rules }

structure DeletePolicy where
  serviceProvider : Pubkey
  policy : Pubkey
  authority : Pubkey
  deriving DecidableEq

/-- `delete_policy::handler`: the service; `saturating_sub` is the subtraction of
    `Nat`. -/
def deletePolicy (ctx : DeletePolicy) (policy : PolicyAccount)
    (service : ServiceProviderAccount) : Except ProgramError ServiceProviderAccount := do
  require (service.authority = ctx.authority) (.albus .unauthorized)
  require (policy.serviceProvider = ctx.serviceProvider) .constraintHasOne
  .ok { service with policyCount := service.policyCount - 1 }

/-! ## The machine -/

structure Registry where
  services : Pubkey → Option ServiceProviderAccount
  policies : Pubkey → Option PolicyAccount
  requests : ProofRequestSeeds → Option ProofRequestAccount

inductive ServiceInstruction where
  | createServiceProvider (ctx : CreateServiceProvider) (data : CreateServiceProviderData)
      (now : Int)
  | updateServiceProvider (ctx : UpdateServiceProvider) (data : UpdateServiceProviderData)
      (remaining : List (Pubkey × Option Trustee))
  | deleteServiceProvider (serviceProvider authority : Pubkey)
  | createPolicy (ctx : CreatePolicy) (data : CreatePolicyData) (now : Int)
  | updatePolicy (ctx : UpdatePolicy) (data : UpdatePolicyData)
  | deletePolicy (ctx : DeletePolicy)
  | request (seeds : ProofRequestSeeds) (call : Call)
  deriving DecidableEq

/-- The `authority: Signer` of an instruction. -/
def ServiceInstruction.signer : ServiceInstruction → Pubkey
  | .createServiceProvider ctx _ _ => ctx.authority
  | .updateServiceProvider ctx _ _ => ctx.authority
  | .deleteServiceProvider _ authority => authority
  | .createPolicy ctx _ _ => ctx.authority
  | .updatePolicy ctx _ => ctx.authority
  | .deletePolicy ctx => ctx.authority
  | .request _ call => call.signer

namespace Registry

/-- No account exists. -/
def empty : Registry where
  services _ := none
  policies _ := none
  requests _ := none

variable (rt : Runtime) (serviceAddress : String → Pubkey)
  (policyAddress : Pubkey → String → Pubkey)

/-- The account at an address. -/
def live {α : Type} (m : Pubkey → Option α) (address : Pubkey) : Except ProgramError α :=
  match m address with
  | some a => .ok a
  | none => .error .accountNotInitialized

/-- `init`: the address is derived from the seeds, and nothing is there. -/
def initAt {α : Type} (m : Pubkey → Option α) (code : String) (address : Pubkey) :
    Except ProgramError Unit := do
  require (code.utf8ByteSize ≤ maxSeedLen) .panicked
  require (m address = none) .accountAlreadyInUse

/-- Anchor's exit: the data must fit the allocated account. -/
def exitWith (len space : Nat) : Except ProgramError Unit :=
  require (len ≤ space) .accountDidNotSerialize

/-- The service and the policy that a call brings are the live ones. -/
def Loads (reg : Registry) : Call → Prop
  | .create ctx _ _ =>
      (reg.services ctx.serviceProvider.key).map ServiceProviderAccount.data
          = some ctx.serviceProvider.data ∧
        (reg.policies ctx.policy.key).map PolicyAccount.data = some ctx.policy.data
  | .prove ctx _ _ =>
      (reg.policies ctx.policy.key).map PolicyAccount.data = some ctx.policy.data
  | _ => True

instance (reg : Registry) : (c : Call) → Decidable (reg.Loads c)
  | .create _ _ _ => inferInstanceAs (Decidable (_ ∧ _))
  | .prove _ _ _ => inferInstanceAs (Decidable (_ = _))
  | .verify _ _ => isTrue trivial
  | .update _ _ _ => isTrue trivial
  | .delete _ _ => isTrue trivial

/-- `create_proof_request`: as the request's own machine has it, with service and
    policy written back.  Their counters are of a fixed size, so they still fit. -/
def createRequest (reg : Registry) (seeds : ProofRequestSeeds) (ctx : CreateProofRequest)
    (data : CreateProofRequestData) (now : Int) : Except ProgramError Registry := do
  require (seeds = ⟨ctx.policy.key, ctx.authority⟩) .constraintSeeds
  let space := ProofRequest.space data.maxPublicInputs
  let req ← initIfNeeded (reg.requests seeds) space
  let (service, policy, req') ← createProofRequest ctx data now req
  let acc ← exitAccount space req'
  .ok
    { services := Function.update reg.services ctx.serviceProvider.key
        ((reg.services ctx.serviceProvider.key).map fun s => s.write service)
      policies := Function.update reg.policies ctx.policy.key
        ((reg.policies ctx.policy.key).map fun p => p.write policy)
      requests := Function.update reg.requests seeds acc }

/-- One transaction. -/
def step (reg : Registry) : ServiceInstruction → Except ProgramError Registry
  | .createServiceProvider ctx data now => do
      let address := serviceAddress data.code
      initAt reg.services data.code address
      let service ← createServiceProvider rt ctx data now .zeroed
      exitWith service.serializedLen ServiceProviderAccount.space
      .ok { reg with services := Function.update reg.services address (some service) }
  | .updateServiceProvider ctx data remaining => do
      let service ← live reg.services ctx.serviceProvider
      let service ← updateServiceProvider ctx data remaining service
      exitWith service.serializedLen ServiceProviderAccount.space
      .ok { reg with
        services := Function.update reg.services ctx.serviceProvider (some service) }
  | .deleteServiceProvider serviceProvider authority => do
      let _ ← live reg.services serviceProvider
      assertAuthorized rt authority
      .ok { reg with services := Function.update reg.services serviceProvider none }
  | .createPolicy ctx data now => do
      let address := policyAddress ctx.serviceProvider data.code
      let service ← live reg.services ctx.serviceProvider
      initAt reg.policies data.code address
      let (service, policy) ← createPolicy ctx data now service
      exitWith policy.serializedLen policy.space
      .ok { reg with
        services := Function.update reg.services ctx.serviceProvider (some service)
        policies := Function.update reg.policies address (some policy) }
  | .updatePolicy ctx data => do
      let policy ← live reg.policies ctx.policy
      let service ← live reg.services ctx.serviceProvider
      let policy ← updatePolicy ctx data policy service
      exitWith policy.serializedLen policy.space
      .ok { reg with policies := Function.update reg.policies ctx.policy (some policy) }
  | .deletePolicy ctx => do
      let service ← live reg.services ctx.serviceProvider
      let policy ← live reg.policies ctx.policy
      let service ← deletePolicy ctx policy service
      .ok { reg with
        services := Function.update reg.services ctx.serviceProvider (some service)
        policies := Function.update reg.policies ctx.policy none }
  | .request seeds call => do
      require (reg.Loads call) .accountNotInitialized
      match call with
      | .create ctx data now => createRequest reg seeds ctx data now
      | call => do
          let acc ← Program.step rt seeds (reg.requests seeds) call
          .ok { reg with requests := Function.update reg.requests seeds acc }

end Registry

/-! ## What each handler can do -/

theorem createServiceProvider_ok {rt : Runtime} {ctx : CreateServiceProvider}
    {data : CreateServiceProviderData} {now : Int} {s s' : ServiceProviderAccount}
    (h : createServiceProvider rt ctx data now s = .ok s') :
    (rt.authorizedAuthority = [] ∨ ctx.authority ∈ rt.authorizedAuthority) ∧
      s'.policyCount = s.policyCount ∧ s'.proofRequestCount = s.proofRequestCount := by
  obtain ⟨u, hauth, h⟩ := bind_ok h
  obtain rfl := Except.ok.inj h
  exact ⟨require_ok hauth, rfl, rfl⟩

theorem updateServiceProvider_ok {ctx : UpdateServiceProvider}
    {data : UpdateServiceProviderData} {remaining : List (Pubkey × Option Trustee)}
    {s s' : ServiceProviderAccount}
    (h : updateServiceProvider ctx data remaining s = .ok s') :
    s.authority = ctx.authority ∧ s'.policyCount = s.policyCount ∧
      s'.proofRequestCount = s.proofRequestCount := by
  obtain ⟨hauth, h⟩ := require_bind_ok h
  obtain ⟨trustees, -, h⟩ := bind_ok h
  obtain rfl := Except.ok.inj h
  exact ⟨hauth, rfl, rfl⟩

theorem incrementU64_ok {n m : Nat} (h : incrementU64 n = .ok m) : m = n + 1 := by
  rw [incrementU64] at h
  split at h
  · exact (Except.ok.inj h).symm
  · exact nomatch h

theorem createPolicy_ok {ctx : CreatePolicy} {data : CreatePolicyData} {now : Int}
    {s s' : ServiceProviderAccount} {p : PolicyAccount}
    (h : createPolicy ctx data now s = .ok (s', p)) :
    s' = { s with policyCount := s.policyCount + 1 } ∧
      p.serviceProvider = ctx.serviceProvider := by
  obtain ⟨count, hcount, h⟩ := bind_ok h
  obtain rfl := incrementU64_ok hcount
  obtain ⟨rfl, rfl⟩ := Prod.mk.inj (Except.ok.inj h)
  exact ⟨rfl, rfl⟩

theorem updatePolicy_ok {ctx : UpdatePolicy} {data : UpdatePolicyData}
    {p p' : PolicyAccount} {s : ServiceProviderAccount}
    (h : updatePolicy ctx data p s = .ok p') :
    p.serviceProvider = ctx.serviceProvider ∧ s.authority = ctx.authority ∧
      p'.serviceProvider = p.serviceProvider := by
  obtain ⟨hone, h⟩ := require_bind_ok h
  obtain ⟨hauth, h⟩ := require_bind_ok h
  obtain rfl := Except.ok.inj h
  exact ⟨hone, hauth, rfl⟩

theorem deletePolicy_ok {ctx : DeletePolicy} {p : PolicyAccount}
    {s s' : ServiceProviderAccount} (h : deletePolicy ctx p s = .ok s') :
    s.authority = ctx.authority ∧ p.serviceProvider = ctx.serviceProvider ∧
      s' = { s with policyCount := s.policyCount - 1 } := by
  obtain ⟨hauth, h⟩ := require_bind_ok h
  obtain ⟨hone, h⟩ := require_bind_ok h
  exact ⟨hauth, hone, (Except.ok.inj h).symm⟩

/-- A creation counts the request, and numbers it by the service's count. -/
theorem createProofRequest_counts {ctx : CreateProofRequest}
    {data : CreateProofRequestData} {now : Int} {req req' : ProofRequest}
    {sp : ServiceProvider} {pol : Policy}
    (h : createProofRequest ctx data now req = .ok (sp, pol, req')) :
    ctx.policy.data.serviceProvider = ctx.serviceProvider.key ∧
      sp = { ctx.serviceProvider.data with
        proofRequestCount := ctx.serviceProvider.data.proofRequestCount + 1 } ∧
      pol = { ctx.policy.data with
        proofRequestCount := ctx.policy.data.proofRequestCount + 1 } ∧
      req'.serviceProvider = ctx.serviceProvider.key ∧
      req'.identifier = ctx.serviceProvider.data.proofRequestCount + 1 := by
  obtain ⟨hone, h⟩ := require_bind_ok h
  obtain ⟨policyCount, hpolicy, h⟩ := bind_ok h
  obtain ⟨serviceCount, hservice, h⟩ := bind_ok h
  obtain rfl := incrementU64_ok hpolicy
  obtain rfl := incrementU64_ok hservice
  have hall := Except.ok.inj h
  have hreq := congrArg (fun x => x.2.2) hall
  subst hreq
  exact ⟨hone, (congrArg (fun x => x.1) hall).symm, (congrArg (fun x => x.2.1) hall).symm,
    rfl, rfl⟩

namespace Registry

variable {rt : Runtime} {serviceAddress : String → Pubkey}
  {policyAddress : Pubkey → String → Pubkey}

theorem live_ok {α : Type} {m : Pubkey → Option α} {address : Pubkey} {a : α}
    (h : live m address = .ok a) : m address = some a := by
  rw [live] at h
  cases hm : m address with
  | none =>
      rw [hm] at h
      exact nomatch h
  | some b =>
      rw [hm] at h
      exact congrArg some (Except.ok.inj h)

theorem initAt_ok {α : Type} {m : Pubkey → Option α} {code : String} {address : Pubkey}
    {u : Unit} (h : initAt m code address = .ok u) : m address = none := by
  obtain ⟨-, h⟩ := require_bind_ok h
  exact require_ok h

/-- What a successful transaction does to the registry. -/
inductive Effect (rt : Runtime) (serviceAddress : String → Pubkey)
    (policyAddress : Pubkey → String → Pubkey) (reg : Registry) :
    ServiceInstruction → Registry → Prop where
  | createServiceProvider {ctx : CreateServiceProvider} {data : CreateServiceProviderData}
      {now : Int} {s : ServiceProviderAccount}
      (free : reg.services (serviceAddress data.code) = none)
      (counts : s.policyCount = 0 ∧ s.proofRequestCount = 0) :
      Effect rt serviceAddress policyAddress reg (.createServiceProvider ctx data now)
        { reg with
          services := Function.update reg.services (serviceAddress data.code) (some s) }
  | updateServiceProvider {ctx : UpdateServiceProvider} {data : UpdateServiceProviderData}
      {remaining : List (Pubkey × Option Trustee)} {s s' : ServiceProviderAccount}
      (service : reg.services ctx.serviceProvider = some s)
      (auth : s.authority = ctx.authority)
      (counts : s'.policyCount = s.policyCount ∧
        s'.proofRequestCount = s.proofRequestCount) :
      Effect rt serviceAddress policyAddress reg (.updateServiceProvider ctx data remaining)
        { reg with
          services := Function.update reg.services ctx.serviceProvider (some s') }
  | deleteServiceProvider {serviceProvider authority : Pubkey} {s : ServiceProviderAccount}
      (service : reg.services serviceProvider = some s) :
      Effect rt serviceAddress policyAddress reg (.deleteServiceProvider serviceProvider authority)
        { reg with services := Function.update reg.services serviceProvider none }
  | createPolicy {ctx : CreatePolicy} {data : CreatePolicyData} {now : Int}
      {s : ServiceProviderAccount} {p : PolicyAccount}
      (service : reg.services ctx.serviceProvider = some s)
      (free : reg.policies (policyAddress ctx.serviceProvider data.code) = none)
      (names : p.serviceProvider = ctx.serviceProvider) :
      Effect rt serviceAddress policyAddress reg (.createPolicy ctx data now)
        { reg with
          services := Function.update reg.services ctx.serviceProvider
            (some { s with policyCount := s.policyCount + 1 })
          policies := Function.update reg.policies
            (policyAddress ctx.serviceProvider data.code) (some p) }
  | updatePolicy {ctx : UpdatePolicy} {data : UpdatePolicyData} {s : ServiceProviderAccount}
      {p p' : PolicyAccount} (policy : reg.policies ctx.policy = some p)
      (service : reg.services p.serviceProvider = some s)
      (auth : s.authority = ctx.authority)
      (names : p'.serviceProvider = p.serviceProvider) :
      Effect rt serviceAddress policyAddress reg (.updatePolicy ctx data)
        { reg with policies := Function.update reg.policies ctx.policy (some p') }
  | deletePolicy {ctx : DeletePolicy} {s : ServiceProviderAccount} {p : PolicyAccount}
      (policy : reg.policies ctx.policy = some p)
      (service : reg.services p.serviceProvider = some s)
      (auth : s.authority = ctx.authority) :
      Effect rt serviceAddress policyAddress reg (.deletePolicy ctx)
        { reg with
          services := Function.update reg.services p.serviceProvider
            (some { s with policyCount := s.policyCount - 1 })
          policies := Function.update reg.policies ctx.policy none }
  | createRequest {seeds : ProofRequestSeeds} {ctx : CreateProofRequest}
      {data : CreateProofRequestData} {now : Int} {s : ServiceProviderAccount}
      {p : PolicyAccount} {a : ProofRequestAccount}
      (policy : reg.policies seeds.policy = some p)
      (service : reg.services p.serviceProvider = some s)
      (names : a.request.serviceProvider = p.serviceProvider)
      (numbered : a.request.identifier = s.proofRequestCount + 1)
      (moves : Program.step rt seeds (reg.requests seeds) (.create ctx data now)
        = .ok (some a)) :
      Effect rt serviceAddress policyAddress reg (.request seeds (.create ctx data now))
        { services := Function.update reg.services p.serviceProvider
            (some { s with proofRequestCount := s.proofRequestCount + 1 })
          policies := Function.update reg.policies seeds.policy
            (some { p with proofRequestCount := p.proofRequestCount + 1 })
          requests := Function.update reg.requests seeds (some a) }
  | request {seeds : ProofRequestSeeds} {call : Call} {acc : Option ProofRequestAccount}
      (other : ∀ ctx data now, call ≠ .create ctx data now)
      (moves : Program.step rt seeds (reg.requests seeds) call = .ok acc) :
      Effect rt serviceAddress policyAddress reg (.request seeds call)
        { reg with requests := Function.update reg.requests seeds acc }

/-- A creation of a request, with the accounts it loads. -/
theorem effect_of_createRequest {reg reg' : Registry} {seeds : ProofRequestSeeds}
    {ctx : CreateProofRequest} {data : CreateProofRequestData} {now : Int}
    (hloads : reg.Loads (.create ctx data now))
    (h : createRequest reg seeds ctx data now = .ok reg') :
    Effect rt serviceAddress policyAddress reg (.request seeds (.create ctx data now))
      reg' := by
  obtain ⟨hservice, hpolicy⟩ := hloads
  obtain ⟨s, hs, hsdata⟩ := Option.map_eq_some_iff.mp hservice
  obtain ⟨p, hp, hpdata⟩ := Option.map_eq_some_iff.mp hpolicy
  obtain ⟨hseeds, h⟩ := require_bind_ok h
  obtain ⟨req, hinit, h⟩ := bind_ok h
  obtain ⟨⟨sp, pol, req'⟩, hcreate, h⟩ := bind_ok h
  obtain ⟨acc, hexit, h⟩ := bind_ok h
  -- the request moves as in its own machine
  have hmoves : Program.step rt seeds (reg.requests seeds) (.create ctx data now)
      = .ok acc := by
    rw [Program.step, require, if_pos hseeds]
    show (initIfNeeded (reg.requests seeds) (ProofRequest.space data.maxPublicInputs) >>= _) = _
    rw [hinit]
    show (createProofRequest ctx data now req >>= _) = _
    rw [hcreate]
    exact hexit
  rw [exitAccount_ok hexit] at hmoves h
  obtain ⟨hone, rfl, rfl, hnames, hnumber⟩ := createProofRequest_counts hcreate
  -- the accounts of the context are those at the request's own addresses
  have hkey : ctx.policy.key = seeds.policy := by rw [hseeds]
  have hnamed : p.serviceProvider = ctx.serviceProvider.key := by
    rw [← hone, ← hpdata]
    rfl
  obtain rfl := Except.ok.inj h
  rw [← hsdata] at hnumber
  rw [hs, hp, ← hsdata, ← hpdata, hkey, ← hnamed]
  exact .createRequest (hkey ▸ hp) (hnamed ▸ hs) (hnames.trans hnamed.symm) hnumber hmoves

/-- A call on a request that is not a creation moves that request alone. -/
theorem effect_of_call {reg reg' : Registry} {seeds : ProofRequestSeeds} {call : Call}
    (hother : ∀ ctx data now, call ≠ .create ctx data now)
    (h : (do
      let acc ← Program.step rt seeds (reg.requests seeds) call
      .ok { reg with requests := Function.update reg.requests seeds acc }) = .ok reg') :
    Effect rt serviceAddress policyAddress reg (.request seeds call) reg' := by
  obtain ⟨acc, hacc, h⟩ := bind_ok h
  obtain rfl := Except.ok.inj h
  exact .request hother hacc

/-- **EVERY TRANSACTION HAS ITS EFFECT.** -/
theorem effect_of_step {reg reg' : Registry} {i : ServiceInstruction}
    (h : step rt serviceAddress policyAddress reg i = .ok reg') :
    Effect rt serviceAddress policyAddress reg i reg' := by
  cases i with
  | createServiceProvider ctx data now =>
      obtain ⟨_, hinit, h⟩ := bind_ok h
      obtain ⟨s, hcreate, h⟩ := bind_ok h
      obtain ⟨-, h⟩ := require_bind_ok h
      obtain rfl := Except.ok.inj h
      exact .createServiceProvider (initAt_ok hinit) (createServiceProvider_ok hcreate).2
  | updateServiceProvider ctx data remaining =>
      obtain ⟨s, hlive, h⟩ := bind_ok h
      obtain ⟨s', hupdate, h⟩ := bind_ok h
      obtain ⟨-, h⟩ := require_bind_ok h
      obtain rfl := Except.ok.inj h
      obtain ⟨hauth, hcounts⟩ := updateServiceProvider_ok hupdate
      exact .updateServiceProvider (live_ok hlive) hauth hcounts
  | deleteServiceProvider serviceProvider authority =>
      obtain ⟨s, hlive, h⟩ := bind_ok h
      obtain ⟨_, -, h⟩ := bind_ok h
      obtain rfl := Except.ok.inj h
      exact .deleteServiceProvider (live_ok hlive)
  | createPolicy ctx data now =>
      obtain ⟨s, hlive, h⟩ := bind_ok h
      obtain ⟨_, hinit, h⟩ := bind_ok h
      obtain ⟨⟨s', p⟩, hcreate, h⟩ := bind_ok h
      obtain ⟨-, h⟩ := require_bind_ok h
      obtain ⟨rfl, hnames⟩ := createPolicy_ok hcreate
      obtain rfl := Except.ok.inj h
      exact .createPolicy (live_ok hlive) (initAt_ok hinit) hnames
  | updatePolicy ctx data =>
      obtain ⟨p, hpolicy, h⟩ := bind_ok h
      obtain ⟨s, hservice, h⟩ := bind_ok h
      obtain ⟨p', hupdate, h⟩ := bind_ok h
      obtain ⟨-, h⟩ := require_bind_ok h
      obtain rfl := Except.ok.inj h
      obtain ⟨hone, hauth, hnames⟩ := updatePolicy_ok hupdate
      exact .updatePolicy (live_ok hpolicy) (hone ▸ live_ok hservice) hauth hnames
  | deletePolicy ctx =>
      -- the policy is tied to the service by `has_one`
      obtain ⟨s, hservice, h⟩ := bind_ok h
      obtain ⟨p, hpolicy, h⟩ := bind_ok h
      obtain ⟨s', hdelete, h⟩ := bind_ok h
      obtain ⟨hauth, hone, rfl⟩ := deletePolicy_ok hdelete
      obtain rfl := Except.ok.inj h
      rw [← hone]
      exact .deletePolicy (live_ok hpolicy) (hone ▸ live_ok hservice) hauth
  | request seeds call =>
      obtain ⟨hloads, h⟩ := require_bind_ok h
      cases call with
      | create ctx data now => exact effect_of_createRequest hloads h
      | prove ctx data now => exact effect_of_call (fun _ _ _ heq => nomatch heq) h
      | verify ctx now => exact effect_of_call (fun _ _ _ heq => nomatch heq) h
      | update authority data now => exact effect_of_call (fun _ _ _ heq => nomatch heq) h
      | delete authority now => exact effect_of_call (fun _ _ _ heq => nomatch heq) h

/-- A transaction leaves the request at `seeds` alone, or is a call on it. -/
theorem request_step {reg reg' : Registry} {i : ServiceInstruction}
    (h : step rt serviceAddress policyAddress reg i = .ok reg')
    (seeds : ProofRequestSeeds) :
    reg'.requests seeds = reg.requests seeds ∨
      ∃ call, i = .request seeds call ∧
        Program.step rt seeds (reg.requests seeds) call = .ok (reg'.requests seeds) := by
  have hcall : ∀ {seeds' call acc},
      i = .request seeds' call →
      reg'.requests = Function.update reg.requests seeds' acc →
      Program.step rt seeds' (reg.requests seeds') call = .ok acc →
      reg'.requests seeds = reg.requests seeds ∨
        ∃ call, i = .request seeds call ∧
          Program.step rt seeds (reg.requests seeds) call = .ok (reg'.requests seeds) := by
    intro seeds' call acc hi hpost hmoves
    rw [hpost]
    by_cases heq : seeds = seeds'
    · subst heq
      exact Or.inr ⟨call, hi, by rw [Function.update_self]; exact hmoves⟩
    · exact Or.inl (Function.update_of_ne heq _ _)
  cases effect_of_step h with
  | createServiceProvider free counts => exact Or.inl rfl
  | updateServiceProvider service auth counts => exact Or.inl rfl
  | deleteServiceProvider service => exact Or.inl rfl
  | createPolicy service free names => exact Or.inl rfl
  | updatePolicy policy service auth names => exact Or.inl rfl
  | deletePolicy policy service auth => exact Or.inl rfl
  | createRequest policy service names numbered moves => exact hcall rfl rfl moves
  | request other moves => exact hcall rfl rfl moves

/-- The calls of a run on one request are a run of the request's machine. -/
theorem request_run {h : List (Transition Registry ServiceInstruction)} {reg : Registry}
    (r : Run (step rt serviceAddress policyAddress) empty h reg)
    (seeds : ProofRequestSeeds) :
    ∃ h', Run (Program.step rt seeds) none h' (reg.requests seeds) := by
  induction r with
  | init => exact ⟨[], Run.init⟩
  | step _ hs ih =>
      obtain ⟨h', r'⟩ := ih
      rcases request_step hs seeds with heq | ⟨call, -, hcall⟩
      · rw [heq]
        exact ⟨h', r'⟩
      · exact ⟨_, r'.step hcall⟩

end Registry

/-! ## A small service -/

namespace ServiceSample

def runtime : Runtime := deployed false false true .atInfinity

/-- The authority compiled into the program. -/
def root : Pubkey := pubkey "AuthxkATW25YDWX4kyDLh5qFMV1VhxKtRC9FBHh2JwZR"

/-- The authority of the service. -/
def manager : Pubkey := Sample.key 6

def serviceAddress (_ : String) : Pubkey := Sample.key 4

def policyAddress (_ : Pubkey) (_ : String) : Pubkey := Sample.key 3

def step : Registry → ServiceInstruction → Except ProgramError Registry :=
  Registry.step runtime serviceAddress policyAddress

def createService : ServiceInstruction :=
  .createServiceProvider { authority := root, bump := 255 }
    { code := "acme", name := "Acme", website := "", contactInfo := none,
      authority := some manager, secretShareThreshold := none, trustees := none }
    Sample.now

/-- A policy under the service, signed by `authority`. -/
def createPolicy (authority : Pubkey) (retentionPeriod : UInt32) : ServiceInstruction :=
  .createPolicy
    { serviceProvider := Sample.key 4
      circuit := Sample.circuit [] 0
      authority
      bump := 255 }
    { code := "age", name := "Age", description := "", expirationPeriod := 0,
      retentionPeriod, rules := [] }
    Sample.now

def deleteService : ServiceInstruction := .deleteServiceProvider (Sample.key 4) root

end ServiceSample

end Albus.Program
