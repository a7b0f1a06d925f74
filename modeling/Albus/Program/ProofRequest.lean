import Albus.Lib.Run
import Albus.Program.Groth16
import Albus.Program.Rules

/-! # The proof-request instructions

    `instructions/proof_request/*.rs`: the five handlers that write a
    `ProofRequest`, with the account constraints Anchor checks around them, and
    the machine they form on one request account.

    A request lives at the address derived from its policy and its owner; the
    derivation is taken as collision-free, so an address IS that pair
    (`ProofRequestSeeds`).  Every call brings the accounts it was given; nothing
    is assumed of them beyond what the handler and its constraints check, so
    every other instruction may change them between calls.  A failing
    transaction leaves no effect, a panic included. -/

namespace Albus.Program

open Albus.Lib

inductive AlbusError where
  | unauthorized
  | unproved
  | unverified
  | expired
  | invalidData
  | proofVerificationFailed
  | invalidPublicInputs
  deriving DecidableEq, Repr

/-- Why a transaction fails: an error of the program, a violated account
    constraint, or a panic. -/
inductive ProgramError where
  | albus (e : AlbusError)
  | constraintHasOne
  | constraintSeeds
  | constraintSpace
  | accountAlreadyInUse
  | accountNotInitialized
  | accountDidNotSerialize
  | panicked
  deriving DecidableEq, Repr

/-- What is compiled into the program, and the syscalls it runs on. -/
structure Runtime where
  /-- `AUTHORIZED_AUTHORITY`, which depends on the build features. -/
  authorizedAuthority : List Pubkey
  /-- The `verify-on-chain` feature. -/
  verifyOnChain : Bool
  altBn128 : AltBn128

/-! ## Constants -/

def base58Alphabet : List Char :=
  "123456789ABCDEFGHJKLMNPQRSTUVWXYZabcdefghijkmnopqrstuvwxyz".toList

/-- `pubkey!`: the key that a base-58 text denotes. -/
def pubkey (text : String) : Pubkey :=
  Bytes.ofNum 32 (text.toList.foldl (fun n c => n * 58 + base58Alphabet.idxOf c) 0)

/-- `AUTHORIZED_AUTHORITY`, with the features `testing` and `devnet`. -/
def authorizedAuthority (testing devnet : Bool) : List Pubkey :=
  (if testing then [pubkey "4kMtMnYWFbsMc7M3jcdnfCceHaiXmrqaMz2QZQAmn88i"] else [])
    ++ (if devnet then [pubkey "5tWk9EZcMpdKzxVGr4ZakZDHdWiqVJkLQ1b3v2vraDeH"] else [])
    ++ [pubkey "AuthxkATW25YDWX4kyDLh5qFMV1VhxKtRC9FBHh2JwZR"]

def metaValidUntilSignal : String := "meta_validUntil"

def issuerPkSignal : String := "issuerPk"

def timestampSignal : String := "timestamp"

def timestampThreshold : Int := 60

/-- `bytes_to_num`: the last eight bytes, most significant first. -/
def bytesToNum (bytes : Bytes 32) : Nat := beNat (bytes.toList.drop 24)

theorem bytesToNum_eq (bytes : Bytes 32) :
    bytesToNum bytes = bytes.toNum % 2 ^ 64 := by
  have hlen : bytes.toList.length = 32 := Vector.length_toList
  have h0 := beNat_drop bytes.toList (k := 8) (by omega)
  rw [hlen] at h0
  exact h0

/-- A constraint or a check of a handler. -/
def require (cond : Prop) [Decidable cond] (e : ProgramError) :
    Except ProgramError Unit :=
  if cond then .ok () else .error e

/-! ## create_proof_request -/

structure CreateProofRequestData where
  expiresIn : UInt32
  maxPublicInputs : UInt8
  deriving DecidableEq

/-- The accounts of `create_proof_request`, the request itself apart. -/
structure CreateProofRequest where
  serviceProvider : Account ServiceProvider
  policy : Account Policy
  authority : Pubkey
  bump : UInt8
  deriving DecidableEq

/-- `u64` counters: `+= 1` under overflow checks. -/
def incrementU64 (n : Nat) : Except ProgramError Nat :=
  if n + 1 < 2 ^ 64 then .ok (n + 1) else .error .panicked

/-- The expiry a creation sets; without any period the field keeps what the
    account held. -/
def requestExpiry (policy : Policy) (data : CreateProofRequestData) (now : Int)
    (current : Int) : Int :=
  if 0 < data.expiresIn then
    saturatingAddI64 now data.expiresIn.toNat
  else if 0 < policy.expirationPeriod then
    saturatingAddI64 now policy.expirationPeriod.toNat
  else current

/-- `create_proof_request::handler`: the service, the policy and the request
    afterwards.  Proof, public inputs and issuer of `req` are not touched. -/
def createProofRequest (ctx : CreateProofRequest) (data : CreateProofRequestData)
    (now : Int) (req : ProofRequest) :
    Except ProgramError (ServiceProvider × Policy × ProofRequest) := do
  require (ctx.policy.data.serviceProvider = ctx.serviceProvider.key)
    .constraintHasOne
  let policyCount ← incrementU64 ctx.policy.data.proofRequestCount
  let serviceCount ← incrementU64 ctx.serviceProvider.data.proofRequestCount
  let policy := { ctx.policy.data with proofRequestCount := policyCount }
  .ok ({ ctx.serviceProvider.data with proofRequestCount := serviceCount }, policy,
    { req with
      serviceProvider := ctx.serviceProvider.key
      policy := ctx.policy.key
      circuit := policy.circuit
      owner := ctx.authority
      identifier := serviceCount
      provedAt := 0
      verifiedAt := 0
      createdAt := now
      status := .pending
      bump := ctx.bump
      expiredAt := requestExpiry policy data now req.expiredAt })

/-! ## prove_proof_request -/

structure ProveProofRequestData where
  proof : Option ProofData
  publicInputs : List (Bytes 32)
  reset : Bool
  deriving DecidableEq

/-- The accounts of `prove_proof_request`, the request itself apart. -/
structure ProveProofRequest where
  circuit : Account Circuit
  policy : Account Policy
  issuer : Option (Account Issuer)
  authority : Pubkey
  deriving DecidableEq

/-- What every prove call does first: the reset, and the chunk of inputs. -/
def receiveInputs (data : ProveProofRequestData) (req : ProofRequest) :
    ProofRequest :=
  let req :=
    if data.reset then
      { req with
        status := .pending
        provedAt := 0
        proof := none
        issuer := .default
        publicInputs := [] }
    else req
  { req with publicInputs := req.publicInputs ++ data.publicInputs }

/-- Indexing of a `Vec`: out of bounds panics. -/
def inputAt (inputs : List (Bytes 32)) (i : Nat) :
    Except ProgramError (Bytes 32) :=
  match inputs[i]? with
  | some b => .ok b
  | none => .error .panicked

/-- `// validate timestamp` -/
def validateTimestamp (signals : Signals) (inputs : List (Bytes 32)) (now : Int) :
    Except ProgramError Unit :=
  match signals.get timestampSignal with
  | none => .ok ()
  | some s => do
      let input ← inputAt inputs s.index
      -- `timestamp - TIMESTAMP_THRESHOLD as i64` under overflow checks
      require (i64Min ≤ now - timestampThreshold) .panicked
      require (now - timestampThreshold ≤ asI64 (bytesToNum input))
        (.albus .invalidData)

/-- `// validate expiration`: the new expiry of the request. -/
def validateExpiration (signals : Signals) (inputs : List (Bytes 32)) (now : Int)
    (expiredAt : Int) : Except ProgramError Int :=
  match signals.get metaValidUntilSignal with
  | none => .ok expiredAt
  | some s => do
      let input ← inputAt inputs s.index
      -- `i64::try_from(input).expect(..)`
      require ((bytesToNum input : Int) ≤ i64Max) .panicked
      let validUntil : Int := bytesToNum input
      require (now < validUntil) (.albus .expired)
      .ok (if expiredAt = 0 ∨ validUntil < expiredAt then validUntil else expiredAt)

/-- `// validate issuer`: the issuer field and the inputs afterwards. -/
def validateIssuer (signals : Signals) (issuer : Option (Account Issuer))
    (inputs : List (Bytes 32)) :
    Except ProgramError (Pubkey × List (Bytes 32)) :=
  match signals.get issuerPkSignal with
  | none => .ok (.default, inputs)
  | some s =>
      match issuer with
      | none => .error (.albus .invalidData)
      | some iss => do
          require (iss.data.isDisabled = false) (.albus .unauthorized)
          let pk := iss.data.zkPubkeyHalves
          require (s.index < inputs.length) .panicked
          require (s.index + 1 < inputs.length) .panicked
          .ok (iss.key, (inputs.set s.index pk.1).set (s.index + 1) pk.2)

/-- The part of `prove_proof_request::handler` under `data.proof.is_some()`. -/
def acceptProof (ctx : ProveProofRequest) (proof : ProofData) (now : Int)
    (req : ProofRequest) : Except ProgramError ProofRequest := do
  let req := { req with status := .proved, provedAt := now, proof := some proof }
  -- `circuit.signals()` panics on a layout that overflows
  match ctx.circuit.data.signals with
  | none => .error .panicked
  | some signals => do
      validateTimestamp signals req.publicInputs now
      let expiredAt ← validateExpiration signals req.publicInputs now req.expiredAt
      let (issuer, inputs) ← validateIssuer signals ctx.issuer req.publicInputs
      .ok { req with
        expiredAt
        issuer
        publicInputs := applyRules ctx.policy.data.rules inputs signals }

/-- `prove_proof_request::handler`. -/
def proveProofRequest (ctx : ProveProofRequest) (data : ProveProofRequestData)
    (now : Int) (req : ProofRequest) : Except ProgramError ProofRequest := do
  require (req.circuit = ctx.circuit.key) .constraintHasOne
  require (req.policy = ctx.policy.key) .constraintHasOne
  require (req.owner = ctx.authority) (.albus .unauthorized)
  let req := receiveInputs data req
  match data.proof with
  | none => .ok req
  | some proof => acceptProof ctx proof now req

/-! ## verify_proof_request -/

/-- The accounts of `verify_proof_request`, the request itself apart. -/
structure VerifyProofRequest where
  circuit : Account Circuit
  authority : Pubkey
  deriving DecidableEq

/-- `Groth16Verifier::new(..)?.verify()?` with the program's error mapping. -/
def runVerifier (sys : AltBn128) (vk : VerificationKey) (proof : ProofData)
    (inputs : List (Bytes 32)) : Except ProgramError Unit :=
  match Groth16Verifier.new proof inputs vk with
  | .error _ => .error (.albus .invalidPublicInputs)
  | .ok v =>
      match v.verify sys with
      | .error .panicked => .error .panicked
      | .error _ => .error (.albus .proofVerificationFailed)
      | .ok () => .ok ()

/-- `verify_proof_request::handler`. -/
def verifyProofRequest (rt : Runtime) (ctx : VerifyProofRequest) (now : Int)
    (req : ProofRequest) : Except ProgramError ProofRequest := do
  require (req.circuit = ctx.circuit.key) .constraintHasOne
  if rt.verifyOnChain then
    match req.proof with
    | none => .error (.albus .invalidPublicInputs)
    | some proof => do
        runVerifier rt.altBn128 ctx.circuit.data.vk proof req.publicInputs
        .ok { req with status := .verified, verifiedAt := now }
  else .error (.albus .unverified)

/-! ## update_proof_request -/

structure UpdateProofRequestData where
  status : ProofRequestStatus
  deriving DecidableEq

/-- `assert_authorized`: one of the compiled-in keys, or anyone if none is. -/
def assertAuthorized (rt : Runtime) (authority : Pubkey) :
    Except ProgramError Unit :=
  require (rt.authorizedAuthority = [] ∨ authority ∈ rt.authorizedAuthority)
    (.albus .unauthorized)

/-- `update_proof_request::handler`, signed by `authority`. -/
def updateProofRequest (rt : Runtime) (authority : Pubkey)
    (data : UpdateProofRequestData) (now : Int) (req : ProofRequest) :
    Except ProgramError ProofRequest := do
  assertAuthorized rt authority
  require (¬ (0 < req.expiredAt ∧ req.expiredAt < now)) (.albus .expired)
  require (data.status = .verified ∨ data.status = .rejected) (.albus .invalidData)
  .ok { req with status := data.status, verifiedAt := now }

/-! ## delete_proof_request -/

/-- `delete_proof_request::handler`, signed by `authority`. -/
def deleteProofRequest (authority : Pubkey) (now : Int) (req : ProofRequest) :
    Except ProgramError Unit := do
  require (req.owner = authority) (.albus .unauthorized)
  require (¬ (req.isVerified ∧ now < req.retentionEndDate)) (.albus .unauthorized)

/-! ## The machine on one request account -/

/-- The seeds of a request's address. -/
structure ProofRequestSeeds where
  policy : Pubkey
  owner : Pubkey
  deriving DecidableEq

/-- A live request account: its allocated size and its data. -/
structure ProofRequestAccount where
  space : Nat
  request : ProofRequest
  deriving DecidableEq

inductive Call where
  | create (ctx : CreateProofRequest) (data : CreateProofRequestData) (now : Int)
  | prove (ctx : ProveProofRequest) (data : ProveProofRequestData) (now : Int)
  | verify (ctx : VerifyProofRequest) (now : Int)
  | update (authority : Pubkey) (data : UpdateProofRequestData) (now : Int)
  | delete (authority : Pubkey) (now : Int)
  deriving DecidableEq

/-- Anchor's exit: the data must fit the allocated account. -/
def exitAccount (space : Nat) (req : ProofRequest) :
    Except ProgramError (Option ProofRequestAccount) :=
  if req.serializedLen ≤ space then .ok (some ⟨space, req⟩)
  else .error .accountDidNotSerialize

/-- An instruction on the existing account. -/
def onAccount (acc : Option ProofRequestAccount)
    (f : ProofRequest → Except ProgramError ProofRequest) :
    Except ProgramError (Option ProofRequestAccount) :=
  match acc with
  | none => .error .accountNotInitialized
  | some a => do
      let req ← f a.request
      exitAccount a.space req

/-- `init_if_needed`: a missing account is allocated, an existing one must have
    the requested size. -/
def initIfNeeded (acc : Option ProofRequestAccount) (space : Nat) :
    Except ProgramError ProofRequest :=
  match acc with
  | none => .ok .zeroed
  | some a => if a.space = space then .ok a.request else .error .constraintSpace

/-- One transaction on the account at the address of `seeds`; `none` is an
    account that does not exist. -/
def step (rt : Runtime) (seeds : ProofRequestSeeds)
    (acc : Option ProofRequestAccount) :
    Call → Except ProgramError (Option ProofRequestAccount)
  | .create ctx data now => do
      require (seeds = ⟨ctx.policy.key, ctx.authority⟩) .constraintSeeds
      let space := ProofRequest.space data.maxPublicInputs
      let req ← initIfNeeded acc space
      let (_, _, req') ← createProofRequest ctx data now req
      exitAccount space req'
  | .prove ctx data now => onAccount acc (proveProofRequest ctx data now)
  | .verify ctx now => onAccount acc (verifyProofRequest rt ctx now)
  | .update authority data now =>
      onAccount acc (updateProofRequest rt authority data now)
  | .delete authority now =>
      match acc with
      | none => .error .accountNotInitialized
      | some a => do
          deleteProofRequest authority now a.request
          .ok none

/-! ## A small deployment

    One owner, one service, a policy with given rules on a circuit with given
    public signals, and a key and a proof made of points at infinity. -/

namespace Sample

def key (n : UInt8) : Pubkey := Vector.replicate 32 n

def runtime : Runtime where
  authorizedAuthority := [key 9]
  verifyOnChain := true
  altBn128 := .atInfinity

def owner : Pubkey := key 1

/-- A circuit with `n` public inputs. -/
def circuit (publicSignals : List String) (n : Nat) : Account Circuit where
  key := key 2
  data :=
    { vk :=
        { alpha := .replicate 64 0
          beta := .replicate 128 0
          gamma := .replicate 128 0
          delta := .replicate 128 0
          ic := List.replicate (n + 1) (.replicate 64 0) }
      outputs := []
      publicSignals
      privateSignals := [] }

def policy (rules : List PolicyRule) : Account Policy where
  key := key 3
  data :=
    { serviceProvider := key 4
      circuit := key 2
      expirationPeriod := 0
      retentionPeriod := 0
      proofRequestCount := 0
      rules }

def issuer : Account Issuer where
  key := key 5
  data :=
    { zkPubkey := (Vector.replicate 32 6 : Bytes 32) ++ (Vector.replicate 32 7 : Bytes 32)
      isDisabled := false }

def proof : ProofData where
  a := .replicate 64 0
  b := .replicate 128 0
  c := .replicate 64 0

def seeds : ProofRequestSeeds := ⟨key 3, owner⟩

/-- A cluster time. -/
def now : Int := 1700000000

def create (rules : List PolicyRule) : Call :=
  .create
    { serviceProvider := ⟨key 4, ⟨0, 2, []⟩⟩
      policy := policy rules
      authority := owner
      bump := 255 }
    { expiresIn := 0, maxPublicInputs := 8 } now

/-- A chunk of inputs, with or without the proof. -/
def prove (rules : List PolicyRule) (circuit : Account Circuit)
    (issuer : Option (Account Issuer)) (proof : Option ProofData)
    (publicInputs : List (Bytes 32)) : Call :=
  .prove { circuit, policy := policy rules, issuer, authority := owner }
    { proof, publicInputs, reset := false } now

def verify (circuit : Account Circuit) : Call :=
  .verify { circuit, authority := owner } now

end Sample

/-! ## What each instruction can do -/

theorem bind_ok {ε α β : Type} {x : Except ε α} {f : α → Except ε β} {b : β}
    (h : (x >>= f) = .ok b) : ∃ a, x = .ok a ∧ f a = .ok b := by
  cases x with
  | error e => exact nomatch h
  | ok a => exact ⟨a, rfl, h⟩

theorem require_ok {cond : Prop} [Decidable cond] {e : ProgramError} {u : Unit}
    (h : require cond e = .ok u) : cond := by
  rw [require] at h
  split at h
  · assumption
  · exact nomatch h

theorem require_bind_ok {cond : Prop} [Decidable cond] {e : ProgramError}
    {β : Type} {f : Unit → Except ProgramError β} {b : β}
    (h : (require cond e >>= f) = .ok b) : cond ∧ f () = .ok b := by
  obtain ⟨u, hu, hf⟩ := bind_ok h
  exact ⟨require_ok hu, hf⟩

theorem inputAt_ok {inputs : List (Bytes 32)} {i : Nat} {b : Bytes 32}
    (h : inputAt inputs i = .ok b) : inputs[i]? = some b := by
  rw [inputAt] at h
  cases hi : inputs[i]? with
  | none => rw [hi] at h; exact nomatch h
  | some b' => rw [hi] at h; exact congrArg some (Except.ok.inj h)

/-- A creation sets the fields it names and keeps proof, inputs and issuer. -/
theorem createProofRequest_ok {ctx : CreateProofRequest}
    {data : CreateProofRequestData} {now : Int} {req req' : ProofRequest}
    {sp : ServiceProvider} {pol : Policy}
    (h : createProofRequest ctx data now req = .ok (sp, pol, req')) :
    req'.policy = ctx.policy.key ∧ req'.circuit = ctx.policy.data.circuit ∧
    req'.owner = ctx.authority ∧ req'.status = .pending ∧ req'.provedAt = 0 ∧
    req'.proof = req.proof ∧ req'.publicInputs = req.publicInputs ∧
    req'.issuer = req.issuer := by
  obtain ⟨-, h⟩ := require_bind_ok h
  obtain ⟨policyCount, -, h⟩ := bind_ok h
  obtain ⟨serviceCount, -, h⟩ := bind_ok h
  have hreq := congrArg (fun p => p.2.2) (Except.ok.inj h)
  subst hreq
  exact ⟨rfl, rfl, rfl, rfl, rfl, rfl, rfl, rfl⟩

/-- The times a creation sets, and the one it keeps. -/
theorem createProofRequest_times {ctx : CreateProofRequest}
    {data : CreateProofRequestData} {now : Int} {req req' : ProofRequest}
    {sp : ServiceProvider} {pol : Policy}
    (h : createProofRequest ctx data now req = .ok (sp, pol, req')) :
    req'.verifiedAt = 0 ∧ req'.retentionEndDate = req.retentionEndDate ∧
    req'.expiredAt = requestExpiry pol data now req.expiredAt := by
  obtain ⟨-, h⟩ := require_bind_ok h
  obtain ⟨policyCount, -, h⟩ := bind_ok h
  obtain ⟨serviceCount, -, h⟩ := bind_ok h
  obtain ⟨-, h⟩ := Prod.mk.inj (Except.ok.inj h)
  obtain ⟨rfl, rfl⟩ := Prod.mk.inj h
  exact ⟨rfl, rfl, rfl⟩

/-- The slots the issuer's key is written to. -/
def issuerWrites (signals : Signals) (issuer : Option (Account Issuer)) :
    List SlotWrite :=
  match signals.get issuerPkSignal, issuer with
  | some s, some iss =>
      [(s.index, iss.data.zkPubkeyHalves.1),
        (s.index + 1, iss.data.zkPubkeyHalves.2)]
  | _, _ => []

/-- All writes of an accepted proof to the submitted inputs, in order. -/
def proveWrites (signals : Signals) (issuer : Option (Account Issuer))
    (rules : List PolicyRule) : List SlotWrite :=
  issuerWrites signals issuer ++ ruleWrites signals rules

/-- The checks an accepted proof has passed, on the inputs as submitted. -/
structure ProofChecked (signals : Signals) (issuer : Option (Account Issuer))
    (inputs : List (Bytes 32)) (now : Int) : Prop where
  timestamp : ∀ s, signals.get timestampSignal = some s →
    ∃ input, inputs[s.index]? = some input ∧
      now - timestampThreshold ≤ asI64 (bytesToNum input)
  validUntil : ∀ s, signals.get metaValidUntilSignal = some s →
    ∃ input, inputs[s.index]? = some input ∧ now < (bytesToNum input : Int)
  issuer : ∀ s, signals.get issuerPkSignal = some s →
    ∃ iss, issuer = some iss ∧ iss.data.isDisabled = false ∧
      s.index + 1 < inputs.length

theorem validateTimestamp_ok {signals : Signals} {inputs : List (Bytes 32)}
    {now : Int} {u : Unit} (h : validateTimestamp signals inputs now = .ok u)
    {s : SignalValue} (hs : signals.get timestampSignal = some s) :
    ∃ input, inputs[s.index]? = some input ∧
      now - timestampThreshold ≤ asI64 (bytesToNum input) := by
  rw [validateTimestamp] at h
  rw [hs] at h
  obtain ⟨input, hin, h⟩ := bind_ok h
  obtain ⟨-, h⟩ := require_bind_ok h
  exact ⟨input, inputAt_ok hin, require_ok h⟩

theorem validateExpiration_ok {signals : Signals} {inputs : List (Bytes 32)}
    {now expiredAt e : Int}
    (h : validateExpiration signals inputs now expiredAt = .ok e)
    {s : SignalValue} (hs : signals.get metaValidUntilSignal = some s) :
    ∃ input, inputs[s.index]? = some input ∧ now < (bytesToNum input : Int) := by
  rw [validateExpiration] at h
  rw [hs] at h
  obtain ⟨input, hin, h⟩ := bind_ok h
  obtain ⟨-, h⟩ := require_bind_ok h
  obtain ⟨hlt, -⟩ := require_bind_ok h
  exact ⟨input, inputAt_ok hin, hlt⟩

/-- The issuer check performs the issuer writes; with an `issuerPk` signal the
    issuer is present, enabled, and recorded. -/
theorem validateIssuer_ok {signals : Signals} {issuer : Option (Account Issuer)}
    {inputs inputs' : List (Bytes 32)} {key : Pubkey}
    (h : validateIssuer signals issuer inputs = .ok (key, inputs')) :
    inputs' = writeAll inputs (issuerWrites signals issuer) ∧
    ∀ s, signals.get issuerPkSignal = some s →
      ∃ iss, issuer = some iss ∧ iss.data.isDisabled = false ∧
        s.index + 1 < inputs.length ∧ key = iss.key := by
  rw [validateIssuer] at h
  cases hs : signals.get issuerPkSignal with
  | none =>
      rw [hs] at h
      obtain ⟨-, rfl⟩ := Prod.mk.inj (Except.ok.inj h)
      refine ⟨?_, fun s hs' => nomatch hs'⟩
      simp [issuerWrites, hs]
  | some s =>
      rw [hs] at h
      cases issuer with
      | none => exact nomatch h
      | some iss =>
          obtain ⟨hdis, h⟩ := require_bind_ok h
          obtain ⟨-, h⟩ := require_bind_ok h
          obtain ⟨hlen, h⟩ := require_bind_ok h
          obtain ⟨hkey, hin⟩ := Prod.mk.inj (Except.ok.inj h)
          refine ⟨?_, ?_⟩
          · rw [← hin]
            simp [issuerWrites, hs, writeAll]
          · intro s' hs'
            obtain rfl := Option.some.inj hs'
            exact ⟨iss, rfl, hdis, hlen, hkey.symm⟩

/-- **WHAT AN ACCEPTED PROOF DOES.** -/
theorem acceptProof_ok {ctx : ProveProofRequest} {proof : ProofData} {now : Int}
    {req req' : ProofRequest} (h : acceptProof ctx proof now req = .ok req') :
    ∃ signals, ctx.circuit.data.signals = some signals ∧
      ProofChecked signals ctx.issuer req.publicInputs now ∧
      (∀ s, signals.get issuerPkSignal = some s →
        ∃ iss, ctx.issuer = some iss ∧ req'.issuer = iss.key) ∧
      req'.publicInputs = writeAll req.publicInputs
        (proveWrites signals ctx.issuer ctx.policy.data.rules) ∧
      req'.status = .proved ∧ req'.provedAt = now ∧ req'.proof = some proof ∧
      req'.policy = req.policy ∧ req'.circuit = req.circuit ∧
      req'.owner = req.owner := by
  rw [acceptProof] at h
  cases hsig : ctx.circuit.data.signals with
  | none => rw [hsig] at h; exact nomatch h
  | some signals =>
      rw [hsig] at h
      obtain ⟨u, hts, h⟩ := bind_ok h
      obtain ⟨expiredAt, hexp, h⟩ := bind_ok h
      obtain ⟨⟨key, inputs⟩, hiss, h⟩ := bind_ok h
      obtain ⟨hin, hissuer⟩ := validateIssuer_ok hiss
      have hreq := Except.ok.inj h
      subst hreq
      refine ⟨signals, rfl, ⟨?_, ?_, ?_⟩, ?_, ?_, rfl, rfl, rfl, rfl, rfl, rfl⟩
      · exact fun s hs => validateTimestamp_ok hts hs
      · exact fun s hs => validateExpiration_ok hexp hs
      · intro s hs
        obtain ⟨iss, h1, h2, h3, -⟩ := hissuer s hs
        exact ⟨iss, h1, h2, h3⟩
      · intro s hs
        obtain ⟨iss, h1, -, -, h4⟩ := hissuer s hs
        exact ⟨iss, h1, h4⟩
      · show applyRules ctx.policy.data.rules inputs signals = _
        rw [applyRules_eq_writeAll, hin, proveWrites, writeAll_append]

/-- An accepted proof keeps the expiry, or sets one the inputs named. -/
theorem validateExpiration_range {signals : Signals} {inputs : List (Bytes 32)}
    {now expiredAt e : Int}
    (h : validateExpiration signals inputs now expiredAt = .ok e) :
    e = expiredAt ∨ (0 ≤ e ∧ e ≤ i64Max) := by
  rw [validateExpiration] at h
  cases hs : signals.get metaValidUntilSignal with
  | none =>
      rw [hs] at h
      exact Or.inl (Except.ok.inj h).symm
  | some s =>
      rw [hs] at h
      obtain ⟨input, -, h⟩ := bind_ok h
      obtain ⟨hmax, h⟩ := require_bind_ok h
      obtain ⟨-, h⟩ := require_bind_ok h
      have he := Except.ok.inj h
      split at he
      · exact Or.inr ⟨he ▸ Int.natCast_nonneg _, he ▸ hmax⟩
      · exact Or.inl he.symm

theorem acceptProof_times {ctx : ProveProofRequest} {proof : ProofData} {now : Int}
    {req req' : ProofRequest} (h : acceptProof ctx proof now req = .ok req') :
    req'.verifiedAt = req.verifiedAt ∧ req'.retentionEndDate = req.retentionEndDate ∧
    (req'.expiredAt = req.expiredAt ∨ (0 ≤ req'.expiredAt ∧ req'.expiredAt ≤ i64Max)) := by
  rw [acceptProof] at h
  cases hsig : ctx.circuit.data.signals with
  | none =>
      rw [hsig] at h
      exact nomatch h
  | some signals =>
      rw [hsig] at h
      obtain ⟨_, -, h⟩ := bind_ok h
      obtain ⟨expiredAt, hexp, h⟩ := bind_ok h
      obtain ⟨⟨key, inputs⟩, -, h⟩ := bind_ok h
      have hreq := Except.ok.inj h
      subst hreq
      exact ⟨rfl, rfl, validateExpiration_range hexp⟩

/-- **WHAT A PROVE CALL DOES**: the accounts match, the owner signed, the inputs
    are received, and a proof, if there is one, is accepted. -/
theorem proveProofRequest_ok {ctx : ProveProofRequest}
    {data : ProveProofRequestData} {now : Int} {req req' : ProofRequest}
    (h : proveProofRequest ctx data now req = .ok req') :
    req.circuit = ctx.circuit.key ∧ req.policy = ctx.policy.key ∧
    req.owner = ctx.authority ∧
    ((data.proof = none ∧ req' = receiveInputs data req) ∨
      ∃ proof, data.proof = some proof ∧
        acceptProof ctx proof now (receiveInputs data req) = .ok req') := by
  obtain ⟨hc, h⟩ := require_bind_ok h
  obtain ⟨hp, h⟩ := require_bind_ok h
  obtain ⟨ho, h⟩ := require_bind_ok h
  refine ⟨hc, hp, ho, ?_⟩
  cases hproof : data.proof with
  | none =>
      rw [hproof] at h
      exact Or.inl ⟨rfl, (Except.ok.inj h).symm⟩
  | some proof =>
      rw [hproof] at h
      exact Or.inr ⟨proof, rfl, h⟩

@[simp] theorem receiveInputs_policy (data : ProveProofRequestData)
    (req : ProofRequest) : (receiveInputs data req).policy = req.policy := by
  rw [receiveInputs]
  cases data.reset <;> rfl

@[simp] theorem receiveInputs_circuit (data : ProveProofRequestData)
    (req : ProofRequest) : (receiveInputs data req).circuit = req.circuit := by
  rw [receiveInputs]
  cases data.reset <;> rfl

@[simp] theorem receiveInputs_owner (data : ProveProofRequestData)
    (req : ProofRequest) : (receiveInputs data req).owner = req.owner := by
  rw [receiveInputs]
  cases data.reset <;> rfl

/-- Receiving inputs moves no time but that of proving. -/
theorem receiveInputs_times (data : ProveProofRequestData) (req : ProofRequest) :
    (receiveInputs data req).verifiedAt = req.verifiedAt ∧
    (receiveInputs data req).retentionEndDate = req.retentionEndDate ∧
    (receiveInputs data req).expiredAt = req.expiredAt := by
  rw [receiveInputs]
  cases data.reset <;> exact ⟨rfl, rfl, rfl⟩

/-- Receiving inputs with a reset drops proof, issuer and earlier inputs. -/
theorem receiveInputs_reset {data : ProveProofRequestData} (h : data.reset = true)
    (req : ProofRequest) :
    receiveInputs data req = { req with
      status := .pending, provedAt := 0, proof := none, issuer := .default,
      publicInputs := data.publicInputs } := by
  simp [receiveInputs, h]

/-- Receiving inputs without a reset only appends them. -/
theorem receiveInputs_append {data : ProveProofRequestData}
    (h : data.reset = false) (req : ProofRequest) :
    receiveInputs data req
      = { req with publicInputs := req.publicInputs ++ data.publicInputs } := by
  simp [receiveInputs, h]

/-- **WHAT A VERIFICATION DOES**: the stored proof and inputs passed the verifier
    against the circuit's key, and only status and time change. -/
theorem verifyProofRequest_ok {rt : Runtime} {ctx : VerifyProofRequest}
    {now : Int} {req req' : ProofRequest}
    (h : verifyProofRequest rt ctx now req = .ok req') :
    req.circuit = ctx.circuit.key ∧
    (∃ proof, req.proof = some proof ∧
      runVerifier rt.altBn128 ctx.circuit.data.vk proof req.publicInputs
        = .ok ()) ∧
    req' = { req with status := .verified, verifiedAt := now } := by
  obtain ⟨hc, h⟩ := require_bind_ok h
  refine ⟨hc, ?_⟩
  split at h
  · cases hproof : req.proof with
    | none => rw [hproof] at h; exact nomatch h
    | some proof =>
        rw [hproof] at h
        obtain ⟨u, hv, h⟩ := bind_ok h
        exact ⟨⟨proof, rfl, hv⟩, (Except.ok.inj h).symm⟩
  · exact nomatch h

theorem updateProofRequest_authorized {rt : Runtime} {authority : Pubkey}
    {data : UpdateProofRequestData} {now : Int} {req req' : ProofRequest}
    (h : updateProofRequest rt authority data now req = .ok req') :
    rt.authorizedAuthority = [] ∨ authority ∈ rt.authorizedAuthority := by
  obtain ⟨u, hauth, -⟩ := bind_ok h
  exact require_ok hauth

theorem updateProofRequest_ok {rt : Runtime} {authority : Pubkey}
    {data : UpdateProofRequestData} {now : Int} {req req' : ProofRequest}
    (h : updateProofRequest rt authority data now req = .ok req') :
    (data.status = .verified ∨ data.status = .rejected) ∧
    req' = { req with status := data.status, verifiedAt := now } := by
  obtain ⟨-, -, h⟩ := bind_ok h
  obtain ⟨-, h⟩ := require_bind_ok h
  obtain ⟨hst, h⟩ := require_bind_ok h
  exact ⟨hst, (Except.ok.inj h).symm⟩

theorem exitAccount_ok {space : Nat} {req : ProofRequest}
    {acc : Option ProofRequestAccount} (h : exitAccount space req = .ok acc) :
    acc = some ⟨space, req⟩ := by
  rw [exitAccount] at h
  split at h
  · exact (Except.ok.inj h).symm
  · exact nomatch h

theorem onAccount_ok {acc acc' : Option ProofRequestAccount}
    {f : ProofRequest → Except ProgramError ProofRequest}
    (h : onAccount acc f = .ok acc') :
    ∃ a req', acc = some a ∧ f a.request = .ok req' ∧
      acc' = some ⟨a.space, req'⟩ := by
  cases acc with
  | none => exact nomatch h
  | some a =>
      obtain ⟨req', hf, h⟩ := bind_ok h
      exact ⟨a, req', rfl, hf, exitAccount_ok h⟩

theorem initIfNeeded_ok {acc : Option ProofRequestAccount} {space : Nat}
    {req : ProofRequest} (h : initIfNeeded acc space = .ok req) :
    (acc = none ∧ req = .zeroed) ∨ ∃ a, acc = some a ∧ req = a.request := by
  cases acc with
  | none => exact Or.inl ⟨rfl, (Except.ok.inj h).symm⟩
  | some a =>
      unfold initIfNeeded at h
      simp only at h
      split at h
      · exact Or.inr ⟨a, rfl, (Except.ok.inj h).symm⟩
      · exact nomatch h

/-- After a verification the request is verified. -/
theorem verify_ok {rt : Runtime} {seeds : ProofRequestSeeds}
    {acc acc' : Option ProofRequestAccount} {ctx : VerifyProofRequest} {now : Int}
    (h : step rt seeds acc (.verify ctx now) = .ok acc') :
    ∃ b, acc' = some b ∧ b.request.status = .verified := by
  obtain ⟨a, req', -, hf, hacc'⟩ := onAccount_ok h
  obtain ⟨-, -, rfl⟩ := verifyProofRequest_ok hf
  exact ⟨_, hacc', rfl⟩

/-- **STEP CASES**: what a successful transaction on the account can be. -/
theorem step_cases {rt : Runtime} {seeds : ProofRequestSeeds}
    {acc acc' : Option ProofRequestAccount} {c : Call}
    (h : step rt seeds acc c = .ok acc') :
    (∃ ctx data now req sp pol req', c = .create ctx data now ∧
      seeds = ⟨ctx.policy.key, ctx.authority⟩ ∧
      ((acc = none ∧ req = .zeroed) ∨ ∃ a, acc = some a ∧ req = a.request) ∧
      createProofRequest ctx data now req = .ok (sp, pol, req') ∧
      acc' = some ⟨ProofRequest.space data.maxPublicInputs, req'⟩) ∨
    (∃ ctx data now a req', c = .prove ctx data now ∧ acc = some a ∧
      proveProofRequest ctx data now a.request = .ok req' ∧
      acc' = some ⟨a.space, req'⟩) ∨
    (∃ ctx now a req', c = .verify ctx now ∧ acc = some a ∧
      verifyProofRequest rt ctx now a.request = .ok req' ∧
      acc' = some ⟨a.space, req'⟩) ∨
    (∃ authority data now a req', c = .update authority data now ∧
      acc = some a ∧
      updateProofRequest rt authority data now a.request = .ok req' ∧
      acc' = some ⟨a.space, req'⟩) ∨
    (∃ authority now a, c = .delete authority now ∧ acc = some a ∧
      deleteProofRequest authority now a.request = .ok () ∧ acc' = none) := by
  cases c with
  | create ctx data now =>
      obtain ⟨hseeds, h⟩ := require_bind_ok h
      obtain ⟨req, hinit, h⟩ := bind_ok h
      obtain ⟨⟨sp, pol, req'⟩, hcreate, h⟩ := bind_ok h
      exact Or.inl ⟨ctx, data, now, req, sp, pol, req', rfl, hseeds,
        initIfNeeded_ok hinit, hcreate, exitAccount_ok h⟩
  | prove ctx data now =>
      obtain ⟨a, req', hacc, hf, hacc'⟩ := onAccount_ok h
      exact Or.inr (Or.inl ⟨ctx, data, now, a, req', rfl, hacc, hf, hacc'⟩)
  | verify ctx now =>
      obtain ⟨a, req', hacc, hf, hacc'⟩ := onAccount_ok h
      exact Or.inr (Or.inr (Or.inl ⟨ctx, now, a, req', rfl, hacc, hf, hacc'⟩))
  | update authority data now =>
      obtain ⟨a, req', hacc, hf, hacc'⟩ := onAccount_ok h
      exact Or.inr (Or.inr (Or.inr (Or.inl
        ⟨authority, data, now, a, req', rfl, hacc, hf, hacc'⟩)))
  | delete authority now =>
      cases acc with
      | none => exact nomatch h
      | some a =>
          obtain ⟨u, hdel, h⟩ := bind_ok h
          exact Or.inr (Or.inr (Or.inr (Or.inr
            ⟨authority, now, a, rfl, rfl, hdel, (Except.ok.inj h).symm⟩)))

end Albus.Program
