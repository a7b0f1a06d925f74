import Albus.Lib.Census
import Albus.Program.Credential

/-! # Who writes a credential

    `update_credential` believes a request: that its issuer was asked to write the
    credential of its mint.  It believes rightly, because the two fields come from one
    place.  `request_credential` alone writes them, and asks for the signature of a
    token holder each time, whether it allocates the request or points an existing one
    at another mint. -/

namespace Albus.Program

open Albus.Lib

/-- `owner` holds the token of `mint`. -/
def CredentialLedger.HoldsToken (l : CredentialLedger) (owner mint : Pubkey) : Prop :=
  ∃ token, l.tokens ⟨owner, mint⟩ = some token ∧ token.owner = owner ∧ token.amount = 1

/-- The transaction is a `request_credential` for the request at `seeds`. -/
def Requests (seeds : CredentialRequestSeeds)
    (t : Transition CredentialLedger CredentialInstruction) : Prop :=
  ∃ ctx uri now, t.call = .requestCredential ctx uri now ∧ ctx.seeds = seeds

/-- The transaction asks for the credential of `mint` at `issuer`, and is signed by a
    holder of its token. -/
def AskedByHolder (mint issuer : Pubkey)
    (t : Transition CredentialLedger CredentialInstruction) : Prop :=
  ∃ ctx uri now, t.call = .requestCredential ctx uri now ∧ ctx.credentialMint = mint ∧
    ctx.issuer = issuer ∧ ∃ owner ∈ t.call.signers, t.pre.HoldsToken owner mint

/-- Every live request has its mint and its issuer from the latest `request_credential`
    for it, which a holder signed. -/
def Traced (h : List (Transition CredentialLedger CredentialInstruction))
    (l : CredentialLedger) : Prop :=
  ∀ seeds req, l.requests seeds = some req →
    ∃ t, Latest (Requests seeds) h t ∧ AskedByHolder req.credentialMint req.issuer t

/-! ## What the handlers check -/

theorem ensure_ok {cond : Prop} [Decidable cond] {e : CredentialError} {u : Unit}
    (h : ensure cond e = .ok u) : cond := by
  rw [ensure] at h
  split at h
  · assumption
  · exact nomatch h

theorem ensure_bind_ok {cond : Prop} [Decidable cond] {e : CredentialError} {β : Type}
    {f : Unit → Except CredentialError β} {b : β} (h : (ensure cond e >>= f) = .ok b) :
    cond ∧ f () = .ok b := by
  obtain ⟨u, hu, hf⟩ := bind_ok h
  exact ⟨ensure_ok hu, hf⟩

theorem load_ok {κ α : Type} {m : κ → Option α} {k : κ} {a : α} (h : load m k = .ok a) :
    m k = some a := by
  rw [load] at h
  cases hm : m k with
  | none =>
      rw [hm] at h
      exact nomatch h
  | some b =>
      rw [hm] at h
      exact congrArg some (Except.ok.inj h)

theorem loadOption_ok {κ α : Type} {m : κ → Option α} {k : Option κ}
    {x : Option (κ × α)} (h : loadOption m k = .ok x) :
    ∀ k' a, x = some (k', a) → m k' = some a := by
  rintro k' a rfl
  cases k with
  | none => exact nomatch h
  | some k =>
      obtain ⟨b, hb, h⟩ := bind_ok h
      obtain ⟨rfl, rfl⟩ := Prod.mk.inj (Option.some.inj (Except.ok.inj h))
      exact load_ok hb

theorem invokeUpdate_ok {d : Deployment} {args : UpdateV1} {m : MetadataAccount}
    (h : invokeUpdate d args = .ok m) : args.metadata.data.mint = args.mint := by
  rw [invokeUpdate] at h
  cases hupdate : d.tokenMetadata.updateV1 args with
  | none =>
      rw [hupdate] at h
      exact nomatch h
  | some m' => exact d.tokenMetadata.checksMint args m' hupdate

/-- A request is the caller's word on mint and issuer, signed by a token holder. -/
theorem requestCredential_ok {d : Deployment} {ctx : RequestCredential} {uri : String}
    {now : Int} {spec spec' : CredentialSpec} {metadata metadata' : MetadataAccount}
    {token : TokenAccount} {req : CredentialRequest}
    (h : requestCredential d ctx uri now spec metadata token
      = .ok (spec', req, metadata')) :
    req.credentialMint = ctx.credentialMint ∧ req.issuer = ctx.issuer ∧
      ctx.credentialToken = ⟨ctx.credentialOwner, ctx.credentialMint⟩ ∧
      token.owner = ctx.credentialOwner ∧ token.amount = 1 := by
  obtain ⟨-, h⟩ := ensure_bind_ok h
  obtain ⟨howner, h⟩ := ensure_bind_ok h
  obtain ⟨hseeds, h⟩ := ensure_bind_ok h
  obtain ⟨hamount, h⟩ := ensure_bind_ok h
  obtain ⟨count, -, h⟩ := bind_ok h
  obtain ⟨m, -, h⟩ := bind_ok h
  obtain ⟨-, h⟩ := Prod.mk.inj (Except.ok.inj h)
  obtain ⟨rfl, -⟩ := Prod.mk.inj h
  exact ⟨rfl, rfl, hseeds, howner, hamount⟩

theorem updateCredentialRequest_ok {ctx : UpdateCredentialRequest}
    {data : UpdateCredentialRequestData} {req req' : CredentialRequest}
    {issuer : IssuerAccount} (h : updateCredentialRequest ctx data req issuer = .ok req') :
    req'.credentialMint = req.credentialMint ∧ req'.issuer = req.issuer := by
  obtain ⟨-, h⟩ := ensure_bind_ok h
  obtain ⟨-, h⟩ := ensure_bind_ok h
  obtain ⟨-, h⟩ := ensure_bind_ok h
  obtain rfl := Except.ok.inj h
  exact ⟨rfl, rfl⟩

/-- **WHO PASSES THE CHECKS OF AN UPDATE**: a root authority, or the authority of the
    enabled issuer of a request for the mint. -/
theorem authorizeUpdate_ok {rt : Runtime} {ctx : UpdateCredential}
    {request : Option (CredentialRequestSeeds × CredentialRequest)}
    {issuer : Option (Pubkey × IssuerAccount)} {u : Unit}
    (h : authorizeUpdate rt ctx request issuer = .ok u) :
    (rt.authorizedAuthority = [] ∨ ctx.authority ∈ rt.authorizedAuthority) ∨
      ∃ seeds req key iss, request = some (seeds, req) ∧ issuer = some (key, iss) ∧
        req.credentialMint = ctx.mint ∧ req.issuer = key ∧ iss.isDisabled = false ∧
        iss.authority = ctx.authority := by
  cases request with
  | none =>
      refine Or.inl ?_
      have hroot : (assertAuthorized rt ctx.authority).mapError CredentialError.program
          = .ok u := h
      cases hauth : assertAuthorized rt ctx.authority with
      | error e =>
          rw [hauth] at hroot
          exact nomatch hroot
      | ok u => exact require_ok hauth
  | some request =>
      obtain ⟨seeds, req⟩ := request
      obtain ⟨hmint, h⟩ := ensure_bind_ok h
      cases issuer with
      | none => exact nomatch h
      | some issuer =>
          obtain ⟨key, iss⟩ := issuer
          obtain ⟨henabled, h⟩ := ensure_bind_ok h
          obtain ⟨hissuer, h⟩ := ensure_bind_ok h
          exact Or.inr ⟨seeds, req, key, iss, rfl, rfl, hmint, hissuer, henabled,
            ensure_ok h⟩

namespace CredentialLedger

variable {d : Deployment} {l l' : CredentialLedger}

/-- A request after a `request_credential` for it. -/
theorem request_of_requestCredential {ctx : RequestCredential} {uri : String} {now : Int}
    (h : step d l (.requestCredential ctx uri now) = .ok l') :
    ∃ req, l'.requests = Function.update l.requests ctx.seeds (some req) ∧
      AskedByHolder req.credentialMint req.issuer
        ⟨l, .requestCredential ctx uri now, l'⟩ := by
  obtain ⟨spec, -, h⟩ := bind_ok h
  obtain ⟨metadata, -, h⟩ := bind_ok h
  obtain ⟨token, htoken, h⟩ := bind_ok h
  obtain ⟨_, -, h⟩ := bind_ok h
  obtain ⟨⟨spec', req, metadata'⟩, hrequest, h⟩ := bind_ok h
  obtain ⟨-, h⟩ := ensure_bind_ok h
  obtain ⟨hmint, hissuer, hseeds, howner, hamount⟩ := requestCredential_ok hrequest
  obtain rfl := Except.ok.inj h
  refine ⟨req, rfl, ctx, uri, now, rfl, hmint.symm, hissuer.symm, ctx.credentialOwner,
    List.mem_cons_self, token, ?_, howner, hamount⟩
  -- the token account is the associated one of owner and mint
  rw [hmint, ← hseeds]
  exact load_ok htoken

/-- **ONLY `request_credential` SETS MINT AND ISSUER**: after any other transaction a live
    request was live before, with the same two. -/
theorem request_of_step {i : CredentialInstruction} (h : step d l i = .ok l')
    (hother : ∀ ctx uri now, i ≠ .requestCredential ctx uri now)
    {seeds : CredentialRequestSeeds} {req' : CredentialRequest}
    (hreq : l'.requests seeds = some req') :
    ∃ req, l.requests seeds = some req ∧ req'.credentialMint = req.credentialMint ∧
      req'.issuer = req.issuer := by
  cases i with
  | createCredentialSpec ctx data now =>
      obtain ⟨-, h⟩ := ensure_bind_ok h
      obtain ⟨-, h⟩ := ensure_bind_ok h
      obtain ⟨_, -, h⟩ := bind_ok h
      obtain ⟨_, -, h⟩ := bind_ok h
      obtain ⟨-, h⟩ := ensure_bind_ok h
      obtain rfl := Except.ok.inj h
      exact ⟨req', hreq, rfl, rfl⟩
  | deleteCredentialSpec ctx =>
      obtain ⟨_, -, h⟩ := bind_ok h
      obtain ⟨_, -, h⟩ := bind_ok h
      obtain ⟨_, -, h⟩ := bind_ok h
      obtain rfl := Except.ok.inj h
      exact ⟨req', hreq, rfl, rfl⟩
  | requestCredential ctx uri now => exact absurd rfl (hother ctx uri now)
  | updateCredentialRequest ctx data =>
      obtain ⟨req, hload, h⟩ := bind_ok h
      obtain ⟨issuer, -, h⟩ := bind_ok h
      obtain ⟨req₁, hupdate, h⟩ := bind_ok h
      obtain ⟨-, h⟩ := ensure_bind_ok h
      obtain rfl := Except.ok.inj h
      rcases update_eq_some hreq with ⟨rfl, heq⟩ | ⟨-, hreq⟩
      · obtain rfl := Option.some.inj heq
        exact ⟨req, load_ok hload, updateCredentialRequest_ok hupdate⟩
      · exact ⟨req', hreq, rfl, rfl⟩
  | deleteCredentialRequest seeds' authority =>
      obtain ⟨_, -, h⟩ := bind_ok h
      obtain ⟨_, -, h⟩ := bind_ok h
      obtain rfl := Except.ok.inj h
      rcases update_eq_some hreq with ⟨-, heq⟩ | ⟨-, hreq⟩
      · exact nomatch heq
      · exact ⟨req', hreq, rfl, rfl⟩
  | updateCredential ctx data =>
      obtain ⟨_, -, h⟩ := bind_ok h
      obtain ⟨_, -, h⟩ := bind_ok h
      obtain ⟨_, -, h⟩ := bind_ok h
      obtain ⟨_, -, h⟩ := bind_ok h
      obtain rfl := Except.ok.inj h
      exact ⟨req', hreq, rfl, rfl⟩
  | others issuers tokens metadata =>
      obtain rfl := Except.ok.inj h
      exact ⟨req', hreq, rfl, rfl⟩

/-- A transaction that is no `request_credential` traces on. -/
theorem traced_of_other {i : CredentialInstruction}
    {h : List (Transition CredentialLedger CredentialInstruction)} (htraced : Traced h l)
    (hs : step d l i = .ok l') (hother : ∀ ctx uri now, i ≠ .requestCredential ctx uri now) :
    Traced (⟨l, i, l'⟩ :: h) l' := by
  intro seeds req' hreq'
  obtain ⟨req, hreq, hmint, hissuer⟩ := request_of_step hs hother hreq'
  obtain ⟨t, hlatest, hasked⟩ := htraced seeds req hreq
  refine ⟨t, hlatest.cons ?_, by rw [hmint, hissuer]; exact hasked⟩
  rintro ⟨ctx, uri, now, heq, -⟩
  exact hother ctx uri now heq

/-- A `request_credential` is the latest one for its request, and for no other. -/
theorem traced_of_requestCredential {ctx : RequestCredential} {uri : String} {now : Int}
    {h : List (Transition CredentialLedger CredentialInstruction)} (htraced : Traced h l)
    (hs : step d l (.requestCredential ctx uri now) = .ok l') :
    Traced (⟨l, .requestCredential ctx uri now, l'⟩ :: h) l' := by
  obtain ⟨req, hpost, hasked⟩ := request_of_requestCredential hs
  intro seeds req' hreq'
  rw [hpost] at hreq'
  rcases update_eq_some hreq' with ⟨rfl, heq⟩ | ⟨hne, hreq⟩
  · obtain rfl := Option.some.inj heq
    exact ⟨_, Latest.head ⟨ctx, uri, now, rfl, rfl⟩, hasked⟩
  · obtain ⟨t, hlatest, hasked'⟩ := htraced seeds req' hreq
    refine ⟨t, hlatest.cons ?_, hasked'⟩
    rintro ⟨ctx', uri', now', heq, hseeds⟩
    cases heq
    exact hne hseeds.symm

/-- **EVERY LIVE REQUEST IS TRACED**, in every run. -/
theorem traced_run {h : List (Transition CredentialLedger CredentialInstruction)}
    (r : Run (step d) empty h l) : Traced h l := by
  refine r.always (I := Traced) ?_ ?_
  · intro seeds req hreq
    exact nomatch hreq
  · intro h l i l' htraced hs
    -- only a `request_credential` makes or retargets a request
    by_cases hrequest : ∃ ctx uri now, i = .requestCredential ctx uri now
    · obtain ⟨ctx, uri, now, rfl⟩ := hrequest
      exact traced_of_requestCredential htraced hs
    · refine traced_of_other htraced hs ?_
      rintro ctx uri now rfl
      exact hrequest ⟨ctx, uri, now, rfl⟩

end CredentialLedger

/-- The signer of an update of the credential of `mint` is a root authority, or the
    authority of an enabled issuer that a holder of the token has asked, by the latest
    `request_credential` of a live request. -/
def MayWrite (rt : Runtime) (earlier : List (Transition CredentialLedger CredentialInstruction))
    (l : CredentialLedger) (mint signer : Pubkey) : Prop :=
  signer ∈ rt.authorizedAuthority ∨
    ∃ issuer iss seeds req t, l.issuers issuer = some iss ∧ iss.isDisabled = false ∧
      iss.authority = signer ∧ l.requests seeds = some req ∧ req.credentialMint = mint ∧
      req.issuer = issuer ∧ Latest (Requests seeds) earlier t ∧ AskedByHolder mint issuer t

/-- **WHO MAY WRITE A CREDENTIAL.**  In every run, whatever else happens to issuers, tokens
    and metadata: an update of a credential writes the metadata of its mint, and its signer
    may. -/
theorem credential_writer (testing devnet verifyOnChain : Bool) (altBn128 : AltBn128)
    (d : Deployment) (hd : d.runtime = deployed testing devnet verifyOnChain altBn128)
    (h : List (Transition CredentialLedger CredentialInstruction)) (l : CredentialLedger)
    (r : Run (CredentialLedger.step d) CredentialLedger.empty h l)
    (later earlier : List (Transition CredentialLedger CredentialInstruction))
    (t : Transition CredentialLedger CredentialInstruction) (hh : h = later ++ t :: earlier)
    (ctx : UpdateCredential) (data : UpdateCredentialData)
    (hcall : t.call = .updateCredential ctx data) :
    ∃ m, t.pre.metadata ctx.metadataAccount = some m ∧ m.mint = ctx.mint ∧
      MayWrite d.runtime earlier t.pre m.mint ctx.authority := by
  obtain ⟨r', hstep⟩ := r.split hh
  rw [hcall] at hstep
  obtain ⟨request, hrequest, hstep⟩ := bind_ok hstep
  obtain ⟨issuer, hissuer, hstep⟩ := bind_ok hstep
  obtain ⟨m, hm, hstep⟩ := bind_ok hstep
  obtain ⟨m', hupdate, -⟩ := bind_ok hstep
  obtain ⟨u, hauthorized, hinvoke⟩ := bind_ok hupdate
  have hmint : m.mint = ctx.mint := invokeUpdate_ok hinvoke
  refine ⟨m, load_ok hm, hmint, ?_⟩
  rcases authorizeUpdate_ok hauthorized with hroot | ⟨seeds, req, key, iss, rfl, rfl, hreqMint,
    hreqIssuer, henabled, hauthority⟩
  · refine Or.inl (hroot.resolve_left ?_)
    rw [hd]
    exact authorizedAuthority_ne_nil testing devnet
  · have hreq := loadOption_ok hrequest seeds req rfl
    obtain ⟨t₀, hlatest, hasked⟩ := CredentialLedger.traced_run r' seeds req hreq
    refine Or.inr ⟨key, iss, seeds, req, t₀, loadOption_ok hissuer key iss rfl, henabled,
      hauthority, hreq, hreqMint.trans hmint.symm, hreqIssuer, hlatest, ?_⟩
    rw [hmint, ← hreqMint, ← hreqIssuer]
    exact hasked

namespace CredentialSample

/-- A metadata program that checks the mint and the authority of the update. -/
def tokenMetadata : TokenMetadata where
  updateV1 args :=
    if args.metadata.data.mint = args.mint ∧ args.authority = Sample.key 9 then
      some { mint := args.mint, data := args.data }
    else none
  checksMint := by
    intro args m h
    split at h
    · next hcond => exact hcond.1
    · exact nomatch h

def deployment : Deployment where
  runtime := deployed false false true .atInfinity
  albusAuthority := Sample.key 9
  tokenMetadata := tokenMetadata
  specAddress _ _ := Sample.key 2

def holder : Pubkey := Sample.key 1

def mint : Pubkey := Sample.key 7

/-- The authority of the issuer. -/
def authority : Pubkey := Sample.key 6

/-- An issuer is there, and a credential has been minted to the holder. -/
def setting : CredentialInstruction :=
  .others
    (Function.update (fun _ => none) (Sample.key 5)
      (some { zkPubkey := .replicate 64 0, isDisabled := false, authority }))
    (Function.update (fun _ => none) ⟨holder, mint⟩ (some { owner := holder, amount := 1 }))
    (Function.update (fun _ => none) (Sample.key 8)
      (some { mint, data := ⟨"Albus Digital Credential", "ALBUS-DC", "", 0, none⟩ }))

def request : CredentialInstruction :=
  .requestCredential
    { credentialSpec := Sample.key 2
      credentialMint := mint
      credentialMetadata := Sample.key 8
      credentialToken := ⟨holder, mint⟩
      credentialOwner := holder
      issuer := Sample.key 5
      authority := holder
      bump := 255 }
    "presentation" Sample.now

def updateContext : UpdateCredential where
  credentialRequest := some ⟨Sample.key 2, holder⟩
  credentialRequestIssuer := some (Sample.key 5)
  mint := mint
  metadataAccount := Sample.key 8
  authority := authority

/-- The issuer makes a spec, the holder asks, and the issuer writes the credential. -/
def calls : List CredentialInstruction :=
  [setting,
    .createCredentialSpec { issuer := Sample.key 5, authority, bump := 255 }
      { code := "kyc", name := "KYC", uri := "" } Sample.now,
    request,
    .updateCredential updateContext { uri := "ipfs", name := none }]

def run : List (Transition CredentialLedger CredentialInstruction) × CredentialLedger :=
  exec (CredentialLedger.step deployment) CredentialLedger.empty calls

end CredentialSample

/-- The issuer of the sample may write, and is no root authority: the holder has asked
    it. -/
theorem credential_writer_sample :
    CredentialSample.authority ∉ CredentialSample.deployment.runtime.authorizedAuthority ∧
      ∃ t earlier, CredentialSample.run.1 = t :: earlier ∧
        t.call = .updateCredential CredentialSample.updateContext
          { uri := "ipfs", name := none } ∧
        ∃ m, t.pre.metadata (Sample.key 8) = some m ∧ m.mint = CredentialSample.mint ∧
          MayWrite CredentialSample.deployment.runtime earlier t.pre m.mint
            CredentialSample.authority := by
  refine ⟨by decide +kernel, ?_⟩
  have hcalls : CredentialSample.run.1.map (fun t => t.call)
      = CredentialSample.calls.reverse := exec_calls (by decide +kernel)
  have r : Run (CredentialLedger.step CredentialSample.deployment) CredentialLedger.empty
      CredentialSample.run.1 CredentialSample.run.2 := run_exec _ _ _
  obtain ⟨t, earlier, heq, hcall, -⟩ := List.map_eq_cons_iff.mp hcalls
  have hupdate : t.call = .updateCredential CredentialSample.updateContext
      { uri := "ipfs", name := none } := hcall
  exact ⟨t, earlier, heq, hupdate,
    credential_writer false false true .atInfinity CredentialSample.deployment rfl _ _ r []
      earlier t heq CredentialSample.updateContext _ hupdate⟩

end Albus.Program
