import Albus.Program.Services

/-! # Credentials

    `instructions/credential/*.rs`: the specs of an issuer, the requests for a
    credential and the writing of its metadata, with the machine they form.  A
    credential is a token: whoever holds it asks an issuer to fill in the metadata of
    its mint.

    A request lives at the address of its spec and its authority, a token account at
    that of its owner and its mint; both derivations are taken as collision-free.
    Issuers, tokens and metadata change by other instructions and by other programs
    as well, in any way (`CredentialInstruction.others`). -/

namespace Albus.Program

open Albus.Lib

/-! ## Accounts -/

/-- `Issuer`, with the authority that manages it. -/
structure IssuerAccount extends Issuer where
  authority : Pubkey
  deriving DecidableEq

structure CredentialSpec where
  issuer : Pubkey
  code : String
  name : String
  credentialRequestCount : Nat
  createdAt : Int
  bump : UInt8
  uri : String
  deriving DecidableEq

inductive CredentialRequestStatus where
  | pending
  | inProgress
  | approved
  | rejected
  deriving DecidableEq, Repr

structure CredentialRequest where
  authority : Pubkey
  credentialOwner : Pubkey
  credentialSpec : Pubkey
  credentialMint : Pubkey
  issuer : Pubkey
  status : CredentialRequestStatus
  createdAt : Int
  bump : UInt8
  uri : String
  message : String
  deriving DecidableEq

/-- The seeds of a request's address. -/
structure CredentialRequestSeeds where
  credentialSpec : Pubkey
  authority : Pubkey
  deriving DecidableEq

/-- The seeds of an associated token account's address. -/
structure TokenSeeds where
  owner : Pubkey
  mint : Pubkey
  deriving DecidableEq

/-- A token account; its mint is in its address. -/
structure TokenAccount where
  owner : Pubkey
  amount : UInt64
  deriving DecidableEq

structure Creator where
  address : Pubkey
  verified : Bool
  share : UInt8
  deriving DecidableEq

/-- `Data`: what an update of the metadata sets. -/
structure MetadataData where
  name : String
  symbol : String
  uri : String
  sellerFeeBasisPoints : UInt16
  creators : Option (List Creator)
  deriving DecidableEq

/-- The metadata of a mint. -/
structure MetadataAccount where
  mint : Pubkey
  data : MetadataData
  deriving DecidableEq

/-- `CredentialSpec::space`. -/
def CredentialSpec.space : Nat :=
  8 + 32 + (4 + 16) + (4 + 32) + 8 + 8 + 1 + (4 + 200)

def CredentialSpec.serializedLen (s : CredentialSpec) : Nat :=
  8 + 32 + (4 + s.code.utf8ByteSize) + (4 + s.name.utf8ByteSize) + 8 + 8 + 1
    + (4 + s.uri.utf8ByteSize)

/-- `CredentialRequest::space`. -/
def CredentialRequest.space : Nat := 8 + 5 * 32 + 1 + 8 + 1 + (4 + 200) + (4 + 128)

def CredentialRequest.serializedLen (r : CredentialRequest) : Nat :=
  8 + 5 * 32 + 1 + 8 + 1 + (4 + r.uri.utf8ByteSize) + (4 + r.message.utf8ByteSize)

/-- `MAX_CRED_REQ_MSG_LEN`. -/
def maxCredReqMsgLen : Nat := 128

/-! ## The Token Metadata program -/

/-- The accounts and the argument of its `UpdateV1`. -/
structure UpdateV1 where
  metadata : Account MetadataAccount
  authority : Pubkey
  token : Option TokenSeeds
  mint : Pubkey
  payer : Pubkey
  data : MetadataData

/-- The program: an update either fails or leaves new metadata, and it checks that the
    metadata belongs to the mint. -/
structure TokenMetadata where
  updateV1 : UpdateV1 → Option MetadataAccount
  checksMint : ∀ args m, updateV1 args = some m → args.metadata.data.mint = args.mint

/-- What the credential instructions run on. -/
structure Deployment where
  runtime : Runtime
  /-- The program's own authority, derived from `ID`. -/
  albusAuthority : Pubkey
  tokenMetadata : TokenMetadata
  /-- The address derived from a spec's issuer and code. -/
  specAddress : Pubkey → String → Pubkey

/-! ## Errors and checks -/

inductive CredentialError where
  | program (e : ProgramError)
  | constraintTokenOwner
  | constraintAssociated
  | constraintRaw
  /-- The Token Metadata program refused. -/
  | updateRefused
  deriving DecidableEq, Repr

def CredentialError.unauthorized : CredentialError := .program (.albus .unauthorized)

/-- A constraint or a check of a handler. -/
def ensure (cond : Prop) [Decidable cond] (e : CredentialError) :
    Except CredentialError Unit :=
  if cond then .ok () else .error e

/-- The account at an address. -/
def load {κ α : Type} (m : κ → Option α) (k : κ) : Except CredentialError α :=
  match m k with
  | some a => .ok a
  | none => .error (.program .accountNotInitialized)

/-- An optional account, with its address. -/
def loadOption {κ α : Type} (m : κ → Option α) (k : Option κ) :
    Except CredentialError (Option (κ × α)) :=
  match k with
  | none => .ok none
  | some k => do
      let a ← load m k
      .ok (some (k, a))

/-- The call of `UpdateV1`. -/
def invokeUpdate (d : Deployment) (args : UpdateV1) :
    Except CredentialError MetadataAccount :=
  match d.tokenMetadata.updateV1 args with
  | some m => .ok m
  | none => .error .updateRefused

/-! ## The handlers of a spec -/

structure CreateCredentialSpecData where
  code : String
  name : String
  uri : String

structure CreateCredentialSpec where
  issuer : Pubkey
  authority : Pubkey
  bump : UInt8

/-- A root authority, or the authority of the issuer. -/
def assertIssuerAuthorized (rt : Runtime) (issuer : IssuerAccount) (authority : Pubkey) :
    Except CredentialError Unit :=
  ensure ((assertAuthorized rt authority).isOk = true ∨ issuer.authority = authority)
    .unauthorized

/-- `create_credential_spec::handler`. -/
def createCredentialSpec (rt : Runtime) (ctx : CreateCredentialSpec)
    (data : CreateCredentialSpecData) (now : Int) (issuer : IssuerAccount) :
    Except CredentialError CredentialSpec := do
  assertIssuerAuthorized rt issuer ctx.authority
  .ok
    { issuer := ctx.issuer
      code := data.code
      name := data.name
      credentialRequestCount := 0
      createdAt := now
      bump := ctx.bump
      uri := data.uri }

structure DeleteCredentialSpec where
  credentialSpec : Pubkey
  authority : Pubkey
  issuer : Pubkey

/-- `delete_credential_spec::handler`. -/
def deleteCredentialSpec (rt : Runtime) (ctx : DeleteCredentialSpec) (issuer : IssuerAccount)
    (spec : CredentialSpec) : Except CredentialError Unit := do
  ensure (spec.issuer = ctx.issuer) (.program .constraintHasOne)
  assertIssuerAuthorized rt issuer ctx.authority

/-! ## The handlers of a request -/

/-- The accounts of `request_credential`, with its two signers. -/
structure RequestCredential where
  credentialSpec : Pubkey
  credentialMint : Pubkey
  credentialMetadata : Pubkey
  credentialToken : TokenSeeds
  credentialOwner : Pubkey
  issuer : Pubkey
  authority : Pubkey
  bump : UInt8

def RequestCredential.seeds (ctx : RequestCredential) : CredentialRequestSeeds :=
  ⟨ctx.credentialSpec, ctx.authority⟩

/-- `request_credential::handler`, which writes every field of the request: the spec, the
    request and the metadata. -/
def requestCredential (d : Deployment) (ctx : RequestCredential) (uri : String) (now : Int)
    (spec : CredentialSpec) (metadata : MetadataAccount) (token : TokenAccount) :
    Except CredentialError (CredentialSpec × CredentialRequest × MetadataAccount) := do
  ensure (spec.issuer = ctx.issuer) (.program .constraintHasOne)
  ensure (token.owner = ctx.credentialOwner) .constraintTokenOwner
  ensure (ctx.credentialToken = ⟨ctx.credentialOwner, ctx.credentialMint⟩)
    .constraintAssociated
  ensure (token.amount = 1) .constraintRaw
  let count ← (incrementU64 spec.credentialRequestCount).mapError .program
  -- `// Reset credential if needed`: an empty uri is a pending credential
  let metadata ← invokeUpdate d
    { metadata := ⟨ctx.credentialMetadata, metadata⟩
      authority := d.albusAuthority
      token := some ctx.credentialToken
      mint := ctx.credentialMint
      payer := ctx.authority
      data := { metadata.data with uri := "" } }
  .ok
    ({ spec with credentialRequestCount := count },
      { authority := ctx.authority
        credentialOwner := ctx.credentialOwner
        credentialSpec := ctx.credentialSpec
        credentialMint := ctx.credentialMint
        issuer := ctx.issuer
        status := .pending
        createdAt := now
        bump := ctx.bump
        uri := uri
        message := "" },
      metadata)

structure UpdateCredentialRequestData where
  status : CredentialRequestStatus
  message : String

structure UpdateCredentialRequest where
  credentialRequest : CredentialRequestSeeds
  issuer : Pubkey
  authority : Pubkey

/-- `update_credential_request::handler`. -/
def updateCredentialRequest (ctx : UpdateCredentialRequest)
    (data : UpdateCredentialRequestData) (req : CredentialRequest) (issuer : IssuerAccount) :
    Except CredentialError CredentialRequest := do
  ensure (req.issuer = ctx.issuer) (.program .constraintHasOne)
  ensure (issuer.authority = ctx.authority) (.program .constraintHasOne)
  ensure (data.message.utf8ByteSize ≤ maxCredReqMsgLen) (.program (.albus .invalidData))
  .ok { req with status := data.status, message := data.message }

/-- `delete_credential_request::handler`, signed by `authority`. -/
def deleteCredentialRequest (rt : Runtime) (authority : Pubkey) (req : CredentialRequest) :
    Except CredentialError Unit :=
  ensure ((assertAuthorized rt authority).isOk = true ∨ req.authority = authority)
    .unauthorized

/-! ## update_credential -/

structure UpdateCredentialData where
  uri : String
  name : Option String

structure UpdateCredential where
  credentialRequest : Option CredentialRequestSeeds
  credentialRequestIssuer : Option Pubkey
  mint : Pubkey
  metadataAccount : Pubkey
  authority : Pubkey

/-- The checks of `update_credential::handler`: without a request a root authority,
    with one the authority of its issuer. -/
def authorizeUpdate (rt : Runtime) (ctx : UpdateCredential)
    (request : Option (CredentialRequestSeeds × CredentialRequest))
    (issuer : Option (Pubkey × IssuerAccount)) : Except CredentialError Unit :=
  match request with
  | none => (assertAuthorized rt ctx.authority).mapError .program
  | some (_, req) => do
      ensure (req.credentialMint = ctx.mint) .unauthorized
      match issuer with
      -- a request without its issuer
      | none => .error .unauthorized
      | some (key, issuer) => do
          ensure (issuer.isDisabled = false) .unauthorized
          ensure (req.issuer = key) .unauthorized
          ensure (issuer.authority = ctx.authority) .unauthorized

/-- `update_credential::handler`: the new metadata. -/
def updateCredential (d : Deployment) (ctx : UpdateCredential) (data : UpdateCredentialData)
    (request : Option (CredentialRequestSeeds × CredentialRequest))
    (issuer : Option (Pubkey × IssuerAccount)) (metadata : MetadataAccount) :
    Except CredentialError MetadataAccount := do
  authorizeUpdate d.runtime ctx request issuer
  invokeUpdate d
    { metadata := ⟨ctx.metadataAccount, metadata⟩
      authority := d.albusAuthority
      token := none
      mint := ctx.mint
      payer := d.albusAuthority
      data :=
        { metadata.data with
          name := data.name.getD metadata.data.name
          uri := data.uri } }

/-! ## The machine -/

structure CredentialLedger where
  issuers : Pubkey → Option IssuerAccount
  specs : Pubkey → Option CredentialSpec
  requests : CredentialRequestSeeds → Option CredentialRequest
  tokens : TokenSeeds → Option TokenAccount
  metadata : Pubkey → Option MetadataAccount

inductive CredentialInstruction where
  | createCredentialSpec (ctx : CreateCredentialSpec) (data : CreateCredentialSpecData)
      (now : Int)
  | deleteCredentialSpec (ctx : DeleteCredentialSpec)
  | requestCredential (ctx : RequestCredential) (uri : String) (now : Int)
  | updateCredentialRequest (ctx : UpdateCredentialRequest)
      (data : UpdateCredentialRequestData)
  | deleteCredentialRequest (credentialRequest : CredentialRequestSeeds) (authority : Pubkey)
  | updateCredential (ctx : UpdateCredential) (data : UpdateCredentialData)
  /-- Whatever else happens to issuers, tokens and metadata. -/
  | others (issuers : Pubkey → Option IssuerAccount) (tokens : TokenSeeds → Option TokenAccount)
      (metadata : Pubkey → Option MetadataAccount)

/-- The `Signer` accounts of an instruction. -/
def CredentialInstruction.signers : CredentialInstruction → List Pubkey
  | .createCredentialSpec ctx _ _ => [ctx.authority]
  | .deleteCredentialSpec ctx => [ctx.authority]
  | .requestCredential ctx _ _ => [ctx.credentialOwner, ctx.authority]
  | .updateCredentialRequest ctx _ => [ctx.authority]
  | .deleteCredentialRequest _ authority => [authority]
  | .updateCredential ctx _ => [ctx.authority]
  | .others _ _ _ => []

namespace CredentialLedger

/-- No account exists. -/
def empty : CredentialLedger where
  issuers _ := none
  specs _ := none
  requests _ := none
  tokens _ := none
  metadata _ := none

/-- One transaction. -/
def step (d : Deployment) (l : CredentialLedger) :
    CredentialInstruction → Except CredentialError CredentialLedger
  | .createCredentialSpec ctx data now => do
      let address := d.specAddress ctx.issuer data.code
      ensure (data.code.utf8ByteSize ≤ maxSeedLen) (.program .panicked)
      ensure (l.specs address = none) (.program .accountAlreadyInUse)
      let issuer ← load l.issuers ctx.issuer
      let spec ← createCredentialSpec d.runtime ctx data now issuer
      ensure (spec.serializedLen ≤ CredentialSpec.space) (.program .accountDidNotSerialize)
      .ok { l with specs := Function.update l.specs address (some spec) }
  | .deleteCredentialSpec ctx => do
      let spec ← load l.specs ctx.credentialSpec
      let issuer ← load l.issuers ctx.issuer
      deleteCredentialSpec d.runtime ctx issuer spec
      .ok { l with specs := Function.update l.specs ctx.credentialSpec none }
  | .requestCredential ctx uri now => do
      let spec ← load l.specs ctx.credentialSpec
      let metadata ← load l.metadata ctx.credentialMetadata
      let token ← load l.tokens ctx.credentialToken
      let _ ← load l.issuers ctx.issuer
      let (spec, req, metadata) ← requestCredential d ctx uri now spec metadata token
      ensure (req.serializedLen ≤ CredentialRequest.space) (.program .accountDidNotSerialize)
      .ok { l with
        specs := Function.update l.specs ctx.credentialSpec (some spec)
        requests := Function.update l.requests ctx.seeds (some req)
        metadata := Function.update l.metadata ctx.credentialMetadata (some metadata) }
  | .updateCredentialRequest ctx data => do
      let req ← load l.requests ctx.credentialRequest
      let issuer ← load l.issuers ctx.issuer
      let req ← updateCredentialRequest ctx data req issuer
      ensure (req.serializedLen ≤ CredentialRequest.space) (.program .accountDidNotSerialize)
      .ok { l with requests := Function.update l.requests ctx.credentialRequest (some req) }
  | .deleteCredentialRequest credentialRequest authority => do
      let req ← load l.requests credentialRequest
      deleteCredentialRequest d.runtime authority req
      .ok { l with requests := Function.update l.requests credentialRequest none }
  | .updateCredential ctx data => do
      let request ← loadOption l.requests ctx.credentialRequest
      let issuer ← loadOption l.issuers ctx.credentialRequestIssuer
      let metadata ← load l.metadata ctx.metadataAccount
      let metadata ← updateCredential d ctx data request issuer metadata
      .ok { l with
        metadata := Function.update l.metadata ctx.metadataAccount (some metadata) }
  | .others issuers tokens metadata => .ok { l with issuers, tokens, metadata }

end CredentialLedger

end Albus.Program
