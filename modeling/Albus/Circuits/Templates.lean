import Albus.Circuits.Age
import Albus.Circuits.Country
import Albus.Circuits.Credential
import Albus.Circuits.Encryption

/-! # The proof templates

    `ageProof.circom`, `kyc.circom`, `residenceProof.circom` and
    `credentialTypeProof.circom`, each with its inputs, its remaining signals and
    its constraints.  An `assert` of a template is not a constraint and has no
    field here. -/

namespace Albus.Circuits

/-! ## AgeProof -/

namespace AgeProof

structure Inputs where
  timestamp : F
  ageRange : F
  birthDate : Claim
  metaValidUntil : Claim
  credentialRoot : F
  issuer : Issuer
  userPrivateKey : F
  trusteePublicKey : ℕ → F × F

structure Signals where
  encryptedData : ℕ → F
  encryptedShare : ℕ → ℕ → F
  userPublicKey : F × F
  expiry : ExpiryCheck.Signals
  secret : F
  enc : EncryptionProof.Signals
  range : AgeRange.Signals
  age : AgeCheck.Signals

/-- `AgeProof(credentialDepth, shamirN, shamirK)`. -/
structure Constraints (lib : Circomlib) (credentialDepth shamirN shamirK : ℕ)
    (x : Inputs) (s : Signals) : Prop where
  upk : lib.babyPbk x.userPrivateKey s.userPublicKey.1 s.userPublicKey.2
  expiry : ExpiryCheck.Constraints lib x.timestamp x.metaValidUntil.value s.expiry
  eddsa : lib.eddsaPoseidonVerifier (x.issuer.eddsa x.credentialRoot)
  mtp : MerkleProof.Constraints lib credentialDepth x.credentialRoot
    [x.birthDate, x.metaValidUntil]
  secret : lib.poseidon [x.userPrivateKey, x.credentialRoot, x.timestamp] s.secret
  enc : EncryptionProof.Constraints lib 1 shamirN shamirK x.userPrivateKey
    x.trusteePublicKey x.timestamp s.secret (fun _ => x.birthDate.value) s.enc
  encryptedData : ∀ i < adjustToMultiple 1 3 + 1,
    s.encryptedData i = s.enc.encryptedData i
  encryptedShare : ∀ i < shamirN, ∀ j < 4,
    s.encryptedShare i j = s.enc.encryptedShare i j
  range : AgeRange.Constraints lib x.ageRange s.range
  age : AgeCheck.Constraints lib x.birthDate.value s.age

/-- The hints of the age part are honest. -/
structure AgeHints (x : Inputs) (s : Signals) : Prop where
  range : CanonicalBits x.ageRange s.range.bits
  age : AgeCheck.Hints x.timestamp x.birthDate.value s.range.minAge s.range.maxAge s.age

end AgeProof

/-! ## Kyc -/

namespace Kyc

structure Inputs where
  config : F
  timestamp : F
  countryLookup : ℕ → F
  givenName : Claim
  familyName : Claim
  birthDate : Claim
  country : Claim
  docNumber : Claim
  metaValidUntil : Claim
  credentialRoot : F
  issuer : Issuer
  userPrivateKey : F
  trusteePublicKey : ℕ → F × F

structure Signals where
  encryptedData : ℕ → F
  encryptedShare : ℕ → ℕ → F
  userPublicKey : F × F
  /-- `cfg`: `minAge` and `maxAge` as in `AgeRange`. -/
  cfg : AgeRange.Signals
  countrySelectionMode : F
  expiry : ExpiryCheck.Signals
  secret : F
  enc : EncryptionProof.Signals
  age : AgeCheck.Signals
  countryCheck : CountryProof.Signals

/-- The claims disclosed to the trustees. -/
def data (x : Inputs) (i : ℕ) : F :=
  [x.givenName.value, x.familyName.value, x.birthDate.value, x.country.value,
    x.docNumber.value].getD i 0

/-- `Kyc(credentialDepth, countryLookupSize, shamirN, shamirK)`. -/
structure Constraints (lib : Circomlib)
    (credentialDepth countryLookupSize shamirN shamirK : ℕ) (x : Inputs)
    (s : Signals) : Prop where
  cfg : AgeRange.Constraints lib x.config s.cfg
  mode : s.countrySelectionMode = bin2Num 8 16 s.cfg.bits
  upk : lib.babyPbk x.userPrivateKey s.userPublicKey.1 s.userPublicKey.2
  eddsa : lib.eddsaPoseidonVerifier (x.issuer.eddsa x.credentialRoot)
  mtp : MerkleProof.Constraints lib credentialDepth x.credentialRoot
    [x.givenName, x.familyName, x.birthDate, x.country, x.docNumber, x.metaValidUntil]
  expiry : ExpiryCheck.Constraints lib x.timestamp x.metaValidUntil.value s.expiry
  secret : lib.poseidon [x.userPrivateKey, x.credentialRoot, x.timestamp] s.secret
  enc : EncryptionProof.Constraints lib 5 shamirN shamirK x.userPrivateKey
    x.trusteePublicKey x.timestamp s.secret (data x) s.enc
  encryptedData : ∀ i < adjustToMultiple 5 3 + 1,
    s.encryptedData i = s.enc.encryptedData i
  encryptedShare : ∀ i < shamirN, ∀ j < 4,
    s.encryptedShare i j = s.enc.encryptedShare i j
  age : AgeCheck.Constraints lib x.birthDate.value s.age
  countryCheck : CountryProof.Constraints lib countryLookupSize x.countryLookup
    x.country.value s.countrySelectionMode s.countryCheck

/-- The hints of the age part are honest. -/
structure AgeHints (x : Inputs) (s : Signals) : Prop where
  cfg : CanonicalBits x.config s.cfg.bits
  age : AgeCheck.Hints x.timestamp x.birthDate.value s.cfg.minAge s.cfg.maxAge s.age

end Kyc

/-! ## ResidenceProof -/

namespace ResidenceProof

structure Inputs where
  timestamp : F
  selectionMode : F
  countryLookup : ℕ → F
  country : Claim
  metaValidUntil : Claim
  credentialRoot : F
  issuer : Issuer

structure Signals where
  expiry : ExpiryCheck.Signals
  countryCheck : CountryProof.Signals

/-- `ResidenceProof(credentialDepth, lookupN)`. -/
structure Constraints (lib : Circomlib) (credentialDepth lookupN : ℕ) (x : Inputs)
    (s : Signals) : Prop where
  expiry : ExpiryCheck.Constraints lib x.timestamp x.metaValidUntil.value s.expiry
  mtp : MerkleProof.Constraints lib credentialDepth x.credentialRoot
    [x.country, x.metaValidUntil]
  eddsa : lib.eddsaPoseidonVerifier (x.issuer.eddsa x.credentialRoot)
  countryCheck : CountryProof.Constraints lib lookupN x.countryLookup x.country.value
    x.selectionMode s.countryCheck

end ResidenceProof

/-! ## CredentialTypeProof -/

namespace CredentialTypeProof

structure Inputs where
  timestamp : F
  expectedType : ℕ → F
  metaType : Claim
  metaValidUntil : Claim
  credentialRoot : F
  issuer : Issuer

structure Signals where
  res : IN.Signals
  expiry : ExpiryCheck.Signals

/-- `CredentialTypeProof(credentialDepth, typesN)`. -/
structure Constraints (lib : Circomlib) (credentialDepth typesN : ℕ) (x : Inputs)
    (s : Signals) : Prop where
  res : IN.Constraints lib typesN x.metaType.value x.expectedType s.res
  isType : s.res.out = 1
  expiry : ExpiryCheck.Constraints lib x.timestamp x.metaValidUntil.value s.expiry
  eddsa : lib.eddsaPoseidonVerifier (x.issuer.eddsa x.credentialRoot)
  mtp : MerkleProof.Constraints lib credentialDepth x.credentialRoot
    [x.metaType, x.metaValidUntil]

end CredentialTypeProof

/-! ## A credential

    The tree of a credential with seven claims, signed by an issuer: born on
    2010-05-01, country `US`, citizenship `DE`, valid until 1690000000. -/

namespace SampleCredential

def root : F :=
  7554201440938858969348533783119828858362924701344397818848577911808286986660

def issuer : Issuer where
  pk := (2488641429104973733991506366993520129020313102517093757922649396762934478296,
    1292517996395749793484556972806476327108702948948501032225821981216271523610)
  signature := (8783068337255451040674362669909623731058158361494085693042228810760243189209,
    21486302377297140838931319404575517390734183283142797513159224226363621295381,
    2303333090070900741800781095181260097446816429084938377934533464756940749171)

/-- `2010-05-01`, the first claim. -/
def birthDateProof : List F :=
  [15446753169790234169731118814369285095631352240032335174677808131918059542481,
    6266535792078286433374549912229232170783188733618499678732020863888768006625,
    6171817341674271800201683665463967213845156317364204370373101343857977847626]

def birthDate : Claim where
  value := 237007312241612133576753
  key := 0
  proof i := birthDateProof.getD i 0

/-- `US`, the second claim. -/
def countryProof : List F :=
  [15357445154965558551108079378484611378432932817291415611857262668841276614679,
    7852501285193903998010627912688149576950041269464665253032514215075915252902,
    20448906389520165868960963791722105112976798288524824736339221333498900287238]

def country : Claim where
  value := 21843
  key := 1
  proof i := countryProof.getD i 0

/-- `DE`, the third claim. -/
def citizenshipProof : List F :=
  [15446753169790234169731118814369285095631352240032335174677808131918059542481,
    20950684088744134793708982241403995555018594297596393231160681075018628112562,
    13116395317153945750256290596666055003899433781004202162379020816368061554750]

def citizenship : Claim where
  value := 17477
  key := (2 : ℕ)
  proof i := citizenshipProof.getD i 0

/-- `1690000000`, the sixth claim. -/
def metaValidUntilProof : List F :=
  [15357445154965558551108079378484611378432932817291415611857262668841276614679,
    7852501285193903998010627912688149576950041269464665253032514215075915252902,
    7498214338380457120548259073797844692941605812140773498561149372974187363259]

def metaValidUntil : Claim where
  value := 232396202687235500290096
  key := 5
  proof i := metaValidUntilProof.getD i 0

def claims : List Claim := [birthDate, country, citizenship, metaValidUntil]

/-- The inclusion of a claim, in a circuit of a depth. -/
def inclusion (nLevels : ℕ) (c : Claim) : List F × F × F × F :=
  ((List.range nLevels).map c.proof, c.key, c.value, root)

/-- The tree's inclusions, at the depths of the deployed circuits, and the issuer's
    signature. -/
def table : CryptoTable :=
  { CryptoTable.empty with
    eddsa := [issuer.eddsa root]
    smtInclusion := claims.map (inclusion 5) ++ claims.map (inclusion 6) }

/-- The claims are in the tree. -/
theorem mtp {table' : CryptoTable} (h : table'.smtInclusion = table.smtInclusion)
    {nLevels : ℕ} (hn : nLevels = 5 ∨ nLevels = 6) {cs : List Claim}
    (hc : ∀ c ∈ cs, c ∈ claims) :
    MerkleProof.Constraints (.reference table') nLevels root cs := by
  intro c hmem
  refine ⟨rfl, rfl, ?_⟩
  show inclusion nLevels c ∈ table'.smtInclusion
  rw [h]
  rcases hn with rfl | rfl
  · exact List.mem_append_left _ (List.mem_map_of_mem (hc c hmem))
  · exact List.mem_append_right _ (List.mem_map_of_mem (hc c hmem))

end SampleCredential

end Albus.Circuits
