import Albus.Circuits.PoseidonEncryption
import Albus.Core.Shamir
import Albus.Core.Smt
import Albus.Sdk.InvestigationManager

/-! # Decrypting the disclosed claims

    `ProofRequestManager.decryptData` and its two callers.  The length of the message
    is computed from the length of the ciphertext by an expression in which `%` binds
    tighter than `-`: it is zero for every ciphertext (`decryptLength_eq_zero`).  So
    the plaintext is cut to no elements, and no claim is ever decrypted
    (`claims_never_decrypted`). -/

namespace Albus.Sdk

open Albus.Lib Albus.Core Albus.Program Albus.Circuits

/-! ## ProofRequestManager.decryptData -/

/-- The signals that are read; one that the circuit does not have is `none`. -/
structure DisclosedSignals where
  timestamp : Option ℕ
  encryptedData : Option (List ℕ)
  birthDateProof : Option (List ℕ)
  birthDateKey : Option ℕ
  credentialRoot : Option ℕ
  issuerPk : Option (List ℕ)
  issuerSignature : Option (List ℕ)
  userPublicKey : Option (List ℕ)

structure DecryptedClaim where
  proof : Option (List ℕ)
  key : Option ℕ
  value : Option ℕ
  deriving DecidableEq

structure DecryptedData where
  birthDate : DecryptedClaim
  credentialRoot : Option ℕ
  issuerPk : Option (List ℕ)
  issuerSignature : Option (List ℕ)
  userPublicKey : Option (List ℕ)
  deriving DecidableEq

/-- `encryptedData.length - 1 - (encryptedData.length - 1 % 3)`. -/
def decryptLength (length : ℕ) : ℤ := (length : ℤ) - 1 - ((length : ℤ) - 1 % 3)

section DecryptData

variable (permute : SpongeState ℕ → SpongeState ℕ)

def ProofRequestManager.decryptData (secret : ℕ) (signals : DisclosedSignals) :
    Except String DecryptedData :=
  -- an absent nonce takes the default of the parameter
  let nonce := signals.timestamp.getD 0
  let encryptedData := signals.encryptedData.getD []
  let length := decryptLength encryptedData.length
  match poseidonDecrypt permute encryptedData (secret, secret) length.toNat nonce with
  | none => .error "AssertionError"
  | some data => .ok
      { birthDate :=
          { proof := signals.birthDateProof
            key := signals.birthDateKey
            value := data[0]? }
        credentialRoot := signals.credentialRoot
        issuerPk := signals.issuerPk
        issuerSignature := signals.issuerSignature
        userPublicKey := signals.userPublicKey }

/-- What `generateVerifiablePresentation` makes the credential of: `hash` is the hash
    of the secret, `privateKey` the formatted key. -/
def ProofRequestManager.presentationData (hash : List ℕ → ℕ) (privateKey : ℕ)
    (signals : DisclosedSignals) : Except String DecryptedData :=
  match signals.credentialRoot, signals.timestamp with
  | some credentialRoot, some timestamp =>
    let secret := Poseidon.hash hash [privateKey, credentialRoot, timestamp]
    decryptData permute secret signals
  | _, _ => .error "TypeError"

/-- `InvestigationManager.decryptData`, on the accounts it loads. -/
def InvestigationManager.decryptData (decryptShare : List UInt8 → Except String ℕ)
    (encryptionKey : Pubkey) (investigationRequest : InvestigationRequest)
    (shares : List (Option InvestigationRequestShare)) (signals : DisclosedSignals) :
    Except String DecryptedData :=
  if shares.length < investigationRequest.requiredShareCount.toNat then
    .error "Invalid shares count"
  else if encryptionKey ≠ investigationRequest.encryptionKey then
    .error "Invalid encryption key"
  else do
    let decryptedShares ← collectShares decryptShare shares
    let secret ← reconstructShamirSecret investigationRequest.requiredShareCount.toNat
      (decryptedShares.map fun entry => (entry.1.toNat, entry.2))
    ProofRequestManager.decryptData permute secret signals

/-- What is handed over for reconstruction is what `decryptedShares` returns. -/
theorem InvestigationManager.decryptData_eq (decryptShare : List UInt8 → Except String ℕ)
    (encryptionKey : Pubkey) (investigationRequest : InvestigationRequest)
    (shares : List (Option InvestigationRequestShare)) (signals : DisclosedSignals) :
    InvestigationManager.decryptData permute decryptShare encryptionKey
        investigationRequest shares signals = (do
      let entries ← decryptedShares decryptShare encryptionKey investigationRequest shares
      let secret ← reconstructShamirSecret investigationRequest.requiredShareCount.toNat
        (entries.map fun entry => (entry.1.toNat, entry.2))
      ProofRequestManager.decryptData permute secret signals) := by
  rw [InvestigationManager.decryptData, decryptedShares]
  split_ifs
  · rfl
  · rfl
  · rfl

end DecryptData

/-! ## Nothing is decrypted -/

theorem decryptLength_eq_zero (length : ℕ) : decryptLength length = 0 := by
  rw [decryptLength]
  omega

/-- The first claim was decrypted, to `v`. -/
def DecryptsTo (result : Except String DecryptedData) (v : ℕ) : Prop :=
  ∃ data, result = .ok data ∧ data.birthDate.value = some v

section Never

variable {permute : SpongeState ℕ → SpongeState ℕ}

theorem poseidonDecrypt_zero {ciphertext data : List ℕ} {sharedKey : ℕ × ℕ} {nonce : ℕ}
    (h : poseidonDecrypt permute ciphertext sharedKey 0 nonce = some data) :
    data = [] := by
  simp only [poseidonDecrypt, List.take_zero] at h
  split_ifs at h
  exact (Option.some.inj h).symm

theorem decryptData_value {secret : ℕ} {signals : DisclosedSignals}
    {data : DecryptedData}
    (h : ProofRequestManager.decryptData permute secret signals = .ok data) :
    data.birthDate.value = none := by
  simp only [ProofRequestManager.decryptData, decryptLength_eq_zero, Int.toNat_zero] at h
  cases hdecrypt : poseidonDecrypt permute (signals.encryptedData.getD [])
      (secret, secret) 0 (signals.timestamp.getD 0) with
  | none =>
      rw [hdecrypt] at h
      exact nomatch h
  | some message =>
      rw [hdecrypt] at h
      obtain rfl := Except.ok.inj h
      rw [poseidonDecrypt_zero hdecrypt]
      rfl

theorem not_decryptsTo (secret : ℕ) (signals : DisclosedSignals) (v : ℕ) :
    ¬ DecryptsTo (ProofRequestManager.decryptData permute secret signals) v := by
  rintro ⟨data, hok, hv⟩
  rw [decryptData_value hok] at hv
  exact nomatch hv

end Never

/-- **NO CLAIM IS EVER DECRYPTED**, by the client nor by its two callers, whatever the
    permutation, the secret and the signals. -/
theorem claims_never_decrypted (permute : SpongeState ℕ → SpongeState ℕ) (v : ℕ) :
    (∀ secret signals,
      ¬ DecryptsTo (ProofRequestManager.decryptData permute secret signals) v) ∧
    (∀ hash privateKey signals,
      ¬ DecryptsTo
        (ProofRequestManager.presentationData permute hash privateKey signals) v) ∧
    ∀ decryptShare encryptionKey investigationRequest shares signals,
      ¬ DecryptsTo (InvestigationManager.decryptData permute decryptShare encryptionKey
        investigationRequest shares signals) v := by
  refine ⟨fun _ _ => not_decryptsTo _ _ _, ?_, ?_⟩
  · rintro hash privateKey signals ⟨data, hok, hv⟩
    rw [ProofRequestManager.presentationData] at hok
    cases hroot : signals.credentialRoot with
    | none =>
        rw [hroot] at hok
        exact nomatch hok
    | some credentialRoot =>
        cases htime : signals.timestamp with
        | none =>
            rw [hroot, htime] at hok
            exact nomatch hok
        | some timestamp =>
            rw [hroot, htime] at hok
            exact not_decryptsTo _ signals v ⟨data, hok, hv⟩
  · rintro decryptShare encryptionKey investigationRequest shares signals ⟨data, hok, hv⟩
    rw [InvestigationManager.decryptData] at hok
    split_ifs at hok
    obtain ⟨decryptedShares, -, hok⟩ := bind_ok hok
    obtain ⟨secret, -, hok⟩ := bind_ok hok
    exact not_decryptsTo secret signals v ⟨data, hok, hv⟩

/-! ## One claim -/

namespace DisclosedSample

def out0 : SpongeState ℕ where
  s0 := 1174420592842670288869231045921350731937381855959066248244510652657713634507
  s1 := 13254532270188104586985893836054994293462662527927888702491198960313120939647
  s2 := 4161452691318939465959805287625545570454755736843669945028425441721948419392
  s3 := 10099879758648924560528341734089122918508959925321346537821884159329611859143

def out1 : SpongeState ℕ where
  s0 := 5962456112565237264568845744601041848866974572482182990777028552137076773616
  s1 := 9980113695622615654076859316052824826571593727880258787269660623903666426470
  s2 := 19535543199631351838918371725561951973759516411373121338454794986649398644611
  s3 := 20240113377524305181867527333244817060215979522893320192317140102032866345782

def out2 : SpongeState ℕ where
  s0 := 7599437205444506359041424509381723939999572468108811295904193335280965739656
  s1 := 8124735432474824517269402530988437645029923578712961800425952032123989621787
  s2 := 12639027388496312552848723144018797725727979048083472924521166168581451929763
  s3 := 6528403178635269236916340673101078046411275765061337902578936803952683225175

def out3 : SpongeState ℕ where
  s0 := 6265907936515767573385359973256769122768391083028554319293502521824378913468
  s1 := 4595812341426523763394359013537953412967586938933379844425212316743753063707
  s2 := 20345486429290222353769244343574233745359859408657083762030458936486587854179
  s3 := 17673789900511167177015061687251802029755443533824724085218033950033510752484

/-- Poseidon on the states of the circuit's encryption, and on those of the client's
    decryption, which starts from another length. -/
def table : List (SpongeState ℕ × SpongeState ℕ) :=
  [(⟨0, 7, 7, 1680000000 + 2 ^ 128⟩, out0),
    (⟨out0.s0, out0.s1 + 232451542916158110642225, out0.s2, out0.s3⟩, out1),
    (⟨0, 7, 7, 1680000000⟩, out2),
    (⟨out2.s0, out0.s1 + 232451542916158110642225, out0.s2, out0.s3⟩, out3)]

def permute (state : SpongeState ℕ) : SpongeState ℕ :=
  (table.lookup state).getD ⟨0, 0, 0, 0⟩

def lib : Circomlib := (Circomlib.reference .empty).withPermutation permute

/-- The characters of `1990-01-01`. -/
def birthDate : F := (232451542916158110642225 : ℕ)

def dataEnc : PoseidonEncrypt.Signals :=
  PoseidonEncrypt.signalsOf permute 1 (fun _ => birthDate) (1680000000 : ℕ)
    ((7 : ℕ), (7 : ℕ))

def signals : DisclosedSignals where
  timestamp := some 1680000000
  encryptedData := some (elements 4 dataEnc.ciphertext)
  birthDateProof := none
  birthDateKey := none
  credentialRoot := none
  issuerPk := none
  issuerSignature := none
  userPublicKey := none

end DisclosedSample

section Sample

open DisclosedSample

/-- **THE CLIENT REJECTS WHAT THE CIRCUIT ENCRYPTED.**  The last element of the
    ciphertext is that of a message of length one. -/
theorem decryptData_fails :
    lib.SamePermutation permute ∧
    PoseidonEncrypt.Constraints lib 1 (fun _ => birthDate) (1680000000 : ℕ)
      ((7 : ℕ), (7 : ℕ)) dataEnc ∧
    signals.encryptedData = some (elements (adjustToMultiple 1 3 + 1) dataEnc.ciphertext) ∧
    signals.timestamp = some 1680000000 ∧
    ProofRequestManager.decryptData permute 7 signals = .error "AssertionError" ∧
    ¬ DecryptsTo (ProofRequestManager.decryptData permute 7 signals) birthDate.val := by
  have hlib : lib.SamePermutation permute := Circomlib.withPermutation_same _ _
  have herror : ProofRequestManager.decryptData permute 7 signals
      = .error "AssertionError" := by
    decide +kernel
  refine ⟨hlib, PoseidonEncrypt.constraints_signalsOf hlib _ _ _ _, rfl, rfl, herror, ?_⟩
  rw [herror]
  rintro ⟨data, hok, -⟩
  exact nomatch hok

end Sample

end Albus.Sdk
