import Albus.Circuits.Recovery
import Albus.Program.StoredProof

/-! # The trustees of a verified request

    No instruction on a proof request is given the service's trustees, and none
    compares them with the `trusteePublicKey` inputs.  So at every verification those
    inputs are the words the owner submitted, wherever no rule and no issuer key put
    another there: they are the trustees' keys exactly when the owner submitted these.

    When they are, any assignment with these inputs discloses to the trustees: as many
    of them as the service's threshold recover the data. -/

namespace Albus.Program

open Albus.Lib Albus.Core Albus.Circuits

def trusteePublicKeySignal : String := "trusteePublicKey"

/-! ## What was submitted -/

/-- What a call keeps of what the inputs were made of: a reset and a close clear it. -/
def Call.kept {α : Type} : Call → List α → List α
  | .prove _ data _, l => if data.reset then [] else l
  | .delete _ _, _ => []
  | .create _ _ _, l => l
  | .verify _ _, l => l
  | .update _ _ _, l => l

/-- The words the owner submits in a call. -/
def Call.submit : Call → List (Bytes 32)
  | .prove _ data _ => data.publicInputs
  | .create _ _ _ => []
  | .verify _ _ => []
  | .update _ _ _ => []
  | .delete _ _ => []

/-- The writes of a call: those of an accepted proof. -/
def Call.write : Call → List SlotWrite
  | .prove ctx data _ =>
      match data.proof, ctx.circuit.data.signals with
      | some _, some signals => proveWrites signals ctx.issuer ctx.policy.data.rules
      | _, _ => []
  | .create _ _ _ => []
  | .verify _ _ => []
  | .update _ _ _ => []
  | .delete _ _ => []

/-- The words submitted since the inputs were last cleared. -/
def submitted (h : History) : List (Bytes 32) :=
  h.foldr (fun t inputs => t.call.kept inputs ++ t.call.submit) []

/-- The writes made since the inputs were last cleared. -/
def written (h : History) : List SlotWrite :=
  h.foldr (fun t writes => t.call.kept writes ++ t.call.write) []

theorem Call.kept_cases (c : Call) :
    (∀ (α : Type) (l : List α), c.kept l = []) ∨ ∀ (α : Type) (l : List α), c.kept l = l := by
  cases c with
  | prove ctx data now =>
      cases hreset : data.reset with
      | true => exact Or.inl fun α l => by simp [Call.kept, hreset]
      | false => exact Or.inr fun α l => by simp [Call.kept, hreset]
  | delete authority now => exact Or.inl fun _ _ => rfl
  | create ctx data now => exact Or.inr fun _ _ => rfl
  | verify ctx now => exact Or.inr fun _ _ => rfl
  | update authority data now => exact Or.inr fun _ _ => rfl

/-- The inputs of an account, none while there is no account. -/
def storedInputs : Option ProofRequestAccount → List (Bytes 32)
  | none => []
  | some a => a.request.publicInputs

/-- Lists of one length that agree at the positions in `P`. -/
structure AgreeAt {α : Type} (P : Nat → Prop) (xs ys : List α) : Prop where
  length : xs.length = ys.length
  slot : ∀ i, P i → xs[i]? = ys[i]?

theorem AgreeAt.mono {α : Type} {P Q : Nat → Prop} {xs ys : List α}
    (h : AgreeAt P xs ys) (hQ : ∀ i, Q i → P i) : AgreeAt Q xs ys :=
  ⟨h.length, fun i hi => h.slot i (hQ i hi)⟩

theorem AgreeAt.append {α : Type} {P : Nat → Prop} {xs ys : List α}
    (h : AgreeAt P xs ys) (zs : List α) : AgreeAt P (xs ++ zs) (ys ++ zs) := by
  refine ⟨?_, ?_⟩
  · rw [List.length_append, List.length_append, h.length]
  · intro i hi
    by_cases hlt : i < xs.length
    · rw [List.getElem?_append_left hlt, List.getElem?_append_left (h.length ▸ hlt)]
      exact h.slot i hi
    · have hge : xs.length ≤ i := Nat.le_of_not_lt hlt
      rw [List.getElem?_append_right hge, List.getElem?_append_right (h.length ▸ hge),
        h.length]

/-- Writes of the words that are there anyway are not seen. -/
theorem AgreeAt.writeAll {P : Nat → Prop} {xs ys : List (Bytes 32)}
    (h : AgreeAt P xs ys) {ws : List SlotWrite}
    (hws : ∀ i, P i → ∀ w ∈ ws, w.1 = i → ∀ x ∈ ys[i]?, x = w.2) :
    AgreeAt P (writeAll xs ws) ys := by
  refine ⟨(writeAll_length _ _).trans h.length, ?_⟩
  intro i hi
  rw [← h.slot i hi]
  by_cases hlt : i < xs.length
  · rw [writeAll_getElem? _ _ hlt]
    cases hlast : lastWrite ws i with
    | none => rw [Option.none_or]
    | some v =>
        have hmem := mem_of_lastWrite hlast
        have hx := List.getElem?_eq_getElem hlt
        rw [Option.some_or, hx, hws i hi _ hmem rfl _ ((h.slot i hi).symm.trans hx)]
  · rw [List.getElem?_eq_none (by rw [writeAll_length]; omega),
      List.getElem?_eq_none (by omega)]

/-- **WHAT A CALL DOES TO THE INPUTS**: it appends what the owner submits, and an
    accepted proof writes over it. -/
theorem storedInputs_of_step {rt : Runtime} {seeds : ProofRequestSeeds}
    {acc acc' : Option ProofRequestAccount} {c : Call}
    (h : step rt seeds acc c = .ok acc') :
    storedInputs acc' = writeAll (c.kept (storedInputs acc) ++ c.submit) c.write := by
  rcases step_cases h with
    ⟨ctx, data, now, req, sp, pol, req', rfl, -, hinit, hcreate, rfl⟩ |
    ⟨ctx, data, now, a, req', rfl, rfl, hf, rfl⟩ |
    ⟨ctx, now, a, req', rfl, rfl, hf, rfl⟩ |
    ⟨authority, data, now, a, req', rfl, rfl, hf, rfl⟩ |
    ⟨authority, now, a, rfl, -, -, rfl⟩
  · obtain ⟨-, -, -, -, -, -, hin, -⟩ := createProofRequest_ok hcreate
    show req'.publicInputs = storedInputs acc ++ []
    rw [hin, List.append_nil]
    rcases hinit with ⟨rfl, rfl⟩ | ⟨a, rfl, rfl⟩
    · rfl
    · rfl
  · have hreceive : (receiveInputs data a.request).publicInputs
        = (Call.prove ctx data now).kept a.request.publicInputs ++ data.publicInputs := by
      cases hreset : data.reset with
      | true =>
          rw [receiveInputs_reset hreset]
          simp [Call.kept, hreset]
      | false =>
          rw [receiveInputs_append hreset]
          simp [Call.kept, hreset]
    obtain ⟨-, -, -, hcase⟩ := proveProofRequest_ok hf
    rcases hcase with ⟨hnone, rfl⟩ | ⟨proof, hsome, haccept⟩
    · show (receiveInputs data a.request).publicInputs = _
      rw [hreceive]
      simp only [Call.write, Call.submit, hnone, writeAll_nil, storedInputs]
    · obtain ⟨signals, hsig, -, -, hin, -⟩ := acceptProof_ok haccept
      show req'.publicInputs = _
      rw [hin, hreceive]
      simp only [Call.write, Call.submit, hsome, hsig, storedInputs]
  · obtain ⟨-, -, rfl⟩ := verifyProofRequest_ok hf
    exact (List.append_nil _).symm
  · obtain ⟨-, rfl⟩ := updateProofRequest_ok hf
    exact (List.append_nil _).symm
  · rfl

/-- Every write to this slot since the last clearing is of the word submitted for it. -/
def Unaltered (h : History) (slot : Nat) : Prop :=
  ∀ w ∈ written h, w.1 = slot → ∀ x ∈ (submitted h)[slot]?, x = w.2

/-- **THE INPUTS ARE THE SUBMITTED ONES**, wherever nothing else was written. -/
theorem submitted_run {rt : Runtime} {seeds : ProofRequestSeeds} {h : History}
    {s : Option ProofRequestAccount} (r : Run (step rt seeds) none h s) :
    AgreeAt (Unaltered h) (storedInputs s) (submitted h) := by
  refine r.always
    (I := fun h acc => AgreeAt (Unaltered h) (storedInputs acc) (submitted h))
    ⟨rfl, fun _ _ => rfl⟩ ?_
  intro h acc c acc' ih hstep
  have hkept : AgreeAt (Unaltered (⟨acc, c, acc'⟩ :: h)) (c.kept (storedInputs acc))
      (c.kept (submitted h)) := by
    rcases c.kept_cases with hclear | hkeep
    · rw [hclear, hclear]
      exact ⟨rfl, fun _ _ => rfl⟩
    · rw [hkeep, hkeep]
      refine ih.mono ?_
      intro slot hslot w hw heq x hx
      refine hslot w (List.mem_append_left _ ?_) heq x ?_
      · show w ∈ c.kept (written h)
        rw [hkeep]
        exact hw
      · -- what is submitted later comes behind
        show (c.kept (submitted h) ++ c.submit)[slot]? = some x
        rw [hkeep]
        exact List.getElem?_append_left (List.getElem?_eq_some_iff.mp hx).1 |>.trans hx
  rw [storedInputs_of_step hstep]
  refine (hkept.append c.submit).writeAll ?_
  intro slot hslot w hw heq
  exact hslot w (List.mem_append_right _ hw) heq

/-! ## The keys of the trustees -/

/-- Both words of key `i` at the slots of a signal. -/
def keyWords (span : SignalValue) (inputs : List (Bytes 32)) (i : Nat) :
    Option (Bytes 32 × Bytes 32) :=
  match inputs[span.index + 2 * i]?, inputs[span.index + 2 * i + 1]? with
  | some x, some y => some (x, y)
  | _, _ => none

/-- The account of trustee `i` of a service. -/
def trusteeAt (service : ServiceProvider) (accounts : Pubkey → Option Trustee) (i : Nat) :
    Option Trustee :=
  service.trustees[i]?.bind accounts

/-- Every key of the signal is that of the service's trustee at its position. -/
def HoldsTrusteeKeys (service : ServiceProvider) (accounts : Pubkey → Option Trustee)
    (span : SignalValue) (inputs : List (Bytes 32)) : Prop :=
  ∀ i < span.size / 2, ∃ words ∈ keyWords span inputs i,
    ∃ trustee ∈ trusteeAt service accounts i,
      BabyJub.PacksTo (words.1.toNum, words.2.toNum) trustee.key

instance (service : ServiceProvider) (accounts : Pubkey → Option Trustee)
    (span : SignalValue) (inputs : List (Bytes 32)) :
    Decidable (HoldsTrusteeKeys service accounts span inputs) :=
  inferInstanceAs (Decidable (∀ i < span.size / 2, _))

theorem keyWords_congr {span : SignalValue} {xs ys : List (Bytes 32)}
    (h : ∀ slot, span.index ≤ slot → slot < span.index + span.size →
      xs[slot]? = ys[slot]?) {i : Nat} (hi : i < span.size / 2) :
    keyWords span xs i = keyWords span ys i := by
  rw [keyWords, keyWords, h _ (by omega) (by omega), h _ (by omega) (by omega)]

theorem holdsTrusteeKeys_congr {service : ServiceProvider}
    {accounts : Pubkey → Option Trustee} {span : SignalValue} {xs ys : List (Bytes 32)}
    (h : ∀ slot, span.index ≤ slot → slot < span.index + span.size →
      xs[slot]? = ys[slot]?) :
    HoldsTrusteeKeys service accounts span xs ↔ HoldsTrusteeKeys service accounts span ys := by
  refine forall₂_congr ?_
  intro i hi
  rw [keyWords_congr h hi]

/-! ## Recovery -/

/-- The public signal of the circuit has the words as its value. -/
def PublicKeysAt (span : SignalValue) (inputs : List (Bytes 32))
    (trusteePublicKey : ℕ → F × F) : Prop :=
  ∀ i < span.size / 2, ∀ words ∈ keyWords span inputs i,
    trusteePublicKey i = ((scalarOf words.1 : F), (scalarOf words.2 : F))

/-- The user and the trustees hold the private keys of their public ones, a trustee's
    being the one of its account, and share a key. -/
structure PrivateKeys (blake512 : List UInt8 → List UInt8) (service : ServiceProvider)
    (accounts : Pubkey → Option Trustee) (userPrivateKey : F) (userPublicKey : ℕ × ℕ)
    (trusteeKeys : ℕ → List UInt8) (n : ℕ) : Prop where
  user : BabyJub.mulPointEscalar BabyJub.Base8 userPrivateKey.val = .ok userPublicKey
  trustee : ∀ i < n, ∀ trustee ∈ trusteeAt service accounts i,
    ∃ P, prv2pub blake512 (trusteeKeys i) = .ok P ∧ BabyJub.PacksTo P trustee.key
  symmetric : ∀ i < n, ∀ P, prv2pub blake512 (trusteeKeys i) = .ok P →
    BabyJub.mulPointEscalar P userPrivateKey.val
      = generateEcdhSharedKey blake512 (trusteeKeys i) userPublicKey

/-- Any threshold of the service's trustees recover the data from any assignment whose
    public keys are these inputs; the threshold is not below the circuit's. -/
def Recoverable (service : ServiceProvider) (accounts : Pubkey → Option Trustee)
    (span : SignalValue) (inputs : List (Bytes 32)) : Prop :=
  ∀ (lib : Circomlib) (permute : SpongeState ℕ → SpongeState ℕ)
    (blake512 : List UInt8 → List UInt8) (N shamirN shamirK : ℕ)
    (userPrivateKey nonce secret : F) (userPublicKey : ℕ × ℕ)
    (trusteeKeys : ℕ → List UInt8) (trusteePublicKey : ℕ → F × F) (data : ℕ → F)
    (s : EncryptionProof.Signals) (positions : List ℕ),
    lib.Arithmetic → lib.SamePermutation permute → lib.ScalarMul →
    span.size = shamirN * 2 → 1 ≤ shamirK →
    shamirK ≤ service.secretShareThreshold.toNat → nonce.val < 2 ^ 128 →
    PublicKeysAt span inputs trusteePublicKey →
    EncryptionProof.Constraints lib N shamirN shamirK userPrivateKey trusteePublicKey
      nonce secret data s →
    PrivateKeys blake512 service accounts userPrivateKey userPublicKey trusteeKeys shamirN →
    positions.Nodup → (∀ i ∈ positions, i < shamirN) →
    service.secretShareThreshold.toNat ≤ positions.length →
    recoverData permute blake512 trusteeKeys userPublicKey
        (fun i => elements 4 (s.encryptedShare i))
        (elements (adjustToMultiple N 3 + 1) s.encryptedData) shamirK N nonce.val positions
      = .ok (elements N data)

/-- A word below the modulus is its own scalar. -/
theorem val_scalarOf {word : Bytes 32} (h : word.toNum < bn254r) :
    ((scalarOf word : F)).val = word.toNum := by
  rw [scalarOf, Nat.mod_eq_of_lt h]
  exact ZMod.val_cast_of_lt h

/-- **THE TRUSTEES RECOVER** what is encrypted to their keys. -/
theorem recoverable_of_holds {service : ServiceProvider}
    {accounts : Pubkey → Option Trustee} {span : SignalValue} {inputs : List (Bytes 32)}
    (hsize : span.size ≤ usizeMax)
    (hholds : HoldsTrusteeKeys service accounts span inputs) :
    Recoverable service accounts span inputs := by
  intro lib permute blake512 N shamirN shamirK userPrivateKey nonce secret userPublicKey
    trusteeKeys trusteePublicKey data s positions hlib hperm hmul hspan hK hthreshold hnonce
    hpublic hconstraints hprivate hnodup hpos hlen
  have hn : shamirN < bn254r := by
    have husize : usizeMax < bn254r := by decide
    omega
  -- the key that a trustee's account denotes is the one in the inputs
  have htrustee : ∀ i < shamirN,
      prv2pub blake512 (trusteeKeys i) = .ok (pointVal (trusteePublicKey i)) := by
    intro i hi
    obtain ⟨words, hwords, trustee, htrustee, hpacks⟩ := hholds i (by omega)
    obtain ⟨P, hP, hpacks'⟩ := hprivate.trustee i hi trustee htrustee
    rw [hP, hpublic i (by omega) words hwords, pointVal, val_scalarOf hpacks.fst_lt,
      val_scalarOf hpacks.snd_lt, hpacks.unique hpacks']
  refine EncryptionProof.recoverData_eq hlib hperm hmul hK hn hnonce hconstraints hnodup hpos
    (le_trans hthreshold hlen) ?_ ?_
  · exact fun i hi => htrustee i (hpos i hi)
  · exact fun i hi => hprivate.symmetric i (hpos i hi) _ (htrustee i (hpos i hi))

/-- **THE TRUSTEE KEYS OF A VERIFIED REQUEST ARE THE SUBMITTED ONES**, in every run:
    wherever nothing else was written they are the owner's words, hence the keys of the
    service's trustees exactly when the owner submitted these; and then the trustees
    recover what is disclosed. -/
theorem verified_trustee_inputs (rt : Runtime) (seeds : ProofRequestSeeds) (h : History)
    (s : Option ProofRequestAccount) (r : Run (step rt seeds) none h s)
    (later earlier : History) (pre post : Option ProofRequestAccount)
    (vctx : VerifyProofRequest) (vnow : Int)
    (hh : h = later ++ ⟨pre, .verify vctx vnow, post⟩ :: earlier)
    (signals : Signals) (hsig : vctx.circuit.data.signals = some signals)
    (span : SignalValue) (hspan : signals.get trusteePublicKeySignal = some span) :
    ∃ b, post = some b ∧ b.request.status = .verified ∧
      (∀ slot, Unaltered earlier slot →
        b.request.publicInputs[slot]? = (submitted earlier)[slot]?) ∧
      ∀ service accounts,
        ((∀ slot, span.index ≤ slot → slot < span.index + span.size →
            Unaltered earlier slot) →
          (HoldsTrusteeKeys service accounts span b.request.publicInputs ↔
            HoldsTrusteeKeys service accounts span (submitted earlier))) ∧
        (HoldsTrusteeKeys service accounts span b.request.publicInputs →
          Recoverable service accounts span b.request.publicInputs) := by
  obtain ⟨r', hstep⟩ := r.split hh
  obtain ⟨a, req', hpre, hf, hpost⟩ := onAccount_ok hstep
  obtain ⟨-, -, rfl⟩ := verifyProofRequest_ok hf
  have hagree := submitted_run r'
  have hpre' : pre = some a := hpre
  simp only [hpre'] at hagree
  have hsize : span.size ≤ usizeMax := by
    have hend := Signals.get_end_le hsig hspan
    omega
  refine ⟨_, hpost, rfl, hagree.slot, ?_⟩
  intro service accounts
  refine ⟨?_, recoverable_of_holds hsize⟩
  intro hunaltered
  exact holdsTrusteeKeys_congr fun slot hlo hhi => hagree.slot slot (hunaltered slot hlo hhi)

namespace TrusteeSample

/-- A trustee that holds the key of `RecoverySample`. -/
def trustee : Trustee where
  key := BabyJub.packPoint (pointVal EncryptionProof.RecoverySample.trusteePublicKey)
  authority := Sample.key 8
  isVerified := true
  revealedShareCount := 0

/-- The service lists it in both places. -/
def service : ServiceProvider := ⟨0, 2, [Sample.key 7, Sample.key 7]⟩

def accounts (address : Pubkey) : Option Trustee :=
  if address = Sample.key 7 then some trustee else none

def circuit : Account Circuit := Sample.circuit ["trusteePublicKey[2][2]", "timestamp"] 5

def signals : Signals :=
  { data := [("timestamp", ⟨4, 1⟩), ("trusteePublicKey", ⟨0, 4⟩)], count := 5 }

/-- The owner proves with this key for both trustees. -/
def calls (P : ℕ × ℕ) : List Call :=
  [.create
      { serviceProvider := ⟨Sample.key 4, service⟩, policy := Sample.policy [],
        authority := Sample.owner, bump := 255 }
      { expiresIn := 0, maxPublicInputs := 8 } Sample.now,
    Sample.prove [] circuit none (some Sample.proof)
      [Bytes.ofNum 32 P.1, Bytes.ofNum 32 P.2, Bytes.ofNum 32 P.1, Bytes.ofNum 32 P.2,
        Bytes.ofNum 32 1700000000]]

def run (P : ℕ × ℕ) : History × Option ProofRequestAccount :=
  exec (step Sample.runtime Sample.seeds) none (calls P)

theorem trusteeAt_eq {i : ℕ} (hi : i < 2) : trusteeAt service accounts i = some trustee := by
  match i with
  | 0 => decide +kernel
  | 1 => decide +kernel

theorem privateKeys : PrivateKeys EncryptionProof.RecoverySample.blake512 service accounts 1
    BabyJub.Base8 (fun _ => EncryptionProof.RecoverySample.trusteeKey) 2 where
  user := EncryptionProof.RecoverySample.keys.user
  trustee i hi t ht := by
    rw [trusteeAt_eq hi] at ht
    obtain rfl := Option.some.inj ht
    exact ⟨_, EncryptionProof.RecoverySample.keys.trustee i hi, by decide +kernel⟩
  symmetric i hi P hP := by
    have hkey := EncryptionProof.RecoverySample.keys.trustee i hi
    obtain rfl := Except.ok.inj (hP.symm.trans hkey)
    exact EncryptionProof.RecoverySample.keys.symmetric i hi

end TrusteeSample

section TrusteeRuns

open TrusteeSample EncryptionProof.RecoverySample

/-- The owner submits the trustee's key, and both positions recover the data. -/
theorem verified_trustee_inputs_sample :
    ∃ b : ProofRequestAccount,
      step Sample.runtime Sample.seeds (run (pointVal trusteePublicKey)).2
        (Sample.verify circuit) = .ok (some b) ∧
      HoldsTrusteeKeys service accounts ⟨0, 4⟩ b.request.publicInputs ∧
      recoverData permute blake512 (fun _ => trusteeKey) BabyJub.Base8
          (fun i => elements 4 (EncryptionProof.RecoverySample.signals.encryptedShare i))
          (elements (adjustToMultiple 1 3 + 1)
            EncryptionProof.RecoverySample.signals.encryptedData) 2 1
          ((1680000000 : ℕ) : F).val [1, 0]
        = .ok (elements 1 fun _ => birthDate) := by
  obtain ⟨s', hok⟩ := exists_ok (x := step Sample.runtime Sample.seeds
    (run (pointVal trusteePublicKey)).2 (Sample.verify circuit)) (by decide +kernel)
  obtain ⟨b, hb, -, hinputs, hall⟩ :=
    verified_trustee_inputs Sample.runtime Sample.seeds _ _ (run_exec_then hok) [] _ _ _ _ _
      rfl TrusteeSample.signals (by decide) ⟨0, 4⟩ (by decide)
  obtain ⟨hiff, hrecover⟩ := hall service accounts
  have hunaltered : ∀ slot, Unaltered (run (pointVal trusteePublicKey)).1 slot := by
    intro slot w hw
    rw [show written (run (pointVal trusteePublicKey)).1 = [] by decide +kernel] at hw
    exact nomatch hw
  have hholds : HoldsTrusteeKeys service accounts ⟨0, 4⟩ b.request.publicInputs :=
    (hiff fun slot _ _ => hunaltered slot).mpr (by decide +kernel)
  have hpublic : PublicKeysAt ⟨0, 4⟩ b.request.publicInputs fun _ => trusteePublicKey := by
    intro i hi words hwords
    rw [keyWords_congr (fun slot _ _ => hinputs slot (hunaltered slot)) hi] at hwords
    have hkeys : ∀ i < 2, ∀ words ∈ keyWords ⟨0, 4⟩
        (submitted (run (pointVal trusteePublicKey)).1) i,
        trusteePublicKey = ((scalarOf words.1 : F), (scalarOf words.2 : F)) := by
      decide +kernel
    exact hkeys i hi words hwords
  refine ⟨b, hb ▸ hok, hholds, ?_⟩
  exact hrecover hholds lib permute blake512 1 2 2 1 (1680000000 : ℕ) (42 : ℕ)
    BabyJub.Base8 (fun _ => trusteeKey) (fun _ => trusteePublicKey) (fun _ => birthDate)
    EncryptionProof.RecoverySample.signals [1, 0] lib_arithmetic lib_same lib_scalarMul rfl
    (by decide) (by decide) (by decide +kernel) hpublic constraints privateKeys (by decide)
    (by decide) (by decide)

/-- **WHOSE KEYS THE REQUEST HOLDS IS THE OWNER'S CHOICE**: with the base point, the key
    of the private key 1, in the place of the trustees' the request is verified. -/
theorem verified_trustee_inputs_fails :
    ∃ (h : History) (s : Option ProofRequestAccount),
      Run (step Sample.runtime Sample.seeds) none h s ∧
      h.map (fun t => t.call) = Sample.verify circuit :: (calls BabyJub.Base8).reverse ∧
      circuit.data.signals = some TrusteeSample.signals ∧
      TrusteeSample.signals.get trusteePublicKeySignal = some ⟨0, 4⟩ ∧
      ∃ v, s = some v ∧ v.request.status = .verified ∧
        v.request.serviceProvider = Sample.key 4 ∧
        ¬ HoldsTrusteeKeys service accounts ⟨0, 4⟩ v.request.publicInputs := by
  refine ⟨_, _, run_exec (step Sample.runtime Sample.seeds) none
    (calls BabyJub.Base8 ++ [Sample.verify circuit]), exec_calls (by decide +kernel),
    by decide, by decide, ?_⟩
  decide +kernel

end TrusteeRuns

end Albus.Program
