import Albus.Circuits.PoseidonEncryption
import Albus.Circuits.SecretSharing
import Albus.Core.BabyJub

/-! # Recovering the disclosed claims

    Whatever assignment satisfies `EncryptionProof`, trustees at `shamirK` positions
    recover the data from the outputs: each decrypts the share at its position, the
    shares give the secret, and the secret decrypts the data (`data_recovered`).

    The curve is relied on for two things, of the keys at hand only: the circuit's
    scalar multiplication is the client's (`Circomlib.ScalarMul`), and a shared key is
    the same from both sides (`DisclosureKeys.symmetric`). -/

namespace Albus.Circuits

open Albus.Lib Albus.Core

/-- The coordinates of a point. -/
def pointVal (p : F × F) : ℕ × ℕ := (p.1.val, p.2.val)

/-- **WHAT `EscalarMulAny(253)` IS RELIED ON FOR.**  On a multiple of the base point it
    is the scalar multiplication of the client. -/
structure Circomlib.ScalarMul (lib : Circomlib) : Prop where
  escalarMulAny : ∀ bits p k out, IsBits 253 bits →
    BabyJub.mulPointEscalar BabyJub.Base8 k = .ok (pointVal p) →
    lib.escalarMulAny 253 bits p out →
    BabyJub.mulPointEscalar (pointVal p) (bitsNat 253 bits) = .ok (pointVal out)

/-! ## The trustees -/

section Client

variable (permute : SpongeState ℕ → SpongeState ℕ) (blake512 : List UInt8 → List UInt8)

/-- A trustee's share: decrypted under the key shared with the user. -/
def secretShare (privateKey : List UInt8) (userPublicKey : ℕ × ℕ)
    (encryptedShare : List ℕ) (nonce : ℕ) : Except String ℕ := do
  let sharedKey ← generateEcdhSharedKey blake512 privateKey userPublicKey
  match poseidonDecrypt permute encryptedShare sharedKey 1 nonce with
  | some (share :: _) => .ok share
  | some [] => .error "TypeError"
  | none => .error "AssertionError"

/-- The trustees at these positions, and then whoever collects their shares. -/
def recoverData (trusteeKeys : ℕ → List UInt8) (userPublicKey : ℕ × ℕ)
    (encryptedShare : ℕ → List ℕ) (encryptedData : List ℕ) (shamirK N nonce : ℕ)
    (positions : List ℕ) : Except String (List ℕ) := do
  let shares ← positions.mapM fun i =>
    (secretShare permute blake512 (trusteeKeys i) userPublicKey (encryptedShare i)
      nonce).map fun share => (i + 1, share)
  let secret ← reconstructShamirSecret shamirK shares
  match poseidonDecrypt permute encryptedData (secret, secret) N nonce with
  | some data => .ok data
  | none => .error "AssertionError"

end Client

/-- The keys of a disclosure: every public key is that of a private key, and the user
    and each trustee share a key. -/
structure DisclosureKeys (blake512 : List UInt8 → List UInt8) (userPrivateKey : F)
    (userPublicKey : ℕ × ℕ) (trusteeKeys : ℕ → List UInt8)
    (trusteePublicKey : ℕ → F × F) (n : ℕ) : Prop where
  user : BabyJub.mulPointEscalar BabyJub.Base8 userPrivateKey.val = .ok userPublicKey
  trustee : ∀ i < n,
    prv2pub blake512 (trusteeKeys i) = .ok (pointVal (trusteePublicKey i))
  symmetric : ∀ i < n,
    BabyJub.mulPointEscalar (pointVal (trusteePublicKey i)) userPrivateKey.val
      = generateEcdhSharedKey blake512 (trusteeKeys i) userPublicKey

theorem mapM_ok {α β ε : Type} {f : α → Except ε β} {g : α → β} {l : List α}
    (h : ∀ a ∈ l, f a = .ok (g a)) : l.mapM f = .ok (l.map g) := by
  induction l with
  | nil => rfl
  | cons a l ih =>
      rw [List.mapM_cons, h a List.mem_cons_self,
        ih fun b hb => h b (List.mem_cons_of_mem _ hb)]
      rfl

namespace EncryptionProof

section Recovery

variable {lib : Circomlib} {permute : SpongeState ℕ → SpongeState ℕ}
  {blake512 : List UInt8 → List UInt8} {N shamirN shamirK : ℕ} {userPrivateKey : F}
  {userPublicKey : ℕ × ℕ} {trusteeKeys : ℕ → List UInt8} {trusteePublicKey : ℕ → F × F}
  {nonce secret : F} {data : ℕ → F} {s : Signals}

/-- The bits of the private key expand it: there is one expansion below the modulus. -/
theorem bitsNat_privBits (hlib : lib.Arithmetic) {x : F} {bits : ℕ → F}
    (h : lib.num2Bits 253 x bits) : IsBits 253 bits ∧ bitsNat 253 bits = x.val := by
  obtain ⟨hbits, hsum⟩ := (hlib.num2Bits _ _ _).mp h
  refine ⟨hbits, ?_⟩
  have hlt : bitsNat 253 bits < bn254r :=
    lt_trans (bitsNat_lt 253 bits) (by decide)
  rw [← hsum, weighted_eq hbits, ZMod.val_natCast, Nat.mod_eq_of_lt hlt]

/-- The key of trustee `i`, from its side. -/
theorem sharedKey_eq (hlib : lib.Arithmetic) (hmul : lib.ScalarMul)
    (h : Constraints lib N shamirN shamirK userPrivateKey trusteePublicKey nonce secret
      data s) {i : ℕ} (hi : i < shamirN)
    (htrustee : prv2pub blake512 (trusteeKeys i) = .ok (pointVal (trusteePublicKey i)))
    (hsymmetric : BabyJub.mulPointEscalar (pointVal (trusteePublicKey i)) userPrivateKey.val
      = generateEcdhSharedKey blake512 (trusteeKeys i) userPublicKey) :
    generateEcdhSharedKey blake512 (trusteeKeys i) userPublicKey
      = .ok (pointVal (s.ecdh i).sharedKey) := by
  have hecdh := h.ecdh i hi
  obtain ⟨hbits, hval⟩ := bitsNat_privBits hlib hecdh.privBits
  rw [← hsymmetric, ← hval]
  exact hmul.escalarMulAny _ _ _ _ hbits htrustee hecdh.mulFix

/-- A trustee decrypts the share at its position. -/
theorem secretShare_eq (hperm : lib.SamePermutation permute) (hnonce : nonce.val < two128)
    (h : Constraints lib N shamirN shamirK userPrivateKey trusteePublicKey nonce secret
      data s) {i : ℕ} (hi : i < shamirN)
    (hshared : generateEcdhSharedKey blake512 (trusteeKeys i) userPublicKey
      = .ok (pointVal (s.ecdh i).sharedKey)) :
    secretShare permute blake512 (trusteeKeys i) userPublicKey
        (elements 4 (s.encryptedShare i)) nonce.val
      = .ok (s.shamir.shares i).val := by
  have hcipher : elements 4 (s.encryptedShare i) = elements 4 (s.share i).ciphertext := by
    refine List.map_congr_left ?_
    intro j hj
    rw [h.encryptedShare i hi j (List.mem_range.mp hj)]
  have hshare := h.share i hi
  rw [← ZMod.natCast_zmod_val nonce] at hshare
  have hdecrypt := PoseidonEncrypt.decrypt_constraints hperm hnonce hshare
  rw [secretShare, hshared, hcipher]
  show (match poseidonDecrypt permute (elements 4 (s.share i).ciphertext) _ 1 nonce.val with
    | some (share :: _) => Except.ok share
    | some [] => Except.error "TypeError"
    | none => Except.error "AssertionError") = _
  rw [show elements 4 (s.share i).ciphertext
    = elements (adjustToMultiple 1 3 + 1) (s.share i).ciphertext from rfl, pointVal, hdecrypt]
  rfl

/-- Trustees at `shamirK` positions or more recover the data, whatever the keys of the
    others are. -/
theorem recoverData_eq (hlib : lib.Arithmetic) (hperm : lib.SamePermutation permute)
    (hmul : lib.ScalarMul) (hK : 1 ≤ shamirK) (hn : shamirN < bn254r)
    (hnonce : nonce.val < 2 ^ 128)
    (h : Constraints lib N shamirN shamirK userPrivateKey trusteePublicKey nonce secret
      data s)
    {positions : List ℕ} (hnodup : positions.Nodup) (hpos : ∀ i ∈ positions, i < shamirN)
    (hlen : shamirK ≤ positions.length)
    (htrustee : ∀ i ∈ positions,
      prv2pub blake512 (trusteeKeys i) = .ok (pointVal (trusteePublicKey i)))
    (hsymmetric : ∀ i ∈ positions,
      BabyJub.mulPointEscalar (pointVal (trusteePublicKey i)) userPrivateKey.val
        = generateEcdhSharedKey blake512 (trusteeKeys i) userPublicKey) :
    recoverData permute blake512 trusteeKeys userPublicKey
        (fun i => elements 4 (s.encryptedShare i))
        (elements (adjustToMultiple N 3 + 1) s.encryptedData) shamirK N nonce.val positions
      = .ok (elements N data) := by
  -- the shares are those that the circuit dealt
  have hshares : (positions.mapM fun i =>
      (secretShare permute blake512 (trusteeKeys i) userPublicKey
        (elements 4 (s.encryptedShare i)) nonce.val).map fun share => (i + 1, share))
      = .ok (positions.map fun i => (i + 1, (s.shamir.shares i).val)) := by
    refine mapM_ok ?_
    intro i hi
    have hshared :=
      sharedKey_eq hlib hmul h (hpos i hi) (htrustee i hi) (hsymmetric i hi)
    rw [secretShare_eq hperm hnonce h (hpos i hi) hshared]
    rfl
  have hsecret : reconstructShamirSecret shamirK
      (positions.map fun i => (i + 1, (s.shamir.shares i).val)) = .ok secret.val := by
    refine ShamirSecretSharing.reconstruct_dealt h.shamir hK hn ?_ ?_ ?_
    · rw [List.map_map]
      exact hnodup.map (add_left_injective 1)
    · intro p hp
      obtain ⟨i, hi, rfl⟩ := List.mem_map.mp hp
      exact ⟨Nat.succ_pos i, hpos i hi, rfl⟩
    · rw [List.length_map]
      exact hlen
  have hcipher : elements (adjustToMultiple N 3 + 1) s.encryptedData
      = elements (adjustToMultiple N 3 + 1) s.dataEnc.ciphertext := by
    refine List.map_congr_left ?_
    intro j hj
    rw [h.encryptedData j (List.mem_range.mp hj)]
  have hdata := h.dataEnc
  rw [← ZMod.natCast_zmod_val nonce] at hdata
  have hdecrypt := PoseidonEncrypt.decrypt_constraints hperm hnonce hdata
  simp only [recoverData, hshares, bind, Except.bind, hsecret, hcipher, hdecrypt]

/-- **THE DATA IS RECOVERED** at any `shamirK` positions.  There is no template with
    `shamirK` zero: it would have an array of minus one components. -/
theorem data_recovered (hlib : lib.Arithmetic) (hperm : lib.SamePermutation permute)
    (hmul : lib.ScalarMul) (hK : 1 ≤ shamirK) (hn : shamirN < bn254r)
    (hnonce : nonce.val < 2 ^ 128)
    (h : Constraints lib N shamirN shamirK userPrivateKey trusteePublicKey nonce secret
      data s)
    (hkeys : DisclosureKeys blake512 userPrivateKey userPublicKey trusteeKeys
      trusteePublicKey shamirN)
    {positions : List ℕ} (hnodup : positions.Nodup) (hpos : ∀ i ∈ positions, i < shamirN)
    (hlen : shamirK ≤ positions.length) :
    recoverData permute blake512 trusteeKeys userPublicKey
        (fun i => elements 4 (s.encryptedShare i))
        (elements (adjustToMultiple N 3 + 1) s.encryptedData) shamirK N nonce.val positions
      = .ok (elements N data) := by
  refine recoverData_eq hlib hperm hmul hK hn hnonce h hnodup hpos hlen ?_ ?_
  · exact fun i hi => hkeys.trustee i (hpos i hi)
  · exact fun i hi => hkeys.symmetric i (hpos i hi)

end Recovery

/-! ## Two trustees of two -/

namespace RecoverySample

/-- The private key of both trustees. -/
def trusteeKey : List UInt8 := List.replicate 64 1

/-- Its digest. -/
def digest : List UInt8 :=
  [141, 238, 153, 148, 36, 215, 235, 208, 219, 36, 110, 0, 94, 120, 71, 181, 13, 90, 57,
    213, 120, 38, 88, 161, 148, 90, 142, 147, 158, 150, 206, 139, 53, 93, 174, 216, 252,
    34, 211, 6, 50, 70, 191, 134, 85, 161, 252, 226, 78, 159, 165, 181, 189, 107, 139,
    179, 159, 203, 155, 155, 227, 142, 162, 72]

def blake512 (prv : List UInt8) : List UInt8 := if prv = trusteeKey then digest else []

def trusteePublicKey : F × F :=
  ((5001002342133833145026820016433545025318036371511467478279308898388885378266 : ℕ),
    (2751605625566984371769614790363139243858081200288250815811957028122680444176 : ℕ))

/-- Poseidon of the user's private key 1 and the nonce. -/
def salt : F :=
  (17035031983999354457892207367758765020808492401002275269410916001207261787835 : ℕ)

/-- Poseidon of the salt, the position 0 and the secret 42. -/
def coefficient : F :=
  (13065687597875689477272087732714351134357088483999235641817316494347824015299 : ℕ)

def table : CryptoTable :=
  { CryptoTable.empty with
    poseidon := [([1, ((1680000000 : ℕ) : F)], salt),
      ([salt, 0, ((42 : ℕ) : F)], coefficient)] }

def data0 : SpongeState ℕ where
  s0 := 17685815607933543440878453296939020965444226166303539474025571602744802099550
  s1 := 13428802903466371177673592809325526477052160403677986064179782821316806631995
  s2 := 19096872858580162171194601325135939174020140546150859700451022331112134566027
  s3 := 13850029641456096903800488775500274559811289798204764869375198895286907967054

def data1 : SpongeState ℕ where
  s0 := 16126056453972284709916631164389691404175758048747998160013859594476629890242
  s1 := 339701472465205595648352267128577261450334511643862582075036567845367913923
  s2 := 5017496063872879914219666034038210529259692093971140321852644400025399843472
  s3 := 11310065759852223030915146508322612239530253590749796566727677616219956919383

def share0 : SpongeState ℕ where
  s0 := 4176031624981188256754467873499748519693984415570769971245492544134690182761
  s1 := 7960651071114526664113938817089103849170122820075818253583987074470015122854
  s2 := 5465315222391143958159579803410947886224194895353052596068215086976530680944
  s3 := 1720712294295988909311701335951244904883489271757294279839096421984268572738

def shareFirst : SpongeState ℕ where
  s0 := 5152412443508520869973181294600545039401914284940442290531517669908452219872
  s1 := 10127723936699525913497037583505080790921080893642442810101168563821393852117
  s2 := 19824265178415794313933523894845667573406236313920051939956751597997911641774
  s3 := 1800216111266568112837424758476967299750434272107938179994621162123121382408

def shareSecond : SpongeState ℕ where
  s0 := 12915659002907783054326373822299809317578408773497980358719584302425847838470
  s1 := 1564297888293668733455685548570628223186281668239194222897493235186954867809
  s2 := 13323157866152539935913611595459821411603226607030334922663533079367864885580
  s3 := 9615880171683819649448842302340765589511476577816097955230968241996824062886

/-- The characters of `1990-01-01`. -/
def birthDate : F := (232451542916158110642225 : ℕ)

def share (p : ℕ) : F := coefficient * ((p : F) + 1) + (42 : ℕ)

/-- Poseidon on the states of the encryptions: of the data, and of the two shares
    under the one key. -/
def states : List (SpongeState ℕ × SpongeState ℕ) :=
  [(⟨0, 42, 42, 1680000000 + 2 ^ 128⟩, data0),
    (⟨data0.s0, data0.s1 + 232451542916158110642225, data0.s2, data0.s3⟩, data1),
    (⟨0, trusteePublicKey.1.val, trusteePublicKey.2.val, 1680000000 + 2 ^ 128⟩, share0),
    (⟨share0.s0, F1Field.add share0.s1 (share 0).val, share0.s2, share0.s3⟩, shareFirst),
    (⟨share0.s0, F1Field.add share0.s1 (share 1).val, share0.s2, share0.s3⟩, shareSecond)]

def permute (state : SpongeState ℕ) : SpongeState ℕ :=
  (states.lookup state).getD ⟨0, 0, 0, 0⟩

def lib : Circomlib :=
  { (Circomlib.reference table).withPermutation permute with
    escalarMulAny := fun n bits p out =>
      BabyJub.mulPointEscalar (pointVal p) (bitsNat n bits) = .ok (pointVal out) }

theorem lib_arithmetic : lib.Arithmetic :=
  have h := Circomlib.reference_arithmetic table
  { num2Bits := h.num2Bits
    bits2Num := h.bits2Num
    isEqual := h.isEqual
    and := h.and
    lessThan := h.lessThan
    lessEqThan := h.lessEqThan
    greaterThan := h.greaterThan
    greaterEqThan := h.greaterEqThan }

theorem lib_same : lib.SamePermutation permute where
  poseidonEx _ _ _ _ _ := Iff.rfl

theorem lib_scalarMul : lib.ScalarMul where
  escalarMulAny _ _ _ _ _ _ h := h

theorem prv2pub_trusteeKey :
    prv2pub blake512 trusteeKey = .ok (pointVal trusteePublicKey) :=
  BabyJub.mulPointLoop_of_pow (by decide +kernel :
    BabyJub.mulPointPow 256 (0, 1) BabyJub.Base8
      (formatPrivKeyForBabyJub blake512 trusteeKey) = some (pointVal trusteePublicKey))

/-- The private key 1 shares the other side's public key. -/
theorem mul_one_trusteePublicKey :
    BabyJub.mulPointEscalar (pointVal trusteePublicKey) ((1 : F)).val
      = .ok (pointVal trusteePublicKey) := by
  decide +kernel

theorem keys : DisclosureKeys blake512 1 BabyJub.Base8 (fun _ => trusteeKey)
    (fun _ => trusteePublicKey) 2 where
  user := by decide +kernel
  trustee _ _ := prv2pub_trusteeKey
  symmetric _ _ := mul_one_trusteePublicKey.trans prv2pub_trusteeKey.symm

def key : F × F := ((42 : ℕ), (42 : ℕ))

def signals : Signals where
  salt := salt
  shamir :=
    { coefGen := fun _ => coefficient
      summingUp := fun p i => if i = 0 then coefficient else share p
      shares := share }
  dataEnc := PoseidonEncrypt.signalsOf permute 1 (fun _ => birthDate) (1680000000 : ℕ) key
  ecdh _ := ⟨natBits 1, trusteePublicKey⟩
  share i := PoseidonEncrypt.signalsOf permute 1 (fun _ => share i) (1680000000 : ℕ)
    trusteePublicKey
  encryptedData := (PoseidonEncrypt.signalsOf permute 1 (fun _ => birthDate)
    (1680000000 : ℕ) key).ciphertext
  encryptedShare i := (PoseidonEncrypt.signalsOf permute 1 (fun _ => share i)
    (1680000000 : ℕ) trusteePublicKey).ciphertext

theorem bitsNat_one : bitsNat 253 (natBits 1 : ℕ → F) = 1 :=
  bitsNat_natBits (by norm_num)

theorem constraints : Constraints lib 1 2 2 1 (fun _ => trusteePublicKey)
    (1680000000 : ℕ) (42 : ℕ) (fun _ => birthDate) signals where
  salt := List.mem_cons_self
  shamir :=
    { parameterValidity := by
        show InRange 128 2 2 ∧ 1 = ofProp ((2 : F).val ≤ (2 : F).val)
        decide +kernel
      coefGen := by
        intro i hi
        obtain rfl : i = 0 := by omega
        exact List.mem_cons_of_mem _ (List.mem_singleton.mpr (by rw [Nat.cast_zero]; rfl))
      polynomial :=
        { head := fun _ _ => rfl
          step := by
            intro p _ i hi hone
            obtain rfl : i = 1 := by omega
            rfl
          y := fun _ _ => rfl } }
  dataEnc := PoseidonEncrypt.constraints_signalsOf lib_same _ _ _ _
  encryptedData _ _ := rfl
  ecdh _ _ :=
    { privBits := by
        refine ⟨isBits_natBits _ _, ?_⟩
        show weighted 253 (natBits 1 : ℕ → F) = 1
        rw [weighted_eq (isBits_natBits _ _), bitsNat_one, Nat.cast_one]
      mulFix := by
        show BabyJub.mulPointEscalar (pointVal trusteePublicKey)
          (bitsNat 253 (natBits 1 : ℕ → F)) = .ok (pointVal trusteePublicKey)
        rw [bitsNat_one]
        exact mul_one_trusteePublicKey }
  share _ _ := PoseidonEncrypt.constraints_signalsOf lib_same _ _ _ _
  encryptedShare _ _ _ _ := rfl

end RecoverySample

section Sample

open RecoverySample

theorem data_recovered_sample :
    recoverData permute blake512 (fun _ => trusteeKey) BabyJub.Base8
        (fun i => elements 4 (signals.encryptedShare i))
        (elements (adjustToMultiple 1 3 + 1) signals.encryptedData) 2 1
        ((1680000000 : ℕ) : F).val [1, 0]
      = .ok (elements 1 fun _ => birthDate) :=
  data_recovered lib_arithmetic lib_same lib_scalarMul (by decide) (by decide)
    (by decide +kernel) constraints keys (by decide) (by decide) (by decide)

end Sample

end EncryptionProof

end Albus.Circuits
