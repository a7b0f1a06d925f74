import Albus.Core.BabyJubGroup
import Albus.Core.ByteCodecs
import Albus.Core.FieldRoots

/-! # Signatures

    `babyjub/eddsa.ts`, and `createCredentialProof` with its self-check.  The verifier
    multiplies the key by 8 and the signer shifts the secret scalar by 3: the pruned
    scalar is a multiple of 8 (`eight_dvd_leNat_pruneBuffer`), and `Base8` has the order
    `subOrder`, so the two multiples of `Base8` are the same (`eddsa_complete`).

    `blake512` and `poseidon` are the two hashes. -/

namespace Albus.Core

open Albus.Lib

/-- `{ R8, S }`. -/
structure Signature where
  R8 : ℕ × ℕ
  S : ℕ
  deriving DecidableEq

namespace Eddsa

section Functions

variable (blake512 : List UInt8 → List UInt8) (poseidon : List ℤ → ℕ)

/-- `buff.set(src, offset)`. -/
def setAt (buff src : List UInt8) (offset : ℕ) : Except String (List UInt8) :=
  if offset + src.length ≤ buff.length then
    .ok (buff.take offset ++ src ++ buff.drop (offset + src.length))
  else .error "offset is out of bounds"

def signPoseidon (prv : List UInt8) (msg : ℤ) : Except String Signature := do
  let h1 := blake512 prv
  let sBuff := pruneBuffer (h1.take 32)
  let s := (FfUtils.leBuff2int sBuff).toNat
  let A ← BabyJub.mulPointEscalar BabyJub.Base8 (s >>> 3)
  let msgBuff ← FfUtils.leInt2Buff msg 32
  let composeBuff ← setAt (List.replicate 64 0) ((h1.take 64).drop 32) 0
  let composeBuff ← setAt composeBuff msgBuff 32
  let rBuff := blake512 composeBuff
  let r := F1Field.Over.e BabyJub.subOrder (FfUtils.leBuff2int rBuff).toNat
  let R8 ← BabyJub.mulPointEscalar BabyJub.Base8 r
  let hm := poseidon [R8.1, R8.2, A.1, A.2, msg]
  let S := F1Field.Over.add BabyJub.subOrder r (F1Field.Over.mul BabyJub.subOrder hm s)
  .ok { R8, S }

def verifyPoseidon (msg : ℤ) (sig : Signature) (A : ℕ × ℕ) : Except String Bool := do
  if ¬ BabyJub.inCurve sig.R8 then .ok false
  else if ¬ BabyJub.inCurve A then .ok false
  else if BabyJub.subOrder ≤ sig.S then .ok false
  else do
    let hms := poseidon [sig.R8.1, sig.R8.2, A.1, A.2, msg]
    let Pleft ← BabyJub.mulPointEscalar BabyJub.Base8 sig.S
    let Pright ← BabyJub.mulPointEscalar A (hms * 8)
    let Pright ← BabyJub.addPoint sig.R8 Pright
    .ok (Pleft.1 == Pright.1 && Pleft.2 == Pright.2)

def packSignature (sig : Signature) : List UInt8 :=
  (BabyJub.packPoint sig.R8).toList ++ (BabyJub.toRprLE sig.S).toList

end Functions

/-- The options of `createCredentialProof`, without the date. -/
structure CreateCredentialProof where
  msg : ℤ
  signerSecretKey : List UInt8
  verificationMethod : Option String
  controller : Option String
  purpose : Option String

structure CredentialProof where
  type : String
  created : String
  verificationMethod : String
  proofPurpose : String
  proofValue : String
  deriving DecidableEq

/-- `!text`. -/
def Falsy (text : Option String) : Prop := text.getD "" = ""

instance (text : Option String) : Decidable (Falsy text) :=
  inferInstanceAs (Decidable (_ = _))

/-- `w3cDate` is what it makes of the date; a key pair keeps the secret key it is made
    from. -/
def createCredentialProof (blake512 : List UInt8 → List UInt8) (poseidon : List ℤ → ℕ)
    (bytesToBase58 : List UInt8 → String) (w3cDate : String)
    (opts : CreateCredentialProof) : Except String CredentialProof := do
  let signerPubkey ← prv2pub blake512 opts.signerSecretKey
  let signature ← signPoseidon blake512 poseidon opts.signerSecretKey opts.msg
  let checked ← verifyPoseidon poseidon opts.msg signature signerPubkey
  if ¬ checked then .error "Self check on EdDSA signature failed"
  else
    let compressed := (BabyJub.packPoint signerPubkey).toList
    if Falsy opts.verificationMethod ∧ Falsy opts.controller then
      .error "Either `verificationMethod` or `controller` must be provided"
    else
      .ok
        { type := "BJJSignature2021"
          created := w3cDate
          verificationMethod := opts.verificationMethod.getD
            (opts.controller.getD "undefined" ++ "#" ++ bytesToBase58 compressed)
          proofPurpose := opts.purpose.getD "assertionMethod"
          proofValue := "z" ++ bytesToBase58 (packSignature signature ++ compressed) }

/-! ## The secret scalar -/

/-- Pruning the whole digest and pruning its first half. -/
theorem take_pruneBuffer (buff : List UInt8) :
    (pruneBuffer buff).take 32 = pruneBuffer (buff.take 32) := by
  have hget : ∀ (l : List UInt8) (i : ℕ), i < 32 → (l.take 32).getD i 0 = l.getD i 0 := by
    intro l i hi
    rw [List.getD_eq_getElem?_getD, List.getElem?_take_of_lt hi, List.getD_eq_getElem?_getD]
  simp only [pruneBuffer, List.take_set]
  rw [hget buff 0 (by omega), ← hget (buff.set 0 _) 31 (by omega), List.take_set,
    ← hget (((buff.set 0 _).set 31 _)) 31 (by omega), List.take_set, List.take_set]

/-- **THE PRUNED SCALAR IS A MULTIPLE OF 8.** -/
theorem eight_dvd_leNat_pruneBuffer {buff : List UInt8} (h : buff ≠ []) :
    8 ∣ leNat (pruneBuffer buff) := by
  cases buff with
  | nil => exact absurd rfl h
  | cons b buff =>
      have hhead : ∃ rest, pruneBuffer (b :: buff) = (b &&& 0xF8) :: rest := ⟨_, rfl⟩
      obtain ⟨rest, hrest⟩ := hhead
      have hlow : (b &&& 0xF8).toNat % 2 ^ 3 = 0 := by
        rw [UInt8.toNat_and, Nat.and_mod_two_pow]
        exact Nat.and_zero _
      rw [hrest, leNat_cons]
      omega

/-- The scalar that the key is made of. -/
def secretScalar (blake512 : List UInt8 → List UInt8) (prv : List UInt8) : ℕ :=
  leNat (pruneBuffer ((blake512 prv).take 32))

theorem formatPrivKey_eq (blake512 : List UInt8 → List UInt8) (prv : List UInt8) :
    formatPrivKeyForBabyJub blake512 prv = secretScalar blake512 prv >>> 3 := by
  rw [formatPrivKeyForBabyJub, secretScalar, ← take_pruneBuffer, beNat_reverse]

/-! ## Completeness -/

/-- Multiples of `Base8` depend on the scalar modulo `subOrder` only. -/
theorem mod_nsmul_base8 (n : ℕ) :
    (n % BabyJub.subOrder) • BabyJub.base8 = n • BabyJub.base8 := by
  conv_rhs => rw [← Nat.div_add_mod n BabyJub.subOrder]
  rw [add_nsmul, mul_comm, mul_nsmul', BabyJub.subOrder_nsmul_base8, nsmul_zero, zero_add]

section Completeness

variable {blake512 : List UInt8 → List UInt8} {poseidon : List ℤ → ℕ}

theorem mulPointEscalar_base8 (n : ℕ) :
    BabyJub.mulPointEscalar BabyJub.Base8 n = .ok (BabyJub.coords (n • BabyJub.base8)) := by
  rw [← BabyJub.coords_base8, BabyJub.mulPointEscalar_coords]

theorem prv2pub_eq (prv : List UInt8) : prv2pub blake512 prv
    = .ok (BabyJub.coords ((secretScalar blake512 prv >>> 3) • BabyJub.base8)) := by
  rw [prv2pub, formatPrivKey_eq, mulPointEscalar_base8]

/-- What a signature is, whatever the hashes. -/
structure Signs (poseidon : List ℤ → ℕ) (s : ℕ) (msg : ℤ) (sig : Signature) (r : ℕ) :
    Prop where
  R8 : sig.R8 = BabyJub.coords (r • BabyJub.base8)
  S : sig.S = (r + poseidon [sig.R8.1, sig.R8.2,
    (BabyJub.coords ((s >>> 3) • BabyJub.base8)).1,
    (BabyJub.coords ((s >>> 3) • BabyJub.base8)).2, msg] * s) % BabyJub.subOrder

/-- The buffer that the nonce is the digest of can be composed. -/
theorem composeBuff_ok (hblake : ∀ data, (blake512 data).length = 64) (prv : List UInt8)
    {msgBuff : List UInt8} (hmsg : msgBuff.length = 32) :
    ∃ first second, setAt (List.replicate 64 0) (((blake512 prv).take 64).drop 32) 0
        = .ok first ∧ setAt first msgBuff 32 = .ok second := by
  have hhalf : (((blake512 prv).take 64).drop 32).length = 32 := by
    rw [List.length_drop, List.length_take, hblake]
    rfl
  obtain ⟨half, hhalf'⟩ : ∃ half, ((blake512 prv).take 64).drop 32 = half := ⟨_, rfl⟩
  rw [hhalf'] at hhalf ⊢
  refine ⟨_, _, if_pos ?_, if_pos ?_⟩
  · rw [hhalf, List.length_replicate]
    decide
  · rw [List.length_append, List.length_append, List.length_take, List.length_drop, hhalf,
      List.length_replicate, hmsg]
    decide

/-- **SIGNING SUCCEEDS.** -/
theorem signPoseidon_signs (poseidon : List ℤ → ℕ) (hblake : ∀ data, (blake512 data).length = 64)
    (prv : List UInt8) {msg : ℤ} (hnonneg : 0 ≤ msg) (hlt : msg < 2 ^ 256) :
    ∃ sig r, signPoseidon blake512 poseidon prv msg = .ok sig ∧
      Signs poseidon (secretScalar blake512 prv) msg sig r := by
  obtain ⟨m, rfl⟩ := Int.eq_ofNat_of_zero_le hnonneg
  have hm : m < 256 ^ 32 := by
    norm_num at hlt ⊢
    omega
  have hscalar : (FfUtils.leBuff2int (pruneBuffer ((blake512 prv).take 32))).toNat
      = secretScalar blake512 prv := by
    rw [FfUtils.leBuff2int_eq, Int.toNat_natCast, secretScalar]
  obtain ⟨first, second, hfirst, hsecond⟩ :=
    composeBuff_ok hblake prv (length_leBytes 32 m)
  obtain ⟨r, hr⟩ : ∃ r, F1Field.Over.e BabyJub.subOrder
      (FfUtils.leBuff2int (blake512 second)).toNat = r := ⟨_, rfl⟩
  have hpos : 0 < BabyJub.subOrder := by decide
  have hrlt : r < BabyJub.subOrder := by
    rw [← hr, F1Field.Over.e_eq_mod]
    exact Nat.mod_lt _ hpos
  obtain ⟨hash, hhash⟩ : ∃ hash, poseidon [(BabyJub.coords (r • BabyJub.base8)).1,
      (BabyJub.coords (r • BabyJub.base8)).2,
      (BabyJub.coords ((secretScalar blake512 prv >>> 3) • BabyJub.base8)).1,
      (BabyJub.coords ((secretScalar blake512 prv >>> 3) • BabyJub.base8)).2, m] = hash :=
    ⟨_, rfl⟩
  have hsign : signPoseidon blake512 poseidon prv m = .ok
      { R8 := BabyJub.coords (r • BabyJub.base8)
        S := F1Field.Over.add BabyJub.subOrder r
          (F1Field.Over.mul BabyJub.subOrder hash (secretScalar blake512 prv)) } := by
    rw [signPoseidon]
    simp only [hscalar, mulPointEscalar_base8, FfUtils.leInt2Buff_of_lt hm, hfirst, hsecond,
      hr, hhash, bind, Except.bind]
  refine ⟨_, r, hsign, ⟨rfl, ?_⟩⟩
  show F1Field.Over.add _ _ (F1Field.Over.mul _ _ _) = _
  rw [hhash, F1Field.Over.mul, F1Field.Over.add_eq_mod hrlt (Nat.mod_lt _ hpos),
    Nat.add_mod_mod]

/-- **THE VERIFIER ACCEPTS IT.** -/
theorem verifyPoseidon_signs {s r : ℕ} {msg : ℤ} {sig : Signature} (hs : 8 ∣ s)
    (h : Signs poseidon s msg sig r) :
    verifyPoseidon poseidon msg sig (BabyJub.coords ((s >>> 3) • BabyJub.base8))
      = .ok true := by
  obtain ⟨hm, hmeq⟩ : ∃ hm, poseidon [sig.R8.1, sig.R8.2,
      (BabyJub.coords ((s >>> 3) • BabyJub.base8)).1,
      (BabyJub.coords ((s >>> 3) • BabyJub.base8)).2, msg] = hm := ⟨_, rfl⟩
  have hS := h.S
  rw [hmeq] at hS
  have hlt : ¬ BabyJub.subOrder ≤ sig.S := by
    rw [hS]
    exact Nat.not_le.mpr (Nat.mod_lt _ (by decide))
  -- the scalar of the key, eight times, is the secret one
  have height : (hm * 8) * (s >>> 3) = hm * s := by
    obtain ⟨k, rfl⟩ := hs
    rw [Nat.shiftRight_eq_div_pow, show 8 * k / 2 ^ 3 = k by omega, mul_assoc]
  have hsum : r • BabyJub.base8 + (hm * 8) • ((s >>> 3) • BabyJub.base8)
      = sig.S • BabyJub.base8 := by
    rw [hS, mod_nsmul_base8, ← mul_nsmul', height, ← add_nsmul]
  rw [verifyPoseidon, hmeq, h.R8, BabyJub.inCurve_coords, BabyJub.inCurve_coords]
  simp only [hlt, mulPointEscalar_base8, BabyJub.mulPointEscalar_coords,
    BabyJub.addPoint_coords, hsum, bind, Except.bind, not_true_eq_false, if_false, beq_self_eq_true,
    Bool.and_self]

/-- **SIGNATURES VERIFY**, and the self-check of a new credential never fails. -/
theorem eddsa_complete (hblake : ∀ data, (blake512 data).length = 64) (prv : List UInt8)
    {msg : ℤ} (hnonneg : 0 ≤ msg) (hlt : msg < 2 ^ 256) :
    ∃ sig A, signPoseidon blake512 poseidon prv msg = .ok sig ∧
      prv2pub blake512 prv = .ok A ∧ verifyPoseidon poseidon msg sig A = .ok true ∧
      ∀ bytesToBase58 w3cDate opts, opts.signerSecretKey = prv → opts.msg = msg →
        createCredentialProof blake512 poseidon bytesToBase58 w3cDate opts
          ≠ .error "Self check on EdDSA signature failed" := by
  obtain ⟨sig, r, hsign, hsigns⟩ :=
    signPoseidon_signs poseidon hblake prv hnonneg hlt
  have hne : (blake512 prv).take 32 ≠ [] := by
    intro hnil
    have hlength := congrArg List.length hnil
    rw [List.length_take, hblake] at hlength
    exact absurd hlength (by decide)
  have hverify := verifyPoseidon_signs (eight_dvd_leNat_pruneBuffer hne) hsigns
  refine ⟨sig, _, hsign, prv2pub_eq prv, hverify, ?_⟩
  rintro bytesToBase58 w3cDate opts rfl rfl
  rw [createCredentialProof, prv2pub_eq, hsign]
  simp only [bind, Except.bind, secretScalar] at hverify ⊢
  rw [hverify]
  simp only [not_true_eq_false, if_false]
  split
  · simp
  · simp

end Completeness

/-! ## One signature -/

namespace Sample

def prv : List UInt8 := [1, 2, 3]

/-- The digest of the key. -/
def digest : List UInt8 :=
  [189, 168, 198, 74, 137, 155, 40, 211, 132, 179, 56, 137, 152, 155, 55, 122, 149, 155, 69,
      201, 72, 240, 97, 117, 41, 37, 121, 74, 36, 88, 184, 58, 226, 234, 114, 217, 30, 29, 181,
      44, 86, 14, 133, 27, 145, 118, 8, 107, 209, 59, 175, 183, 144, 136, 161, 64, 105, 208,
      160, 160, 58, 210, 148, 173]

/-- The digest of its second half and of the message 42. -/
def nonceDigest : List UInt8 :=
  [37, 2, 153, 243, 247, 162, 202, 95, 65, 10, 227, 149, 198, 147, 63, 122, 195, 144, 247,
      207, 124, 14, 198, 89, 214, 65, 181, 30, 52, 125, 154, 174, 27, 11, 90, 179, 93, 84, 18,
      58, 252, 89, 202, 225, 17, 140, 79, 234, 79, 217, 148, 249, 118, 18, 122, 177, 199, 216,
      253, 212, 34, 63, 248, 179]

def blake512 (data : List UInt8) : List UInt8 :=
  if data = prv then digest
  else if data = digest.drop 32 ++ leBytes 32 42 then nonceDigest
  else List.replicate 64 0

/-- Poseidon on the two points and the message. -/
def poseidon (inputs : List ℤ) : ℕ :=
  if inputs =
    [756178370034365687667467551099446706844751032879045406046890358501543208094,
      7906838811692967308613448576348753669503609580935514295242243951393709193578,
      20029438176779523535257125024862714888069219132461424371347273795006674655183,
      16117752154477955018576373204150918722918739027380417243059036866383954214819, 42] then
    1707536885600796539811320983120205213388163340712846138456613135485344316108
  else 0

theorem length_blake512 (data : List UInt8) : (blake512 data).length = 64 := by
  rw [blake512]
  split
  · rfl
  · split
    · rfl
    · exact List.length_replicate

theorem eddsa_complete_sample :
    ∃ sig A, signPoseidon blake512 poseidon prv 42 = .ok sig ∧
      prv2pub blake512 prv = .ok A ∧ verifyPoseidon poseidon 42 sig A = .ok true ∧
      ∀ bytesToBase58 w3cDate opts, opts.signerSecretKey = prv → opts.msg = 42 →
        createCredentialProof blake512 poseidon bytesToBase58 w3cDate opts
          ≠ .error "Self check on EdDSA signature failed" :=
  eddsa_complete length_blake512 prv (by norm_num) (by norm_num)

end Sample

end Eddsa

end Albus.Core
