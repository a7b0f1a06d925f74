import Albus.Circuits.Strings

/-! # Credentials inside a circuit

    The parts every proof about a credential repeats: the claims under the
    credential's root (`utils/merkleProof.circom`), the issuer's signature of the
    root, and the check of `meta_validUntil` against the public timestamp.

    The expiry check constrains `isNotExpired` by the parsed expiry, and the parsed
    expiry by nothing: `Str2Timestamp` copies the output of `AsciiToNum`, which is
    a bare hint.  With hint zero the check is void
    (`ExpiryCheck.exists_constraints`). -/

namespace Albus.Circuits

open Albus.Lib

/-- A claim as a circuit receives it: `X`, `XKey` and `XProof`. -/
structure Claim where
  value : F
  key : F
  proof : ℕ → F

/-! ## MerkleProof -/

/-- The inclusion `MerkleProof(n, nLevels)` asks of one claim. -/
def merkleInclusion (root : F) (c : Claim) : SMTVerifierInput where
  enabled := 1
  fnc := 0
  root := root
  siblings := c.proof
  oldKey := 0
  oldValue := 0
  isOld0 := 0
  key := c.key
  value := c.value

/-- `MerkleProof(n, nLevels)` on its `n` claims. -/
def MerkleProof.Constraints (lib : Circomlib) (nLevels : ℕ) (root : F)
    (claims : List Claim) : Prop :=
  ∀ c ∈ claims, lib.smtVerifier nLevels (merkleInclusion root c)

/-! ## The issuer's signature -/

/-- `issuerPk` is `[Ax, Ay]`, `issuerSignature` is `[R8x, R8y, S]`. -/
structure Issuer where
  pk : F × F
  signature : F × F × F

/-- The inputs of the signature check over the credential's root. -/
def Issuer.eddsa (issuer : Issuer) (credentialRoot : F) : EdDSAInput where
  enabled := 1
  M := credentialRoot
  Ax := issuer.pk.1
  Ay := issuer.pk.2
  R8x := issuer.signature.1
  R8y := issuer.signature.2.1
  S := issuer.signature.2.2

/-! ## Expiry -/

namespace ExpiryCheck

structure Signals where
  validUntil : Str2Timestamp.Signals
  isNotExpired : F

/-- `validUntil = Str2Timestamp()(meta_validUntil)`,
    `isNotExpired = LessThan(32)([timestamp, validUntil])`,
    `isNotExpired * validUntil === validUntil`. -/
structure Constraints (lib : Circomlib) (timestamp metaValidUntil : F)
    (s : Signals) : Prop where
  validUntil : Str2Timestamp.Constraints lib metaValidUntil s.validUntil
  isNotExpired : lib.lessThan 32 timestamp s.validUntil.ascii.out s.isNotExpired
  valid : s.isNotExpired * s.validUntil.ascii.out = s.validUntil.ascii.out

/-- The hints of the expiry check are honest. -/
def Hints (metaValidUntil : F) (s : Signals) : Prop :=
  Str2Timestamp.Hints metaValidUntil s.validUntil

/-- **HONEST HINTS MAKE THE EXPIRY CHECK SOUND.** -/
theorem Constraints.sound {lib : Circomlib} (hlib : lib.Arithmetic) {timestamp : F}
    (hts : timestamp.val < 2 ^ 32) {digits : List UInt8} (hlen : digits.length ≤ 10)
    (hdigits : ∀ b ∈ digits, IsDigit b) {s : Signals}
    (h : Constraints lib timestamp (beNat digits : F) s)
    (hh : Hints (beNat digits : F) s) :
    decimal digits = 0 ∨ timestamp.val < decimal digits := by
  have hout := h.validUntil.out_eq hlib hlen hdigits hh
  by_cases hbig : 2 ^ 32 ≤ decimal digits
  · exact Or.inr (lt_of_lt_of_le hts hbig)
  · have hlt : decimal digits < 2 ^ 32 := Nat.lt_of_not_le hbig
    have hval : ((decimal digits : ℕ) : F).val = decimal digits :=
      ZMod.val_natCast_of_lt (lt_trans hlt (lt_trans (by norm_num) two_pow_252_lt))
    have hcmp := h.isNotExpired
    have hvalid := h.valid
    rw [hout] at hcmp hvalid
    rw [hlib.lessThan 32 _ _ _ (by norm_num) hts (by rw [hval]; exact hlt), hval] at hcmp
    rw [hcmp] at hvalid
    by_cases hexp : timestamp.val < decimal digits
    · exact Or.inr hexp
    · -- expired: the constraint leaves zero only
      left
      rw [(ofProp_eq_zero_iff _).mpr hexp, zero_mul] at hvalid
      rw [← hval, ← hvalid, ZMod.val_zero]

/-- **THE EXPIRY CHECK EXCLUDES NO INPUT.** -/
theorem exists_constraints {lib : Circomlib} (hlib : lib.Arithmetic) {timestamp : F}
    (hts : timestamp.val < 2 ^ 32) (metaValidUntil : F) :
    ∃ s, Constraints lib timestamp metaValidUntil s := by
  have hh := Str2Timestamp.honest_constraints hlib metaValidUntil
  -- everything honest but the hint of `AsciiToNum`
  refine ⟨⟨⟨natBits metaValidUntil.val,
    { (Str2Timestamp.honest metaValidUntil).ascii with out := 0 }⟩, 0⟩,
    ⟨⟨hh.bits, ⟨hh.ascii.b2n⟩⟩, ?_, mul_zero 0⟩⟩
  have hzero : (0 : F).val = 0 := ZMod.val_zero
  show lib.lessThan 32 timestamp 0 0
  rw [hlib.lessThan 32 _ _ _ (by norm_num) hts (by rw [hzero]; norm_num), hzero]
  exact ((ofProp_eq_zero_iff _).mpr (Nat.not_lt_zero _)).symm

/-- An honest prover passes the check with a credential that has not expired. -/
theorem exists_honest {lib : Circomlib} (hlib : lib.Arithmetic) {timestamp : F}
    {digits : List UInt8} (hlen : digits.length ≤ 10)
    (hdigits : ∀ b ∈ digits, IsDigit b) (hbig : decimal digits < 2 ^ 32)
    (hlt : timestamp.val < decimal digits) :
    ∃ s, Constraints lib timestamp (beNat digits : F) s ∧ Hints (beNat digits : F) s := by
  have hc := Str2Timestamp.honest_constraints hlib (beNat digits : F)
  have hh := Str2Timestamp.honest_hints (beNat digits : F)
  have hout := hc.out_eq hlib hlen hdigits hh
  have hval : ((decimal digits : ℕ) : F).val = decimal digits :=
    ZMod.val_natCast_of_lt (lt_trans hbig (lt_trans (by norm_num) two_pow_252_lt))
  refine ⟨⟨Str2Timestamp.honest (beNat digits : F), 1⟩, ⟨hc, ?_, one_mul _⟩, hh⟩
  show lib.lessThan 32 timestamp _ 1
  rw [hout, hlib.lessThan 32 _ _ _ (by norm_num) (lt_trans hlt hbig)
    (by rw [hval]; exact hbig), hval]
  exact ((ofProp_eq_one_iff _).mpr hlt).symm

end ExpiryCheck

end Albus.Circuits
