import Albus.Circuits.Circomlib

/-! # Encrypted disclosure

    `utils/poseidon.circom`, `utils/shamirSecretSharing.circom`,
    `utils/ecdh.circom` and `utils/encryptionProof.circom`: the disclosed claims
    encrypted under a secret, the secret split into shares, and one share
    encrypted for every trustee. -/

namespace Albus.Circuits

/-- `adjustToMultiple`. -/
def adjustToMultiple (n m : ℕ) : ℕ := n + (m - n % m) % m

/-! ## PoseidonEncrypt -/

namespace PoseidonEncrypt

structure Signals where
  /-- `strategies[i].out[j]`. -/
  strategies : ℕ → ℕ → F
  ciphertext : ℕ → F

/-- The message, padded with zeros. -/
def decrypted (l : ℕ) (message : ℕ → F) (i : ℕ) : F := if i < l then message i else 0

/-- The four outputs of `PoseidonEx(3, 4)`. -/
def outs (s : Signals) (i : ℕ) : List F := (List.range 4).map (s.strategies i)

/-- `PoseidonEncrypt(l)`. -/
structure Constraints (lib : Circomlib) (l : ℕ) (message : ℕ → F) (nonce : F)
    (key : F × F) (s : Signals) : Prop where
  init : lib.poseidonEx [key.1, key.2, nonce + l * 2 ^ 128] 0 (outs s 0)
  release : ∀ i < adjustToMultiple l 3 / 3, ∀ j < 3,
    s.ciphertext (i * 3 + j) = decrypted l message (i * 3 + j) + s.strategies i (j + 1)
  iterate : ∀ i < adjustToMultiple l 3 / 3,
    lib.poseidonEx [s.ciphertext (i * 3), s.ciphertext (i * 3 + 1),
      s.ciphertext (i * 3 + 2)] (s.strategies i 0) (outs s (i + 1))
  last : s.ciphertext (adjustToMultiple l 3)
    = s.strategies (adjustToMultiple l 3 / 3) 1

end PoseidonEncrypt

/-! ## ShamirSecretSharing -/

namespace Polynomial

/-- `Polynomial(k, n)`: `summingUp` is its signal, `y` its output. -/
structure Constraints (k n : ℕ) (coef x : ℕ → F) (summingUp : ℕ → ℕ → F)
    (y : ℕ → F) : Prop where
  head : ∀ p < n, summingUp p 0 = coef (k - 1)
  step : ∀ p < n, ∀ i < k, 1 ≤ i →
    summingUp p i = summingUp p (i - 1) * x p + coef (k - i - 1)
  y : ∀ p < n, y p = summingUp p (k - 1)

/-- **THE SHARES ARE VALUES OF THE POLYNOMIAL** with these coefficients. -/
theorem Constraints.eval {k n : ℕ} {coef x : ℕ → F} {summingUp : ℕ → ℕ → F}
    {y : ℕ → F} (h : Constraints k n coef x summingUp y) (hk : 1 ≤ k) {p : ℕ}
    (hp : p < n) : y p = ∑ i ∈ Finset.range k, coef i * x p ^ i := by
  -- Horner: after `i` steps the top `i + 1` coefficients are in
  have key : ∀ i < k, summingUp p i
      = ∑ j ∈ Finset.range (i + 1), coef (k - 1 - i + j) * x p ^ j := by
    intro i
    induction i with
    | zero =>
        intro _
        rw [h.head p hp, Finset.sum_range_one, pow_zero, mul_one]
        rfl
    | succ i ih =>
        intro hi
        rw [h.step p hp (i + 1) hi (by omega), Nat.add_sub_cancel, ih (by omega),
          Finset.sum_range_succ' (fun j => coef (k - 1 - (i + 1) + j) * x p ^ j),
          Finset.sum_mul, pow_zero, mul_one]
        congr 1
        · refine Finset.sum_congr rfl ?_
          intro j _
          rw [show k - 1 - (i + 1) + (j + 1) = k - 1 - i + j by omega, pow_succ]
          ring
        · congr 1
          omega
  rw [h.y p hp, key (k - 1) (by omega), Nat.sub_add_cancel hk, Nat.sub_self]
  refine Finset.sum_congr rfl ?_
  intro j _
  rw [Nat.zero_add]

end Polynomial

namespace ShamirSecretSharing

structure Signals where
  /-- `coefGen[i].out`. -/
  coefGen : ℕ → F
  summingUp : ℕ → ℕ → F
  shares : ℕ → F

/-- The coefficients: the secret, then the generated ones. -/
def coef (secret : F) (s : Signals) : ℕ → F
  | 0 => secret
  | i + 1 => s.coefGen i

/-- `ShamirSecretSharing(n, k)`. -/
structure Constraints (lib : Circomlib) (n k : ℕ) (secret salt : F)
    (s : Signals) : Prop where
  parameterValidity : lib.lessEqThan 128 k n 1
  coefGen : ∀ i < k - 1, lib.poseidon [salt, (i : F), secret] (s.coefGen i)
  polynomial : Polynomial.Constraints k n (coef secret s) (fun i => (i : F) + 1)
    s.summingUp s.shares

end ShamirSecretSharing

/-! ## Ecdh -/

namespace Ecdh

structure Signals where
  privBits : ℕ → F
  sharedKey : F × F

/-- `Ecdh()`. -/
structure Constraints (lib : Circomlib) (privateKey : F) (publicKey : F × F)
    (s : Signals) : Prop where
  privBits : lib.num2Bits 253 privateKey s.privBits
  mulFix : lib.escalarMulAny 253 s.privBits publicKey s.sharedKey

end Ecdh

/-! ## EncryptionProof -/

namespace EncryptionProof

structure Signals where
  salt : F
  shamir : ShamirSecretSharing.Signals
  dataEnc : PoseidonEncrypt.Signals
  ecdh : ℕ → Ecdh.Signals
  share : ℕ → PoseidonEncrypt.Signals
  encryptedData : ℕ → F
  encryptedShare : ℕ → ℕ → F

/-- `EncryptionProof(N, shamirN, shamirK)`. -/
structure Constraints (lib : Circomlib) (N shamirN shamirK : ℕ) (userPrivateKey : F)
    (trusteePublicKey : ℕ → F × F) (nonce secret : F) (data : ℕ → F)
    (s : Signals) : Prop where
  salt : lib.poseidon [userPrivateKey, nonce] s.salt
  shamir : ShamirSecretSharing.Constraints lib shamirN shamirK secret s.salt s.shamir
  dataEnc : PoseidonEncrypt.Constraints lib N data nonce (secret, secret) s.dataEnc
  encryptedData : ∀ i < adjustToMultiple N 3 + 1,
    s.encryptedData i = s.dataEnc.ciphertext i
  ecdh : ∀ i < shamirN,
    Ecdh.Constraints lib userPrivateKey (trusteePublicKey i) (s.ecdh i)
  share : ∀ i < shamirN, PoseidonEncrypt.Constraints lib 1
    (fun _ => s.shamir.shares i) nonce (s.ecdh i).sharedKey (s.share i)
  encryptedShare : ∀ i < shamirN, ∀ j < 4,
    s.encryptedShare i j = (s.share i).ciphertext j

end EncryptionProof

end Albus.Circuits
