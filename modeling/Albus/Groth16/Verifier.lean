import Albus.Groth16.Prover
import Mathlib.Algebra.Module.LinearMap.Basic
import Mathlib.LinearAlgebra.BilinearMap

/-! # The verifier (`crates/groth16/src/verifier.rs`)

    The target group is written additively, as the engine has it; the pairing is a bilinear
    map.  An accepted proof satisfies one equation between pairings (`verifyProof_ok_iff`). -/

namespace Albus.Groth16

/-- `VerificationError`. -/
inductive VerificationError
  | invalidProof
  | invalidVerifyingKey
  deriving DecidableEq, Repr

section Verifier

variable {F G₁ G₂ Gt : Type} [Field F] [AddCommGroup G₁] [Module F G₁] [AddCommGroup G₂]
  [Module F G₂] [AddCommGroup Gt] [Module F Gt]

/-- `acc` of `verify_proof`. -/
def accumulateInputs (publicInputs : List F) (ic : List G₁) : G₁ :=
  (publicInputs.zip (ic.drop 1)).foldl (fun acc (i, b) => acc + i • b) (ic.getD 0 0)

/-- `verify_proof`. -/
def verifyProof [DecidableEq Gt] (pairing : G₁ →ₗ[F] G₂ →ₗ[F] Gt) (proof : Proof G₁ G₂)
    (publicInputs : List F) (vk : VerificationKey G₁ G₂) : Except VerificationError Unit :=
  if publicInputs.length + 1 ≠ vk.ic.length then .error .invalidVerifyingKey
  else
    let acc := accumulateInputs publicInputs vk.ic
    let rhs := pairing proof.a proof.b + pairing acc ((-1 : F) • vk.gammaG2)
      + pairing proof.c ((-1 : F) • vk.deltaG2)
    if pairing vk.alphaG1 vk.betaG2 = rhs then .ok () else .error .invalidProof

/-- **WHAT IS ACCEPTED**: as many inputs as the key is for, and the equation of the pairings. -/
theorem verifyProof_ok_iff [DecidableEq Gt] (pairing : G₁ →ₗ[F] G₂ →ₗ[F] Gt)
    (proof : Proof G₁ G₂) (publicInputs : List F) (vk : VerificationKey G₁ G₂) :
    verifyProof pairing proof publicInputs vk = .ok () ↔
      publicInputs.length + 1 = vk.ic.length ∧
      pairing proof.a proof.b = pairing vk.alphaG1 vk.betaG2
        + pairing (accumulateInputs publicInputs vk.ic) vk.gammaG2
        + pairing proof.c vk.deltaG2 := by
  rw [verifyProof]
  by_cases hlength : publicInputs.length + 1 = vk.ic.length
  · rw [if_neg (not_not.mpr hlength), and_iff_right hlength]
    simp only [neg_smul, one_smul, map_neg]
    split
    · next h =>
      refine iff_of_true rfl ?_
      rw [h]
      abel
    · next h =>
      refine iff_of_false (fun h' => nomatch h') ?_
      intro h'
      refine h ?_
      rw [h']
      abel
  · rw [if_pos hlength]
    exact iff_of_false (fun h => nomatch h) (fun h => hlength h.1)

end Verifier

end Albus.Groth16
