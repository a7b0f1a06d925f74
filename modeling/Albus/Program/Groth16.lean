import Albus.Field
import Albus.Program.State

/-! # The on-chain Groth16 verifier

    `crates/groth16-solana`.  The three `alt_bn128` syscalls are not part of the
    repository: they are parameters.  The verifier folds
    `acc := acc + input_i * ic_(i+1)` over the public inputs and hands four pairs
    of points to the pairing check.

    The scalar of a multiplication is a 32-byte word; the syscall reduces it
    modulo the group order, so the number the verifier uses for an input is
    `scalarOf`. -/

namespace Albus.Program

open Albus.Lib

/-- The scalar `alt_bn128_multiplication` multiplies by when it is handed the
    word `input`. -/
def scalarOf (input : Bytes 32) : Nat := input.toNum % bn254r

/-- The syscalls, on raw byte strings; `none` is any `AltBn128Error`. -/
structure AltBn128 where
  addition : List UInt8 → Option (List UInt8)
  multiplication : List UInt8 → Option (List UInt8)
  pairing : List UInt8 → Option (List UInt8)

/-- `Groth16Error`, and the panics of the verifier. -/
inductive Groth16Error where
  | altBn128Error
  | invalidPublicInputs
  | verificationFailed
  | panicked
  deriving DecidableEq, Repr

/-- The verifier the program builds: proof, inputs and key. -/
structure Groth16Verifier where
  proof : ProofData
  publicInputs : List (Bytes 32)
  vk : VerificationKey

namespace Groth16Verifier

/-- `Groth16Verifier::new`.  `Proof::validate` compares array lengths the types
    already fix. -/
def new (proof : ProofData) (publicInputs : List (Bytes 32))
    (vk : VerificationKey) : Except Groth16Error Groth16Verifier :=
  if publicInputs.length + 1 ≠ vk.ic.length then .error .invalidPublicInputs
  else .ok { proof, publicInputs, vk }

/-- One turn of the loop of `verify`. -/
def accumulate (sys : AltBn128) (acc : List UInt8) (p : Bytes 32 × Bytes 64) :
    Except Groth16Error (List UInt8) :=
  match sys.multiplication (p.2.toList ++ p.1.toList) with
  | none => .error .altBn128Error
  | some mulRes =>
      match sys.addition (mulRes ++ acc) with
      | none => .error .altBn128Error
      -- `try_into().expect("conversion failed")`
      | some sum => if sum.length = 64 then .ok sum else .error .panicked

/-- What `verify` hands to the pairing check. -/
def pairingInput (v : Groth16Verifier) (acc : List UInt8) : List UInt8 :=
  v.proof.a.toList ++ v.proof.b.toList ++ acc ++ v.vk.gamma.toList
    ++ v.proof.c.toList ++ v.vk.delta.toList ++ v.vk.alpha.toList
    ++ v.vk.beta.toList

/-- `Groth16Verifier::verify`. -/
def verify (sys : AltBn128) (v : Groth16Verifier) : Except Groth16Error Unit :=
  match v.vk.ic with
  | [] => .error .panicked
  | ic0 :: ics => do
      let acc ← (v.publicInputs.zip ics).foldlM (accumulate sys) ic0.toList
      match sys.pairing (v.pairingInput acc) with
      | none => .error .altBn128Error
      | some res =>
          match res[31]? with
          | none => .error .panicked
          | some b => if b ≠ 1 then .error .verificationFailed else .ok ()

end Groth16Verifier

/-- The multiplication syscall reads its scalar modulo the group order. -/
def AltBn128.ReducesScalar (sys : AltBn128) : Prop :=
  ∀ (point : Bytes 64) (x y : Bytes 32), scalarOf x = scalarOf y →
    sys.multiplication (point.toList ++ x.toList)
      = sys.multiplication (point.toList ++ y.toList)

/-- **THE VERIFIER SEES SCALARS**: two input lists with the same scalars get the
    same verdict. -/
theorem Groth16Verifier.verify_congr {sys : AltBn128} (hsys : sys.ReducesScalar)
    {proof : ProofData} {vk : VerificationKey} {xs ys : List (Bytes 32)}
    (h : xs.map scalarOf = ys.map scalarOf) :
    verify sys ⟨proof, xs, vk⟩ = verify sys ⟨proof, ys, vk⟩ := by
  have key : ∀ (ics : List (Bytes 64)) (xs ys : List (Bytes 32))
      (acc : List UInt8), xs.map scalarOf = ys.map scalarOf →
      (xs.zip ics).foldlM (accumulate sys) acc
        = (ys.zip ics).foldlM (accumulate sys) acc := by
    intro ics
    induction ics with
    | nil => intro xs ys acc _; rw [List.zip_nil_right, List.zip_nil_right]
    | cons ic ics ih =>
        intro xs ys acc hxy
        cases xs with
        | nil =>
            cases ys with
            | nil => rfl
            | cons y ys => exact nomatch hxy
        | cons x xs =>
            cases ys with
            | nil => exact nomatch hxy
            | cons y ys =>
                rw [List.map_cons, List.map_cons] at hxy
                obtain ⟨hhead, htail⟩ := List.cons.inj hxy
                have hacc : accumulate sys acc (x, ic)
                    = accumulate sys acc (y, ic) := by
                  unfold accumulate
                  rw [hsys ic x y hhead]
                rw [List.zip_cons_cons, List.zip_cons_cons, List.foldlM_cons,
                  List.foldlM_cons, hacc]
                exact congrArg _ (funext fun acc' => ih xs ys acc' htail)
  unfold verify
  cases hic : vk.ic with
  | nil => rfl
  | cons ic0 ics =>
      show (List.foldlM (accumulate sys) ic0.toList (xs.zip ics) >>= _)
        = (List.foldlM (accumulate sys) ic0.toList (ys.zip ics) >>= _)
      rw [key ics xs ys ic0.toList h]
      rfl

/-! ## The point at infinity

    The smallest part of the curve: the syscalls on the point at infinity, whose
    encoding is all zero, with an error for every other point.  There the sum and
    every multiple of the point are the point, and every pairing is one. -/

/-- The syscalls restricted to the point at infinity. -/
def AltBn128.atInfinity : AltBn128 where
  addition input :=
    if input = List.replicate 128 0 then some (List.replicate 64 0) else none
  multiplication input :=
    if input.length = 96 ∧ input.take 64 = List.replicate 64 0 then
      some (List.replicate 64 0)
    else none
  pairing input :=
    if input.all (· = 0) then some (List.replicate 31 0 ++ [1]) else none

theorem AltBn128.atInfinity_reducesScalar : atInfinity.ReducesScalar := by
  intro point x y _
  show (if (point.toList ++ x.toList).length = 96 ∧ _ then _ else _)
    = (if (point.toList ++ y.toList).length = 96 ∧ _ then _ else _)
  have hx : (point.toList ++ x.toList).take 64 = point.toList :=
    List.take_left' Vector.length_toList
  have hy : (point.toList ++ y.toList).take 64 = point.toList :=
    List.take_left' Vector.length_toList
  rw [hx, hy]
  simp only [List.length_append, Vector.length_toList]

end Albus.Program
