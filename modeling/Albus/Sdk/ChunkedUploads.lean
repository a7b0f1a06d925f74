import Albus.Core.Zkp
import Albus.Program.CircuitVk
import Albus.Program.ClientEquation

/-! # Uploads in chunks

    A list of public inputs, and the IC points of a key, can exceed a transaction.
    `ProofRequestManager.prove` sends the inputs from the front and keeps the last
    ones for the transaction that carries the proof; `CircuitManager.updateVkIx`
    sends the key with the first points and the others after it.  The program
    appends or replaces as each part says, so that the parts add up whatever the
    account held. -/

namespace Albus.Sdk

open Albus.Lib Albus.Core Albus.Program

/-- `chunk` of lodash: the elements in order, in groups of the given size, the last
    of which may be smaller. -/
structure Chunking where
  chunk : {α : Type} → List α → ℕ → List (List α)
  flatten_chunk : ∀ {α : Type} (as : List α) (size : ℕ), 0 < size →
    (chunk as size).flatten = as
  length_le : ∀ {α : Type} (as : List α) (size : ℕ), 0 < size →
    ∀ group ∈ chunk as size, group.length ≤ size

/-! ## ProofRequestManager.prove -/

structure ProveProps where
  circuit : Pubkey
  policy : Pubkey
  issuer : Option Pubkey
  /-- The key of the provider. -/
  authority : Pubkey
  proof : Zkp.ProofData
  publicSignals : List ℤ
  verify : Bool

/-- The accounts by address, and the data. -/
structure ProveInstruction where
  circuit : Pubkey
  policy : Pubkey
  issuer : Option Pubkey
  authority : Pubkey
  data : ProveProofRequestData
  deriving DecidableEq

/-- A transaction of the builder; each has one instruction of the program. -/
inductive ProveTransaction where
  | prove (ix : ProveInstruction)
  | verify (circuit authority : Pubkey)
  deriving DecidableEq

/-- `inputsLimit.withProof` -/
def limitWithProof : ℕ := 18

/-- `inputsLimit.withoutProof` -/
def limitWithoutProof : ℕ := 26

/-- The inputs that go ahead of the proof: `publicInputs.slice(0, -18)`. -/
def inputsAhead (publicInputs : List (Bytes 32)) : List (Bytes 32) :=
  publicInputs.take (publicInputs.length - limitWithProof)

/-- The inputs that go with the proof: `publicInputs.slice(-18)`. -/
def inputsWithProof (publicInputs : List (Bytes 32)) : List (Bytes 32) :=
  publicInputs.drop (publicInputs.length - limitWithProof)

/-- The data of the instructions that `prove` builds. -/
def proveData (lodash : Chunking) (proof : ProofData) (publicInputs : List (Bytes 32)) :
    List ProveProofRequestData :=
  let ahead :=
    if limitWithProof < publicInputs.length then
      (lodash.chunk (inputsAhead publicInputs) limitWithoutProof).mapIdx fun i chunk =>
        { proof := none, publicInputs := chunk, reset := i = 0 }
    else []
  ahead ++
    [{ proof := some proof
       publicInputs := inputsWithProof publicInputs
       reset := publicInputs.length ≤ limitWithProof }]

/-- The instruction with this data; only the one with the proof names the issuer. -/
def proveInstruction (props : ProveProps) (data : ProveProofRequestData) :
    ProveInstruction where
  circuit := props.circuit
  policy := props.policy
  issuer := if data.proof.isSome then props.issuer else none
  authority := props.authority
  data := data

/-- The client throws on what does not encode. -/
def orThrow {α : Type} (message : String) : Option α → Except String α
  | some a => .ok a
  | none => .error message

/-- `ProofRequestManager.prove`, up to the sending. -/
def prove (lodash : Chunking) (props : ProveProps) :
    Except String (List ProveTransaction) := do
  let proof ← Zkp.encodeProof props.proof
  let proof ← orThrow "proof" (Proof.ofEncoded proof)
  let publicInputs ← Zkp.encodePublicSignals props.publicSignals
  let publicInputs ← orThrow "publicInputs" (publicInputsOfEncoded publicInputs)
  let instructions := (proveData lodash proof publicInputs).map fun data =>
    .prove (proveInstruction props data)
  .ok (instructions ++ if props.verify then [.verify props.circuit props.authority] else [])

/-! ## What the program makes of it -/

/-- The accounts of the instruction are those of the request. -/
def ProveInstruction.Matches (ix : ProveInstruction) (req : ProofRequest) : Prop :=
  req.circuit = ix.circuit ∧ req.policy = ix.policy ∧ req.owner = ix.authority

/-- The request with these inputs, and nothing of an earlier proof. -/
def received (req : ProofRequest) (inputs : List (Bytes 32)) : ProofRequest :=
  { req with
    status := .pending
    provedAt := 0
    proof := none
    issuer := .default
    publicInputs := inputs }

namespace UploadSample

/-- Groups of a size, for a list of at most `n` elements. -/
def groups {α : Type} (size : ℕ) : ℕ → List α → List (List α)
  | 0, _ => []
  | _ + 1, [] => []
  | n + 1, a :: as => (a :: as).take size :: groups size n ((a :: as).drop size)

theorem flatten_groups {α : Type} {size : ℕ} (hsize : 0 < size) (n : ℕ) (as : List α)
    (h : as.length ≤ n) : (groups size n as).flatten = as := by
  induction n generalizing as with
  | zero => exact (List.length_eq_zero_iff.mp (Nat.le_zero.mp h)).symm
  | succ n ih =>
      cases as with
      | nil => rfl
      | cons a as =>
          have hrest : ((a :: as).drop size).length ≤ n := by
            rw [List.length_drop]
            omega
          rw [groups, List.flatten_cons, ih _ hrest, List.take_append_drop]

theorem length_le_of_mem_groups {α : Type} {size n : ℕ} {as group : List α}
    (h : group ∈ groups size n as) : group.length ≤ size := by
  induction n generalizing as with
  | zero => exact nomatch h
  | succ n ih =>
      cases as with
      | nil => exact nomatch h
      | cons a as =>
          rcases List.mem_cons.mp h with rfl | hmem
          · exact List.length_take_le _ _
          · exact ih hmem

def lodash : Chunking where
  chunk as size := groups size as.length as
  flatten_chunk as _ hsize := flatten_groups hsize as.length as le_rfl
  length_le _ _ _ _ hgroup := length_le_of_mem_groups hgroup

/-- Forty signals: two transactions. -/
def props : ProveProps where
  circuit := Sample.key 2
  policy := Sample.key 3
  issuer := none
  authority := Sample.owner
  proof := Zkp.Sample.proof
  publicSignals := List.replicate 40 7
  verify := false

def circuit : CircuitAccount where
  space := 1000
  fixedLen := 500
  circuit := (Sample.circuit [] 3).data

end UploadSample

end Albus.Sdk
