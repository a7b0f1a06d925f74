import Albus.Lib.Sha256
import Albus.Program.State

/-! # A proof request as account data

    What `#[account]` writes: eight bytes of a hash of the type's name, then the
    fields in the order of their declaration, integers little-endian, an option
    behind its tag, a vector behind its length. -/

namespace Albus.Program

open Albus.Lib

/-! ## Integers -/

/-- `u64::to_le_bytes`. -/
def u64ToLeBytes (n : Nat) : List UInt8 := leBytes 8 n

/-- `i64::to_le_bytes`. -/
def i64ToLeBytes (z : Int) : List UInt8 := leBytes 8 (z % 2 ^ 64).toNat

/-- `i64::from_le_bytes`. -/
def i64FromLeBytes (bytes : List UInt8) : Int := asI64 (leNat bytes)

def InI64 (z : Int) : Prop := i64Min ≤ z ∧ z ≤ i64Max

instance (z : Int) : Decidable (InI64 z) :=
  inferInstanceAs (Decidable (i64Min ≤ z ∧ z ≤ i64Max))

/-- A signed word comes back from its bytes. -/
theorem i64FromLeBytes_toLeBytes {z : Int} (h : InI64 z) :
    i64FromLeBytes (i64ToLeBytes z) = z := by
  obtain ⟨hmin, hmax⟩ := h
  have hword : (z % 2 ^ 64).toNat < 256 ^ 8 := by
    have := Int.emod_lt_of_pos z (show (0 : Int) < 2 ^ 64 by decide)
    have := Int.emod_nonneg z (show (2 : Int) ^ 64 ≠ 0 by decide)
    norm_num
    omega
  rw [i64FromLeBytes, i64ToLeBytes, leNat_leBytes_of_lt hword]
  simp only [i64Min, i64Max, asI64] at *
  split <;> omega

/-! ## The account -/

/-- The discriminator of an account type. -/
def accountDiscriminator (name : String) : List UInt8 :=
  (sha256 ("account:" ++ name).toUTF8.toList).take 8

theorem length_accountDiscriminator (name : String) : (accountDiscriminator name).length = 8 := by
  rw [accountDiscriminator, List.length_take, length_sha256]
  rfl

/-- The index of the variant. -/
def ProofRequestStatus.toByte : ProofRequestStatus → UInt8
  | .pending => 0
  | .proved => 1
  | .verified => 2
  | .rejected => 3

def ProofData.serialize (proof : ProofData) : List UInt8 :=
  proof.a.toList ++ proof.b.toList ++ proof.c.toList

def serializeOption {α : Type} (serialize : α → List UInt8) : Option α → List UInt8
  | none => [0]
  | some a => 1 :: serialize a

def serializeVec {α : Type} (serialize : α → List UInt8) (as : List α) : List UInt8 :=
  leBytes 4 as.length ++ as.flatMap serialize

namespace ProofRequest

/-- The discriminator and the fields of fixed size. -/
def header (r : ProofRequest) : List UInt8 :=
  accountDiscriminator "ProofRequest"
    ++ r.serviceProvider.toList
    ++ r.policy.toList
    ++ r.circuit.toList
    ++ r.issuer.toList
    ++ r.owner.toList
    ++ u64ToLeBytes r.identifier
    ++ i64ToLeBytes r.createdAt
    ++ i64ToLeBytes r.expiredAt
    ++ i64ToLeBytes r.verifiedAt
    ++ i64ToLeBytes r.provedAt
    ++ i64ToLeBytes r.retentionEndDate
    ++ [r.status.toByte]
    ++ [r.bump]

/-- What `try_serialize` writes. -/
def serialize (r : ProofRequest) : List UInt8 :=
  r.header
    ++ serializeOption ProofData.serialize r.proof
    ++ serializeVec Vector.toList r.publicInputs

theorem length_header (r : ProofRequest) : r.header.length = 218 := by
  simp only [header, u64ToLeBytes, i64ToLeBytes, List.length_append, length_accountDiscriminator,
    Vector.length_toList, length_leBytes, List.length_singleton]

/-- The size the program reckons with is the size written. -/
theorem length_serialize (r : ProofRequest) : r.serialize.length = r.serializedLen := by
  have hproof : (serializeOption ProofData.serialize r.proof).length
      = if r.proof.isSome then 1 + 256 else 1 := by
    cases r.proof with
    | none => rfl
    | some p => simp [serializeOption, ProofData.serialize]
  have hinputs : (r.publicInputs.flatMap Vector.toList).length = r.publicInputs.length * 32 := by
    simp [List.length_flatMap]
  rw [serialize, serializeVec, List.length_append, List.length_append, List.length_append,
    length_header, length_leBytes, hproof, hinputs, serializedLen]

end ProofRequest

end Albus.Program
