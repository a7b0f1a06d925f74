import Albus.Program.Signals

/-! # Accounts of the Albus program

    `state.rs`, with the fields the modelled instructions read or write, and the
    machine integers they use.  An account loaded by Anchor is its address
    together with its data. -/

namespace Albus.Program

open Albus.Lib

/-! ## Machine integers -/

def i64Min : Int := -2 ^ 63

def i64Max : Int := 2 ^ 63 - 1

/-- `u64 as i64`: the bits of the word read as two's complement. -/
def asI64 (n : Nat) : Int := if n < 2 ^ 63 then n else (n : Int) - 2 ^ 64

/-- `i64::saturating_add`. -/
def saturatingAddI64 (a b : Int) : Int := max i64Min (min i64Max (a + b))

/-! ## Addresses and accounts -/

abbrev Pubkey := Bytes 32

instance lawfulBEq_pubkey : LawfulBEq Pubkey := inferInstance

/-- `Default::default()` of a `Pubkey`. -/
def Pubkey.default : Pubkey := Vector.replicate 32 0

/-- `Account<'info, T>`: an address and the data stored there. -/
structure Account (α : Type) where
  key : Pubkey
  data : α
  deriving DecidableEq

/-- `ProofData`: a Groth16 proof in the byte layout of the syscalls. -/
structure ProofData where
  a : Bytes 64
  b : Bytes 128
  c : Bytes 64
  deriving DecidableEq

structure VerificationKey where
  alpha : Bytes 64
  beta : Bytes 128
  gamma : Bytes 128
  delta : Bytes 128
  ic : List (Bytes 64)
  deriving DecidableEq

structure Issuer where
  zkPubkey : Bytes 64
  isDisabled : Bool
  deriving DecidableEq

/-- `Issuer::zk_pubkey`: the two coordinates of the signing key. -/
def Issuer.zkPubkeyHalves (i : Issuer) : Bytes 32 × Bytes 32 :=
  (i.zkPubkey.extract 0 32, i.zkPubkey.extract 32 64)

structure Circuit where
  vk : VerificationKey
  outputs : List String
  publicSignals : List String
  privateSignals : List String
  deriving DecidableEq

/-- `Circuit::signals`: the layout of the outputs followed by the public
    signals. -/
def Circuit.signals (c : Circuit) : Option Signals :=
  Signals.new (c.outputs ++ c.publicSignals)

structure PolicyRule where
  key : String
  value : Bytes 32
  deriving DecidableEq

structure Policy where
  serviceProvider : Pubkey
  circuit : Pubkey
  expirationPeriod : UInt32
  retentionPeriod : UInt32
  proofRequestCount : Nat
  rules : List PolicyRule
  deriving DecidableEq

structure ServiceProvider where
  proofRequestCount : Nat
  secretShareThreshold : UInt8
  trustees : List Pubkey
  deriving DecidableEq

structure Trustee where
  /-- A packed BabyJub key. -/
  key : Bytes 32
  authority : Pubkey
  isVerified : Bool
  revealedShareCount : Nat
  deriving DecidableEq

inductive ProofRequestStatus where
  | pending
  | proved
  | verified
  | rejected
  deriving DecidableEq, Repr

structure ProofRequest where
  serviceProvider : Pubkey
  policy : Pubkey
  circuit : Pubkey
  issuer : Pubkey
  owner : Pubkey
  identifier : Nat
  createdAt : Int
  expiredAt : Int
  verifiedAt : Int
  provedAt : Int
  retentionEndDate : Int
  status : ProofRequestStatus
  bump : UInt8
  proof : Option ProofData
  publicInputs : List (Bytes 32)
  deriving DecidableEq

namespace ProofRequest

/-- What a freshly allocated (all zero) account decodes to. -/
def zeroed : ProofRequest where
  serviceProvider := .default
  policy := .default
  circuit := .default
  issuer := .default
  owner := .default
  identifier := 0
  createdAt := 0
  expiredAt := 0
  verifiedAt := 0
  provedAt := 0
  retentionEndDate := 0
  status := .pending
  bump := 0
  proof := none
  publicInputs := []

/-- `ProofRequest::INIT_SPACE`: five keys, six 64-bit numbers, status, bump, the
    optional proof and an empty vector of inputs. -/
def initSpace : Nat := 5 * 32 + 6 * 8 + 1 + 1 + (1 + 256) + 4

/-- `ProofRequest::space`. -/
def space (maxPublicInputs : UInt8) : Nat :=
  8 + initSpace + maxPublicInputs.toNat * 32

/-- Size of the account's serialization, discriminator included. -/
def serializedLen (r : ProofRequest) : Nat :=
  8 + 5 * 32 + 6 * 8 + 1 + 1 + (if r.proof.isSome then 1 + 256 else 1)
    + (4 + r.publicInputs.length * 32)

def isProved (r : ProofRequest) : Bool := r.proof.isSome

def isVerified (r : ProofRequest) : Bool := r.status = .verified

end ProofRequest

end Albus.Program
