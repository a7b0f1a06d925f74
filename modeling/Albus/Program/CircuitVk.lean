import Albus.Program.ProofRequest

/-! # update_circuit_vk

    `instructions/circuit/update_circuit_vk.rs`: the parts of the verification key
    that the call brings are written, the IC points either in place of the stored
    ones or after them.  A key is sent in several calls, so each leaves room for
    the next or fails on the size of the account. -/

namespace Albus.Program

open Albus.Lib

structure UpdateCircuitVkData where
  alpha : Option (Bytes 64)
  beta : Option (Bytes 128)
  gamma : Option (Bytes 128)
  delta : Option (Bytes 128)
  ic : Option (List (Bytes 64))
  extendIc : Bool
  deriving DecidableEq

/-- A live circuit account: its allocated size, what its serialization takes
    without the IC points, and its data. -/
structure CircuitAccount where
  space : Nat
  fixedLen : Nat
  circuit : Circuit
  deriving DecidableEq

/-- What the handler leaves of the key. -/
def VerificationKey.update (vk : VerificationKey) (data : UpdateCircuitVkData) :
    VerificationKey where
  alpha := data.alpha.getD vk.alpha
  beta := data.beta.getD vk.beta
  gamma := data.gamma.getD vk.gamma
  delta := data.delta.getD vk.delta
  ic :=
    match data.ic with
    | none => vk.ic
    | some ic => if data.extendIc then vk.ic ++ ic else ic

/-- IC points that the account has room for. -/
def CircuitAccount.Fits (acc : CircuitAccount) (n : Nat) : Prop :=
  acc.fixedLen + n * 64 ≤ acc.space

end Albus.Program
