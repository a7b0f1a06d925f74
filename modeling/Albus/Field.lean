import Mathlib.Data.ZMod.Basic
import Mathlib.Tactic.NormNum

/-! # The field of the proofs

    The order of the BN254 groups.  It is the modulus of the circuits' signals,
    of the verifier's scalars and of the hashes of the off-chain trees. -/

namespace Albus

/-- Order of the BN254 groups. -/
def bn254r : Nat :=
  21888242871839275222246405745257275088548364400416034343698204186575808495617

instance : NeZero bn254r := ⟨by decide⟩

instance : Fact (1 < bn254r) := ⟨by decide⟩

/-- A signal's value. -/
abbrev F := ZMod bn254r

theorem two_pow_252_lt : 2 ^ 252 < bn254r := by decide

theorem bn254r_lt_two_pow : bn254r < 2 ^ 254 := by decide

end Albus
