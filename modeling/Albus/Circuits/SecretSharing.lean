import Albus.Circuits.Encryption
import Albus.Core.Shamir

/-! # Sharing and reconstructing a secret

    The circuit deals the values of a polynomial at `1`, …, `n`; the client
    interpolates at zero.  Any `k` of the shares give the secret back, in any
    order (`shamir_round_trip`). -/

namespace Albus.Circuits

open Albus.Lib Albus.Core

namespace ShamirSecretSharing

variable {lib : Circomlib} {n k : ℕ} {secret salt : F} {s : Signals}

/-- Share `i` is the value at `i`. -/
theorem Constraints.share_value (h : Constraints lib n k secret salt s) (hk : 1 ≤ k) {i : ℕ}
    (hone : 1 ≤ i) (hle : i ≤ n) :
    s.shares (i - 1) = ∑ j ∈ Finset.range k, coef secret s j * (i : F) ^ j := by
  rw [h.polynomial.eval hk (by omega), ← Nat.cast_add_one, Nat.sub_add_cancel hone]

/-- Fragments that the circuit dealt give the secret. -/
theorem reconstruct_dealt (h : Constraints lib n k secret salt s) (hk : 1 ≤ k)
    (hn : n < bn254r) {shares : List (ℕ × ℕ)} (hnodup : (shares.map Prod.fst).Nodup)
    (hdealt : ∀ p ∈ shares, 1 ≤ p.1 ∧ p.1 ≤ n ∧ p.2 = (s.shares (p.1 - 1)).val)
    (hlen : k ≤ shares.length) : reconstructShamirSecret k shares = .ok secret.val := by
  have hlt : ∀ p ∈ shares, p.1 < bn254r := by
    intro p hp
    obtain ⟨-, hle, -⟩ := hdealt p hp
    exact Nat.lt_of_le_of_lt hle hn
  refine reconstruct_points (coef secret s) hk hlen hnodup hlt ?_
  intro p hp
  obtain ⟨hone, hle, hvalue⟩ := hdealt p hp
  rw [hvalue, ZMod.natCast_zmod_val]
  exact h.share_value hk hone hle

/-- **ANY `k` SHARES GIVE THE SECRET BACK**, in any order. -/
theorem shamir_round_trip (h : Constraints lib n k secret salt s) (hk : 1 ≤ k)
    (hn : n < bn254r) {indices : List ℕ} (hnodup : indices.Nodup)
    (hrange : ∀ i ∈ indices, 1 ≤ i ∧ i ≤ n) (hlen : k ≤ indices.length) :
    reconstructShamirSecret k (indices.map fun i => (i, (s.shares (i - 1)).val))
      = .ok secret.val := by
  refine reconstruct_dealt h hk hn ?_ ?_ ?_
  · rw [List.map_map]
    exact (List.map_id indices).symm ▸ hnodup
  · intro p hp
    obtain ⟨i, hi, rfl⟩ := List.mem_map.mp hp
    obtain ⟨hone, hle⟩ := hrange i hi
    exact ⟨hone, hle, rfl⟩
  · rw [List.length_map]
    exact hlen

/-! ## Two of three -/

namespace Sample

/-- Poseidon of the salt 7, the position 0 and the secret 42. -/
def coefficient : F :=
  (18176796846923896777911578529336247091785572831708181173681450078496570424752 : ℕ)

def table : CryptoTable :=
  { CryptoTable.empty with poseidon := [([((7 : ℕ) : F), 0, ((42 : ℕ) : F)], coefficient)] }

def signals : Signals where
  coefGen _ := coefficient
  summingUp p i := if i = 0 then coefficient else coefficient * ((p : F) + 1) + (42 : ℕ)
  shares p := coefficient * ((p : F) + 1) + (42 : ℕ)

theorem constraints : Constraints (.reference table) 3 2 (42 : ℕ) (7 : ℕ) signals where
  parameterValidity := by
    show InRange 128 2 3 ∧ 1 = ofProp ((2 : F).val ≤ (3 : F).val)
    decide +kernel
  coefGen := by
    intro i hi
    obtain rfl : i = 0 := by omega
    exact List.mem_singleton.mpr (by rw [Nat.cast_zero]; rfl)
  polynomial :=
    { head := fun _ _ => rfl
      step := by
        intro p _ i hi hone
        obtain rfl : i = 1 := by omega
        rfl
      y := fun _ _ => rfl }

/-- The third share and the first. -/
theorem shamir_round_trip_sample :
    reconstructShamirSecret 2 ([3, 1].map fun i => (i, (signals.shares (i - 1)).val))
      = .ok ((42 : ℕ) : F).val :=
  shamir_round_trip constraints (by decide) (by decide) (by decide) (by decide) (by decide)

end Sample

end ShamirSecretSharing

end Albus.Circuits
