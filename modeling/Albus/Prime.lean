import Albus.Field
import Albus.Lib.Primality
import Mathlib.Tactic.NormNum.Prime

/-! # The modulus is prime -/

namespace Albus

open Albus.Lib

/-- The primes a trial division settles. -/
def smallPrimes : List ℕ :=
  [2, 3, 5, 7, 11, 13, 29, 83, 107, 229, 379, 661, 823, 853, 983, 1637, 3691, 4999,
    11003, 93001, 237073, 1593227]

/-- The large primes below the modulus, and the modulus. -/
def primeTable : List Lucas :=
  [⟨639533339, 2, [(2, 1), (229, 1), (853, 1), (1637, 1)]⟩,
    ⟨65865678001877903, 5, [(2, 1), (83, 1), (379, 1), (1637, 1), (639533339, 1)]⟩,
    ⟨13818364434197438864469338081, 3,
      [(2, 5), (5, 1), (823, 1), (1593227, 1), (65865678001877903, 1)]⟩,
    ⟨12048837557, 2, [(2, 2), (7, 2), (661, 1), (93001, 1)]⟩,
    ⟨5156902474397, 2, [(2, 2), (107, 1), (12048837557, 1)]⟩,
    ⟨1670836401704629, 2, [(2, 2), (3, 4), (5156902474397, 1)]⟩,
    ⟨405928799, 22, [(2, 1), (11, 1), (3691, 1), (4999, 1)]⟩,
    ⟨bn254r, 5, [(2, 28), (3, 2), (13, 1), (29, 1), (983, 1), (11003, 1), (237073, 1),
      (405928799, 1), (1670836401704629, 1), (13818364434197438864469338081, 1)]⟩]

theorem prime_of_small : ∀ q ∈ smallPrimes, q.Prime := by
  simp only [smallPrimes, List.forall_mem_cons]
  norm_num

/-- **THE MODULUS IS PRIME.** -/
theorem bn254r_prime : bn254r.Prime := by
  have hchecked : Lucas.Checked 32 smallPrimes primeTable := by
    decide +kernel
  exact Lucas.prime_of_checked hchecked prime_of_small
    ⟨bn254r, 5, _⟩ (List.getLast_mem (List.cons_ne_nil _ _))

instance : Fact bn254r.Prime := ⟨bn254r_prime⟩

end Albus
