import Mathlib.Algebra.Group.Basic
import Mathlib.Algebra.BigOperators.Group.List.Basic
import Mathlib.Tactic.Abel

/-! # Bilinear pairings

    A map of two additive groups into a multiplicative one that is additive in
    each argument, and how an equation of pairings turns into a product that is
    one. -/

namespace Albus.Lib

/-- A pairing additive in both arguments. -/
structure BilinearPairing (G₁ G₂ GT : Type*) [AddCommGroup G₁] [AddCommGroup G₂]
    [CommGroup GT] where
  toFun : G₁ → G₂ → GT
  add_left : ∀ P P' Q, toFun (P + P') Q = toFun P Q * toFun P' Q
  add_right : ∀ P Q Q', toFun P (Q + Q') = toFun P Q * toFun P Q'

namespace BilinearPairing

variable {G₁ G₂ GT : Type*} [AddCommGroup G₁] [AddCommGroup G₂] [CommGroup GT]

instance : CoeFun (BilinearPairing G₁ G₂ GT) fun _ => G₁ → G₂ → GT := ⟨toFun⟩

variable (e : BilinearPairing G₁ G₂ GT)

@[simp] theorem zero_left (Q : G₂) : e 0 Q = 1 := by
  have h := e.add_left 0 0 Q
  rw [add_zero] at h
  exact left_eq_mul.mp h

@[simp] theorem neg_left (P : G₁) (Q : G₂) : e (-P) Q = (e P Q)⁻¹ := by
  have h := e.add_left (-P) P Q
  rw [neg_add_cancel, zero_left] at h
  exact eq_inv_of_mul_eq_one_left h.symm

/-- The product of the pairings of a list of pairs. -/
def prod (pairs : List (G₁ × G₂)) : GT := (pairs.map fun p => e p.1 p.2).prod

/-- **AN EQUATION OF PAIRINGS AS A PRODUCT**: the left side moves over by negating its
    first argument. -/
theorem prod_eq_one_iff (A : G₁) (B : G₂) (pairs : List (G₁ × G₂)) :
    e.prod ((-A, B) :: pairs) = 1 ↔ e A B = e.prod pairs := by
  rw [prod, List.map_cons, List.prod_cons, neg_left, prod, inv_mul_eq_one]

/-- The pairing that is one everywhere. -/
def trivial (G₁ G₂ GT : Type*) [AddCommGroup G₁] [AddCommGroup G₂] [CommGroup GT] :
    BilinearPairing G₁ G₂ GT where
  toFun _ _ := 1
  add_left _ _ _ := (one_mul 1).symm
  add_right _ _ _ := (one_mul 1).symm

end BilinearPairing

end Albus.Lib
