import Mathlib.Algebra.Group.Even
import Mathlib.Algebra.Group.Basic
import Mathlib.Tactic.FieldSimp
import Mathlib.Tactic.LinearCombination
import Mathlib.Tactic.Ring

/-! # Complete twisted Edwards curves

    `a * x ^ 2 + y ^ 2 = 1 + d * x ^ 2 * y ^ 2`, where `a` is a square and `d` is none.
    Then the denominators of the addition are never zero (`EdwardsCurve.den_ne_zero`), so
    one formula adds any two points, and the points are a commutative group.  The heart
    is associativity, a polynomial identity modulo the equations of three points. -/

namespace Albus.Lib

universe u

structure EdwardsCurve (K : Type u) [Field K] where
  a : K
  d : K
  /-- A root of `a`. -/
  s : K
  s_ne_zero : s ≠ 0
  s_mul_self : s * s = a
  d_not_square : ¬ IsSquare d
  two_ne_zero : (2 : K) ≠ 0

namespace EdwardsCurve

variable {K : Type u} [Field K] (E : EdwardsCurve K)

/-- The equation. -/
def On (x y : K) : Prop := E.a * (x * x) + y * y = 1 + E.d * (x * x) * (y * y)

def addX (x₁ y₁ x₂ y₂ : K) : K := (x₁ * y₂ + y₁ * x₂) / (1 + E.d * (x₁ * x₂ * y₁ * y₂))

def addY (x₁ y₁ x₂ y₂ : K) : K :=
  (y₁ * y₂ - E.a * (x₁ * x₂)) / (1 - E.d * (x₁ * x₂ * y₁ * y₂))

variable {E} {x₁ y₁ x₂ y₂ x₃ y₃ : K}

/-- **THE PRODUCT IS NEVER ONE NOR MINUS ONE**: else `d` would be a square. -/
theorem product_ne {e : K} (he : e * e = 1) (h₁ : E.On x₁ y₁) (h₂ : E.On x₂ y₂) :
    E.d * (x₁ * x₂ * y₁ * y₂) ≠ e := by
  intro hprod
  have hs := E.s_mul_self
  have hne : x₁ * y₁ ≠ 0 ∧ x₂ ≠ 0 := by
    refine ⟨?_, ?_⟩
    · intro hzero
      have : e = 0 := by linear_combination -hprod + E.d * x₂ * y₂ * hzero
      rw [this, mul_zero] at he
      exact zero_ne_one he
    · rintro rfl
      have : e = 0 := by linear_combination -hprod
      rw [this, mul_zero] at he
      exact zero_ne_one he
  -- `d` times a square is a square, with either sign of the second point
  have hsquare : ∀ t : K, t * t = 1 →
      E.d * ((x₁ * y₁ * (E.s * x₂ + t * y₂)) * (x₁ * y₁ * (E.s * x₂ + t * y₂)))
        = (E.s * x₁ + t * e * y₁) * (E.s * x₁ + t * e * y₁) := by
    intro t ht
    rw [On] at h₁ h₂
    have hcurve : E.d * (x₁ * x₁) * (y₁ * y₁) * (E.a * (x₂ * x₂) + y₂ * y₂)
        = E.a * (x₁ * x₁) + y₁ * y₁ := by
      linear_combination E.d * (x₁ * x₁) * (y₁ * y₁) * h₂ - h₁
        + (E.d * (x₁ * x₂ * y₁ * y₂) + e) * hprod + he
    linear_combination hcurve + (E.d * x₁ ^ 2 * y₁ ^ 2 * x₂ ^ 2 - x₁ ^ 2) * hs
      + (E.d * x₁ ^ 2 * y₁ ^ 2 * y₂ ^ 2 - e * e * y₁ ^ 2) * ht - y₁ ^ 2 * he
      + 2 * E.s * t * x₁ * y₁ * hprod
  have hfactor : ∀ t : K, t * t = 1 → E.s * x₂ + t * y₂ = 0 := by
    intro t ht
    by_contra hnonzero
    refine E.d_not_square ⟨(E.s * x₁ + t * e * y₁) / (x₁ * y₁ * (E.s * x₂ + t * y₂)), ?_⟩
    rw [div_mul_div_comm, ← hsquare t ht, mul_div_assoc,
      div_self (mul_self_ne_zero.mpr (mul_ne_zero hne.1 hnonzero)), mul_one]
  have hdouble : 2 * (E.s * x₂) = 0 := by
    linear_combination hfactor 1 (one_mul 1) + hfactor (-1) (by ring)
  exact mul_ne_zero E.two_ne_zero (mul_ne_zero E.s_ne_zero hne.2) hdouble

theorem den_add_ne_zero (h₁ : E.On x₁ y₁) (h₂ : E.On x₂ y₂) :
    1 + E.d * (x₁ * x₂ * y₁ * y₂) ≠ 0 := by
  intro hzero
  exact product_ne (e := -1) (by ring) h₁ h₂ (by linear_combination hzero)

theorem den_sub_ne_zero (h₁ : E.On x₁ y₁) (h₂ : E.On x₂ y₂) :
    1 - E.d * (x₁ * x₂ * y₁ * y₂) ≠ 0 := by
  intro hzero
  exact product_ne (e := 1) (by ring) h₁ h₂ (by linear_combination -hzero)

/-- The equation of a point of fractions, without the fractions. -/
theorem on_div {x y p m : K} (hp : p ≠ 0) (hm : m ≠ 0)
    (h : E.a * (x * x) * (m * m) + y * y * (p * p)
      = p * p * (m * m) + E.d * (x * x) * (y * y)) : E.On (x / p) (y / m) := by
  rw [On]
  field_simp
  linear_combination h

/-- **THE SUM IS ON THE CURVE.** -/
theorem on_add (h₁ : E.On x₁ y₁) (h₂ : E.On x₂ y₂) :
    E.On (E.addX x₁ y₁ x₂ y₂) (E.addY x₁ y₁ x₂ y₂) := by
  refine on_div (den_add_ne_zero h₁ h₂) (den_sub_ne_zero h₁ h₂) ?_
  rw [On] at h₁ h₂
  grind

theorem on_zero : E.On 0 1 := by
  rw [On]
  ring

theorem on_neg (h : E.On x₁ y₁) : E.On (-x₁) y₁ := by
  rw [On] at h ⊢
  linear_combination h

/-- The denominator of the abscissa is never zero: else `d` would be a square. -/
theorem den_abscissa_ne_zero (y : K) : E.a - E.d * (y * y) ≠ 0 := by
  intro hzero
  have hs := E.s_mul_self
  have hy : y ≠ 0 := by
    rintro rfl
    exact mul_self_ne_zero.mpr E.s_ne_zero (by linear_combination hs + hzero)
  refine E.d_not_square ⟨E.s / y, ?_⟩
  rw [div_mul_div_comm, eq_div_iff (mul_self_ne_zero.mpr hy)]
  linear_combination -hzero - hs

/-- **THE ORDINATE GIVES THE SQUARE OF THE ABSCISSA.** -/
theorem on_iff_abscissa {x y : K} :
    E.On x y ↔ x * x = (1 - y * y) / (E.a - E.d * (y * y)) := by
  rw [eq_div_iff (den_abscissa_ne_zero y), On]
  constructor
  · intro h
    linear_combination h
  · intro h
    linear_combination h

/-! ## Associativity

    Without fractions it is an identity of polynomials in the six coordinates, modulo
    the equations of the three points. -/

theorem assoc_poly_x {a d x₁ y₁ x₂ y₂ x₃ y₃ : K}
    (h₁ : a * (x₁ * x₁) + y₁ * y₁ = 1 + d * (x₁ * x₁) * (y₁ * y₁))
    (h₂ : a * (x₂ * x₂) + y₂ * y₂ = 1 + d * (x₂ * x₂) * (y₂ * y₂))
    (h₃ : a * (x₃ * x₃) + y₃ * y₃ = 1 + d * (x₃ * x₃) * (y₃ * y₃)) :
    ((x₁ * y₂ + y₁ * x₂) * (1 - d * (x₁ * x₂ * y₁ * y₂)) * y₃
        + (y₁ * y₂ - a * (x₁ * x₂)) * (1 + d * (x₁ * x₂ * y₁ * y₂)) * x₃)
      * ((1 + d * (x₂ * x₃ * y₂ * y₃)) * (1 - d * (x₂ * x₃ * y₂ * y₃))
        + d * (x₁ * (x₂ * y₃ + y₂ * x₃) * y₁ * (y₂ * y₃ - a * (x₂ * x₃))))
    = (x₁ * (y₂ * y₃ - a * (x₂ * x₃)) * (1 + d * (x₂ * x₃ * y₂ * y₃))
        + y₁ * (x₂ * y₃ + y₂ * x₃) * (1 - d * (x₂ * x₃ * y₂ * y₃)))
      * ((1 + d * (x₁ * x₂ * y₁ * y₂)) * (1 - d * (x₁ * x₂ * y₁ * y₂))
        + d * ((x₁ * y₂ + y₁ * x₂) * x₃ * (y₁ * y₂ - a * (x₁ * x₂)) * y₃)) := by
  grind

theorem assoc_poly_y {a d x₁ y₁ x₂ y₂ x₃ y₃ : K}
    (h₁ : a * (x₁ * x₁) + y₁ * y₁ = 1 + d * (x₁ * x₁) * (y₁ * y₁))
    (h₂ : a * (x₂ * x₂) + y₂ * y₂ = 1 + d * (x₂ * x₂) * (y₂ * y₂))
    (h₃ : a * (x₃ * x₃) + y₃ * y₃ = 1 + d * (x₃ * x₃) * (y₃ * y₃)) :
    ((y₁ * y₂ - a * (x₁ * x₂)) * (1 + d * (x₁ * x₂ * y₁ * y₂)) * y₃
        - a * ((x₁ * y₂ + y₁ * x₂) * (1 - d * (x₁ * x₂ * y₁ * y₂)) * x₃))
      * ((1 + d * (x₂ * x₃ * y₂ * y₃)) * (1 - d * (x₂ * x₃ * y₂ * y₃))
        - d * (x₁ * (x₂ * y₃ + y₂ * x₃) * y₁ * (y₂ * y₃ - a * (x₂ * x₃))))
    = (y₁ * (y₂ * y₃ - a * (x₂ * x₃)) * (1 + d * (x₂ * x₃ * y₂ * y₃))
        - a * (x₁ * (x₂ * y₃ + y₂ * x₃) * (1 - d * (x₂ * x₃ * y₂ * y₃))))
      * ((1 + d * (x₁ * x₂ * y₁ * y₂)) * (1 - d * (x₁ * x₂ * y₁ * y₂))
        - d * ((x₁ * y₂ + y₁ * x₂) * x₃ * (y₁ * y₂ - a * (x₁ * x₂)) * y₃)) := by
  grind

/-- The first coordinates of the two sums of three. -/
theorem assoc_x {d X Y X' Y' p m p' m' x₁ y₁ x₃ y₃ : K} (hp : p ≠ 0) (hm : m ≠ 0)
    (hp' : p' ≠ 0) (hm' : m' ≠ 0)
    (h : (X * m * y₃ + Y * p * x₃) * (p' * m' + d * (x₁ * X' * y₁ * Y'))
      = (x₁ * Y' * p' + y₁ * X' * m') * (p * m + d * (X * x₃ * Y * y₃))) :
    (X / p * y₃ + Y / m * x₃) * (1 + d * (x₁ * (X' / p') * y₁ * (Y' / m')))
      = (x₁ * (Y' / m') + y₁ * (X' / p')) * (1 + d * (X / p * x₃ * (Y / m) * y₃)) := by
  field_simp
  linear_combination h

/-- The second coordinates. -/
theorem assoc_y {a d X Y X' Y' p m p' m' x₁ y₁ x₃ y₃ : K} (hp : p ≠ 0) (hm : m ≠ 0)
    (hp' : p' ≠ 0) (hm' : m' ≠ 0)
    (h : (Y * p * y₃ - a * (X * m * x₃)) * (p' * m' - d * (x₁ * X' * y₁ * Y'))
      = (y₁ * Y' * p' - a * (x₁ * X' * m')) * (p * m - d * (X * x₃ * Y * y₃))) :
    (Y / m * y₃ - a * (X / p * x₃)) * (1 - d * (x₁ * (X' / p') * y₁ * (Y' / m')))
      = (y₁ * (Y' / m') - a * (x₁ * (X' / p'))) * (1 - d * (X / p * x₃ * (Y / m) * y₃)) := by
  field_simp
  linear_combination h

/-! ## The group -/

/-- The points. -/
@[ext] structure Point (E : EdwardsCurve K) where
  x : K
  y : K
  on : E.On x y

namespace Point

noncomputable section

instance : Zero E.Point := ⟨⟨0, 1, on_zero⟩⟩

instance : Neg E.Point := ⟨fun P => ⟨-P.x, P.y, on_neg P.on⟩⟩

instance : Add E.Point := ⟨fun P Q =>
  ⟨E.addX P.x P.y Q.x Q.y, E.addY P.x P.y Q.x Q.y, on_add P.on Q.on⟩⟩

theorem zero_x : (0 : E.Point).x = 0 := rfl

theorem zero_y : (0 : E.Point).y = 1 := rfl

theorem add_x (P Q : E.Point) :
    (P + Q).x = (P.x * Q.y + P.y * Q.x) / (1 + E.d * (P.x * Q.x * P.y * Q.y)) := rfl

theorem add_y (P Q : E.Point) :
    (P + Q).y = (P.y * Q.y - E.a * (P.x * Q.x)) / (1 - E.d * (P.x * Q.x * P.y * Q.y)) := rfl

protected theorem add_comm (P Q : E.Point) : P + Q = Q + P := by
  ext
  · rw [add_x, add_x]
    ring
  · rw [add_y, add_y]
    ring

protected theorem zero_add (P : E.Point) : 0 + P = P := by
  ext
  · rw [add_x, zero_x, zero_y]
    ring
  · rw [add_y, zero_x, zero_y]
    ring

protected theorem neg_add_cancel (P : E.Point) : -P + P = 0 := by
  have hon := P.on
  have hp := den_add_ne_zero (on_neg hon) hon
  have hm := den_sub_ne_zero (on_neg hon) hon
  ext
  · show (-P.x * P.y + P.y * P.x) / _ = 0
    rw [show -P.x * P.y + P.y * P.x = 0 by ring, zero_div]
  · show (P.y * P.y - E.a * (-P.x * P.x)) / (1 - E.d * (-P.x * P.x * P.y * P.y)) = 1
    rw [div_eq_one_iff_eq hm]
    rw [On] at hon
    linear_combination hon

/-- **ASSOCIATIVITY.** -/
protected theorem add_assoc (P Q R : E.Point) : P + Q + R = P + (Q + R) := by
  have hPQ₁ := den_add_ne_zero P.on Q.on
  have hPQ₂ := den_sub_ne_zero P.on Q.on
  have hQR₁ := den_add_ne_zero Q.on R.on
  have hQR₂ := den_sub_ne_zero Q.on R.on
  have h₁ := P.on
  have h₂ := Q.on
  have h₃ := R.on
  ext
  · rw [add_x (P + Q) R, add_x P (Q + R),
      div_eq_div_iff (den_add_ne_zero (P + Q).on R.on) (den_add_ne_zero P.on (Q + R).on)]
    exact assoc_x hPQ₁ hPQ₂ hQR₁ hQR₂ (assoc_poly_x h₁ h₂ h₃)
  · rw [add_y (P + Q) R, add_y P (Q + R),
      div_eq_div_iff (den_sub_ne_zero (P + Q).on R.on) (den_sub_ne_zero P.on (Q + R).on)]
    exact assoc_y hPQ₁ hPQ₂ hQR₁ hQR₂ (assoc_poly_y h₁ h₂ h₃)

instance : AddCommGroup E.Point where
  add_assoc := Point.add_assoc
  zero_add := Point.zero_add
  add_zero P := by rw [Point.add_comm, Point.zero_add]
  neg_add_cancel := Point.neg_add_cancel
  add_comm := Point.add_comm
  nsmul := nsmulRec
  zsmul := zsmulRec

end

/-! ## Projective coordinates

    Without divisions, to evaluate multiples. -/

/-- `(X : Y : Z)` denotes the point. -/
structure Rep (P : E.Point) (X Y Z : K) : Prop where
  ne_zero : Z ≠ 0
  x : X = P.x * Z
  y : Y = P.y * Z

theorem Rep.zero : Rep (0 : E.Point) 0 1 1 := ⟨one_ne_zero, by rw [zero_x, zero_mul],
  by rw [zero_y, one_mul]⟩

theorem Rep.of_point (P : E.Point) : Rep P P.x P.y 1 :=
  ⟨one_ne_zero, (mul_one _).symm, (mul_one _).symm⟩

/-- **ADDITION WITHOUT DIVISION.** -/
theorem Rep.add {P Q : E.Point} {X₁ Y₁ Z₁ X₂ Y₂ Z₂ : K} (h₁ : Rep P X₁ Y₁ Z₁)
    (h₂ : Rep Q X₂ Y₂ Z₂) {B e : K} (hB : B = Z₁ * Z₂ * (Z₁ * Z₂))
    (he : e = E.d * (X₁ * X₂) * (Y₁ * Y₂)) :
    Rep (P + Q) (Z₁ * Z₂ * (B - e) * (X₁ * Y₂ + Y₁ * X₂))
      (Z₁ * Z₂ * (B + e) * (Y₁ * Y₂ - E.a * (X₁ * X₂))) ((B - e) * (B + e)) := by
  obtain ⟨hZ₁, rfl, rfl⟩ := h₁
  obtain ⟨hZ₂, rfl, rfl⟩ := h₂
  have hp := den_add_ne_zero P.on Q.on
  have hm := den_sub_ne_zero P.on Q.on
  have hplus : B + e = Z₁ * Z₂ * (Z₁ * Z₂) * (1 + E.d * (P.x * Q.x * P.y * Q.y)) := by
    rw [hB, he]
    ring
  have hminus : B - e = Z₁ * Z₂ * (Z₁ * Z₂) * (1 - E.d * (P.x * Q.x * P.y * Q.y)) := by
    rw [hB, he]
    ring
  have hZ : Z₁ * Z₂ * (Z₁ * Z₂) ≠ 0 :=
    mul_ne_zero (mul_ne_zero hZ₁ hZ₂) (mul_ne_zero hZ₁ hZ₂)
  have hx : (P + Q).x * (1 + E.d * (P.x * Q.x * P.y * Q.y)) = P.x * Q.y + P.y * Q.x :=
    div_mul_cancel₀ _ hp
  have hy : (P + Q).y * (1 - E.d * (P.x * Q.x * P.y * Q.y)) = P.y * Q.y - E.a * (P.x * Q.x) :=
    div_mul_cancel₀ _ hm
  refine ⟨?_, ?_, ?_⟩
  · rw [hplus, hminus]
    exact mul_ne_zero (mul_ne_zero hZ hm) (mul_ne_zero hZ hp)
  · rw [hplus]
    linear_combination -(B - e) * (Z₁ * Z₂ * (Z₁ * Z₂)) * hx
  · rw [hminus]
    linear_combination -(B + e) * (Z₁ * Z₂ * (Z₁ * Z₂)) * hy

/-- The identity is where `X` is zero and `Y` is `Z`. -/
theorem Rep.eq_zero {P : E.Point} {X Y Z : K} (h : Rep P X Y Z) (hX : X = 0) (hY : Y = Z) :
    P = 0 := by
  ext
  · exact (mul_eq_zero.mp (h.x.symm.trans hX)).resolve_right h.ne_zero
  · refine mul_right_cancel₀ h.ne_zero ?_
    rw [← h.y, hY, zero_y, one_mul]

end Point

end EdwardsCurve

end Albus.Lib
