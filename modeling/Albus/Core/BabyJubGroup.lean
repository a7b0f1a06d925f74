import Albus.Core.BabyJub
import Albus.Lib.Edwards
import Mathlib.NumberTheory.LegendreSymbol.Basic

/-! # The group of the curve

    The curve of `babyjub.ts` is complete: `A` is a square and `D` is none.  So
    `addPoint` never divides by zero on the curve and is the addition of a group,
    `mulPointEscalar` is its multiple, and `Base8` has the order `subOrder`. -/

namespace Albus.Core.BabyJub

open Albus.Lib

/-- A root of `A`. -/
def rootA : ℕ :=
  7214280148105020021932206872019688659210616427216992810330019057549499971851

def order : ℕ :=
  21888242871839275222246405745257275088614511777268538073601725287587578984328

def subOrder : ℕ := order >>> 3

theorem D_not_square : ¬ IsSquare ((D : ℕ) : F) := by
  intro hsquare
  have hne : ((D : ℕ) : F) ≠ 0 := by
    intro hzero
    have hval := congrArg ZMod.val hzero
    rw [ZMod.val_cast_of_lt (by decide), ZMod.val_zero] at hval
    exact absurd hval (by decide)
  have hone := (ZMod.euler_criterion bn254r hne).mp hsquare
  rw [← natCast_powMod (show bn254r / 2 < 256 ^ 32 by decide +kernel)] at hone
  have hval := congrArg ZMod.val hone
  rw [ZMod.val_natCast, ZMod.val_one] at hval
  exact absurd hval (by decide +kernel)

theorem two_ne_zero_F : (2 : F) ≠ 0 := by
  intro hzero
  have hval := congrArg ZMod.val hzero
  rw [show (2 : F) = ((2 : ℕ) : F) from rfl, ZMod.val_cast_of_lt (by decide),
    ZMod.val_zero] at hval
  exact absurd hval (by decide)

/-- The curve. -/
def curve : EdwardsCurve F where
  a := (A : ℕ)
  d := (D : ℕ)
  s := (rootA : ℕ)
  s_ne_zero := by
    intro hzero
    have hval := congrArg ZMod.val hzero
    rw [ZMod.val_cast_of_lt (by decide), ZMod.val_zero] at hval
    exact absurd hval (by decide)
  s_mul_self := by
    rw [← Nat.cast_mul, ZMod.natCast_eq_natCast_iff']
    decide
  d_not_square := D_not_square
  two_ne_zero := two_ne_zero_F

/-- The coordinates that the functions work on. -/
def coords (P : curve.Point) : ℕ × ℕ := (P.x.val, P.y.val)

theorem mul_A (x : F) : F1Field.mul A x.val = ((A : F) * x).val := by
  rw [← F1Field.mul_val, ZMod.val_cast_of_lt (by decide : A < bn254r)]

theorem mul_D (x : F) : F1Field.mul D x.val = ((D : F) * x).val := by
  rw [← F1Field.mul_val, ZMod.val_cast_of_lt (by decide : D < bn254r)]

theorem on_iff (x y : F) : inCurve (x.val, y.val) = true ↔ curve.On x y := by
  rw [inCurve_val]
  show _ ↔ (A : F) * (x * x) + y * y = 1 + (D : F) * (x * x) * (y * y)
  rw [mul_comm (x * x * (y * y)) (D : F), mul_assoc (D : F)]

theorem inCurve_coords (P : curve.Point) : inCurve (coords P) = true :=
  (on_iff P.x P.y).mpr P.on

/-- Canonical coordinates on the curve are those of a point. -/
theorem exists_coords {P : ℕ × ℕ} (hx : P.1 < bn254r) (hy : P.2 < bn254r)
    (h : inCurve P = true) : ∃ Q, coords Q = P := by
  have hvalx : (P.1 : F).val = P.1 := ZMod.val_cast_of_lt hx
  have hvaly : (P.2 : F).val = P.2 := ZMod.val_cast_of_lt hy
  have hon : inCurve ((P.1 : F).val, (P.2 : F).val) = true := by
    rw [hvalx, hvaly]
    exact h
  exact ⟨⟨P.1, P.2, (on_iff _ _).mp hon⟩, Prod.ext hvalx hvaly⟩

/-- **`addPoint` IS THE ADDITION.** -/
theorem addPoint_coords (P Q : curve.Point) :
    addPoint (coords P) (coords Q) = .ok (coords (P + Q)) := by
  have hp := EdwardsCurve.den_add_ne_zero P.on Q.on
  have hm := EdwardsCurve.den_sub_ne_zero P.on Q.on
  have hd : curve.d = (D : F) := rfl
  rw [hd] at hp hm
  have htau : (D : F) * (P.x * Q.y * (P.y * Q.x)) = (D : F) * (P.x * Q.x * P.y * Q.y) := by
    ring
  have hone : (1 : ℕ) = (1 : F).val := (ZMod.val_one _).symm
  rw [addPoint, coords, coords]
  simp only [mul_A, mul_D, F1Field.mul_val, F1Field.add_val, F1Field.sub_val, htau]
  rw [hone, F1Field.add_val, F1Field.sub_val, F1Field.div_val _ hp, F1Field.div_val _ hm]
  have hnum : (P.y - (A : F) * P.x) * (Q.x + Q.y) + ((A : F) * (P.x * Q.y) - P.y * Q.x)
      = P.y * Q.y - (A : F) * (P.x * Q.x) := by
    ring
  rw [hnum]
  rfl

/-- **`mulPointEscalar` IS THE MULTIPLE.**  The loop keeps `res + rem * exp`. -/
theorem mulPointLoop_coords (R Q : curve.Point) (rem : ℕ) :
    mulPointLoop (coords R) (coords Q) rem = .ok (coords (R + rem • Q)) := by
  induction rem using Nat.strong_induction_on generalizing R Q with
  | _ rem ih =>
      rw [mulPointLoop]
      by_cases hzero : rem = 0
      · rw [if_pos hzero, hzero, zero_smul, add_zero]
      · have hlt : rem / 2 < rem := Nat.div_lt_self (Nat.pos_of_ne_zero hzero) (by omega)
        have hsplit : rem • Q = (rem % 2) • Q + (rem / 2) • (Q + Q) := by
          rw [← two_nsmul, ← mul_nsmul, ← add_nsmul]
          congr 1
          omega
        rw [if_neg hzero, addPoint_coords]
        rcases Nat.mod_two_eq_zero_or_one rem with hbit | hbit
        · rw [if_neg (by omega)]
          show mulPointLoop (coords R) (coords (Q + Q)) (rem / 2) = _
          rw [ih _ hlt, hsplit, hbit, zero_nsmul, zero_add]
        · rw [if_pos hbit, addPoint_coords]
          show mulPointLoop (coords (R + Q)) (coords (Q + Q)) (rem / 2) = _
          rw [ih _ hlt, hsplit, hbit, one_nsmul, add_assoc]

theorem coords_zero : coords 0 = (0, 1) :=
  Prod.ext (ZMod.val_zero (n := bn254r)) (ZMod.val_one bn254r)

theorem mulPointEscalar_coords (P : curve.Point) (e : ℕ) :
    mulPointEscalar (coords P) e = .ok (coords (e • P)) := by
  rw [mulPointEscalar, ← coords_zero, mulPointLoop_coords, zero_add]

/-! ## The base point -/

/-- `Base8` as a point. -/
def base8 : curve.Point where
  x := (Base8.1 : ℕ)
  y := (Base8.2 : ℕ)
  on := by
    rw [← on_iff, ZMod.val_cast_of_lt (by decide), ZMod.val_cast_of_lt (by decide)]
    decide

theorem coords_base8 : coords base8 = Base8 :=
  Prod.ext (ZMod.val_cast_of_lt (n := bn254r) (a := Base8.1) (by decide))
    (ZMod.val_cast_of_lt (n := bn254r) (a := Base8.2) (by decide))

/-- The addition of projective coordinates. -/
def projAdd (p q : ℕ × ℕ × ℕ) : ℕ × ℕ × ℕ :=
  let z := F1Field.mul p.2.2 q.2.2
  let c := F1Field.mul p.1 q.1
  let d := F1Field.mul p.2.1 q.2.1
  let b := F1Field.mul z z
  let e := F1Field.mul (F1Field.mul D c) d
  let f := F1Field.sub b e
  let g := F1Field.add b e
  (F1Field.mul (F1Field.mul z f)
      (F1Field.add (F1Field.mul p.1 q.2.1) (F1Field.mul p.2.1 q.1)),
    F1Field.mul (F1Field.mul z g) (F1Field.sub d (F1Field.mul A c)), F1Field.mul f g)

/-- `n` multiples, one bit after another; `fuel` bounds the bits. -/
def projMul : ℕ → ℕ × ℕ × ℕ → ℕ × ℕ × ℕ → ℕ → ℕ × ℕ × ℕ
  | 0, res, _, _ => res
  | fuel + 1, res, exp, n =>
    projMul fuel (if n % 2 = 1 then projAdd res exp else res) (projAdd exp exp) (n / 2)

/-- The projective coordinates denote the point. -/
def Denotes (t : ℕ × ℕ × ℕ) (P : curve.Point) : Prop :=
  ∃ X Y Z : F, t = (X.val, Y.val, Z.val) ∧ EdwardsCurve.Point.Rep P X Y Z

theorem Denotes.add {t u : ℕ × ℕ × ℕ} {P Q : curve.Point} (ht : Denotes t P)
    (hu : Denotes u Q) : Denotes (projAdd t u) (P + Q) := by
  obtain ⟨X₁, Y₁, Z₁, rfl, h₁⟩ := ht
  obtain ⟨X₂, Y₂, Z₂, rfl, h₂⟩ := hu
  refine ⟨_, _, _, ?_, h₁.add h₂ rfl rfl⟩
  simp only [projAdd, mul_D, mul_A, F1Field.mul_val, F1Field.add_val, F1Field.sub_val]
  rfl

theorem Denotes.mul {fuel n : ℕ} {t u : ℕ × ℕ × ℕ} {P Q : curve.Point} (ht : Denotes t P)
    (hu : Denotes u Q) (hn : n < 2 ^ fuel) : Denotes (projMul fuel t u n) (P + n • Q) := by
  induction fuel generalizing n t u P Q with
  | zero =>
      have hzero : n = 0 := by omega
      rwa [projMul, hzero, zero_smul, add_zero]
  | succ fuel ih =>
      have hsplit : n • Q = (n % 2) • Q + (n / 2) • (Q + Q) := by
        rw [← two_nsmul, ← mul_nsmul, ← add_nsmul]
        congr 1
        omega
      rw [projMul, hsplit, ← add_assoc]
      refine ih ?_ (hu.add hu) (by omega)
      rcases Nat.mod_two_eq_zero_or_one n with hbit | hbit
      · rwa [if_neg (by omega), hbit, zero_nsmul, add_zero]
      · rw [if_pos hbit, hbit, one_nsmul]
        exact ht.add hu

theorem Denotes.eq_zero {t : ℕ × ℕ × ℕ} {P : curve.Point} (h : Denotes t P)
    (hx : t.1 = 0) (hy : t.2.1 = t.2.2) : P = 0 := by
  obtain ⟨X, Y, Z, rfl, hrep⟩ := h
  exact hrep.eq_zero ((ZMod.val_eq_zero X).mp hx) (ZMod.val_injective bn254r hy)

/-- **`subOrder` ANNIHILATES `Base8`.** -/
theorem subOrder_nsmul_base8 : subOrder • base8 = 0 := by
  have hstart : Denotes (0, 1, 1) (0 : curve.Point) :=
    ⟨0, 1, 1, by rw [ZMod.val_zero, ZMod.val_one], EdwardsCurve.Point.Rep.zero⟩
  have hbase : Denotes (Base8.1, Base8.2, 1) base8 := by
    refine ⟨base8.x, base8.y, 1, ?_, EdwardsCurve.Point.Rep.of_point base8⟩
    rw [ZMod.val_one, ← coords_base8]
    rfl
  have hmul := hstart.mul hbase (show subOrder < 2 ^ 252 by decide +kernel)
  rw [zero_add] at hmul
  exact hmul.eq_zero (by decide +kernel) (by decide +kernel)

end Albus.Core.BabyJub
