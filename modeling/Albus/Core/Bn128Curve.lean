import Albus.Lib.Pairing
import Albus.Lib.Primality
import Albus.Core.Zkp
import Mathlib.Algebra.QuadraticAlgebra.Basic
import Mathlib.AlgebraicGeometry.EllipticCurve.Affine.Point
import Mathlib.NumberTheory.LegendreSymbol.Basic
import Mathlib.Tactic.NormNum.Prime

/-! # The groups of BN128

    The two groups the proofs live in: the points of a curve over the prime
    field, and the subgroup of its twist over `Fp2` that one point generates.
    What the client computes is the negation; what is written down is
    coordinates. -/

namespace Albus.Core.Bn128

open Albus.Lib Zkp

/-! ## The prime field -/

/-- The primes a trial division settles. -/
def smallFactors : List ℕ :=
  [2, 3, 5, 7, 11, 13, 19, 29, 41, 67, 73, 89, 229, 311, 911, 983, 3557, 3691, 4999, 11003,
    13327, 327599, 1853641, 4562087]

/-- The large primes below the field's, and the field's. -/
def factorTable : List Lucas :=
  [⟨405928799, 22, [(2, 1), (11, 1), (3691, 1), (4999, 1)]⟩,
    ⟨11465965001, 3, [(2, 3), (5, 4), (7, 1), (327599, 1)]⟩,
    ⟨173171039, 13, [(2, 1), (73, 1), (89, 1), (13327, 1)]⟩,
    ⟨1263766531, 10, [(2, 1), (3, 1), (5, 1), (13, 1), (911, 1), (3557, 1)]⟩,
    ⟨35385462869, 2, [(2, 2), (7, 1), (1263766531, 1)]⟩,
    ⟨2480874801745591, 6, [(2, 1), (3, 2), (5, 1), (19, 1), (41, 1), (35385462869, 1)]⟩,
    ⟨13427688667394608761327070753331941386769, 17,
      [(2, 4), (3, 1), (7, 1), (11, 1), (1853641, 1), (4562087, 1), (173171039, 1),
        (2480874801745591, 1)]⟩,
    ⟨bn128PrimeField, 3,
      [(2, 1), (3, 2), (13, 1), (29, 1), (67, 1), (229, 1), (311, 1), (983, 1), (11003, 1),
        (405928799, 1), (11465965001, 1), (13427688667394608761327070753331941386769, 1)]⟩]

theorem prime_of_smallFactors : ∀ p ∈ smallFactors, p.Prime := by
  simp only [smallFactors, List.forall_mem_cons]
  norm_num

theorem bn128PrimeField_prime : bn128PrimeField.Prime := by
  have hchecked : Lucas.Checked 32 smallFactors factorTable := by
    decide +kernel
  exact Lucas.prime_of_checked hchecked prime_of_smallFactors
    ⟨bn128PrimeField, 3, _⟩ (List.getLast_mem (List.cons_ne_nil _ _))

instance : Fact bn128PrimeField.Prime := ⟨bn128PrimeField_prime⟩

abbrev Fq := ZMod bn128PrimeField

/-- The square of the imaginary unit is minus one, which has no root in `Fq`. -/
instance : Fact (∀ r : Fq, r ^ 2 ≠ -1 + 0 * r) where
  out r h := by
    have hsq : IsSquare (-1 : Fq) := ⟨r, by rw [← pow_two, h]; ring⟩
    exact ZMod.exists_sq_eq_neg_one_iff.mp hsq (by decide)

abbrev Fq2 := QuadraticAlgebra Fq (-1) 0

/-! ## The groups -/

/-- `y² = x³ + 3`. -/
def curve : WeierstrassCurve.Affine Fq := ⟨0, 0, 0, 0, 3⟩

/-- `3 / (9 + u)`. -/
def twistB : Fq2 :=
  ⟨19485874751759354771024239261021720505790618469301721065564631296452457478373,
    266929791119991161246907387137283842545076965332900288569378510910307636690⟩

/-- `y² = x³ + 3 / (9 + u)`. -/
def twist : WeierstrassCurve.Affine Fq2 := ⟨0, 0, 0, 0, twistB⟩

theorem twistB_eq : twistB * (9 + ⟨0, 1⟩) = 3 := by
  ext <;> decide +kernel

abbrev G1 := curve.Point

theorem curve_nonsingular {x y : Fq} (h : y ^ 2 = x ^ 3 + 3) (hy : 2 * y ≠ 0) :
    curve.Nonsingular x y := by
  rw [WeierstrassCurve.Affine.nonsingular_iff', WeierstrassCurve.Affine.equation_iff]
  simp only [curve]
  refine ⟨?_, Or.inr ?_⟩
  · rw [h]
    ring
  · simpa using hy

theorem twist_nonsingular {x y : Fq2} (h : y ^ 2 = x ^ 3 + twistB) (hy : 2 * y ≠ 0) :
    twist.Nonsingular x y := by
  rw [WeierstrassCurve.Affine.nonsingular_iff', WeierstrassCurve.Affine.equation_iff]
  simp only [twist]
  refine ⟨?_, Or.inr ?_⟩
  · rw [h]
    ring
  · simpa using hy

section Generator

-- the literal `2` with an instance that has a name
local instance atLeastTwo_two : Nat.AtLeastTwo 2 := ⟨le_rfl⟩

theorem nonsingular_one_two : curve.Nonsingular 1 2 :=
  curve_nonsingular (by decide +kernel) (by decide +kernel)

/-- The generator of the first group. -/
def P1 : G1 := .some 1 2 nonsingular_one_two

end Generator

def x2 : Fq2 :=
  ⟨10857046999023057135944570762232829481370756359578518086990519993285655852781,
    11559732032986387107991004021392285783925812861821192530917403151452391805634⟩

def y2 : Fq2 :=
  ⟨8495653923123431417604973247489272438418190587263600148770280649306958101930,
    4082367875863433681332203403145435568316851327593401208105741076214120093531⟩

/-- The generator of the second group. -/
def P2 : twist.Point :=
  .some x2 y2 (twist_nonsingular
    (by
      rw [pow_two, pow_succ, pow_two]
      ext <;> decide +kernel)
    (by
      intro h
      exact absurd (congrArg QuadraticAlgebra.re h) (by decide +kernel)))

/-- The second group is what its generator generates. -/
def G2 : AddSubgroup twist.Point := AddSubgroup.zmultiples P2

/-! ## Coordinates -/

/-- The layout of the syscalls; the point at infinity is all zero. -/
def encode1 : G1 → List UInt8
  | .zero => List.replicate 64 0
  | .some x y _ => g1Bytes x.val y.val

/-- The components of an `Fp2` coordinate. -/
def components (c : Fq2) : ℕ × ℕ := (c.re.val, c.im.val)

def encode2 : twist.Point → List UInt8
  | .zero => List.replicate 128 0
  | .some x y _ => g2Bytes (components x) (components y)

/-- The projective coordinates snarkjs writes. -/
def toObject1 : G1 → List ℤ
  | .zero => [0, 1, 0]
  | .some x y _ => [x.val, y.val, 1]

def toObject2 : twist.Point → List (ℤ × ℤ)
  | .zero => [(0, 0), (1, 0), (0, 0)]
  | .some x y _ => [(x.re.val, x.im.val), (y.re.val, y.im.val), (1, 0)]

theorem components_lt (c : Fq2) :
    (components c).1 < bn128PrimeField ∧ (components c).2 < bn128PrimeField :=
  ⟨c.re.val_lt, c.im.val_lt⟩

@[simp] theorem length_encode1 (P : G1) : (encode1 P).length = 64 := by
  cases P with
  | zero => simp [encode1]
  | some x y h => simp [encode1]

@[simp] theorem length_encode2 (Q : twist.Point) : (encode2 Q).length = 128 := by
  cases Q with
  | zero => simp [encode2]
  | some x y h => simp [encode2]

/-- **`encodeG1` WRITES A POINT** in the layout of the syscalls, the point at infinity
    apart. -/
theorem encodeG1_toObject1 {P : G1} (h : P ≠ 0) : encodeG1 (toObject1 P) = .ok (encode1 P) := by
  cases P with
  | zero => exact absurd rfl h
  | some x y hP => exact encodeG1_eq x.val_lt y.val_lt

theorem encodeG2_toObject2 {Q : twist.Point} (h : Q ≠ 0) :
    encodeG2 (toObject2 Q) = .ok (encode2 Q) := by
  cases Q with
  | zero => exact absurd rfl h
  | some x y hQ =>
      have henc := encodeG2_eq (x := components x) (y := components y) (components_lt x)
        (components_lt y)
      exact henc

/-- **`altBn128G1Neg` NEGATES**: on bytes it is the inverse of the group. -/
theorem altBn128G1Neg_encode1 {P : G1} (h : P ≠ 0) :
    altBn128G1Neg (encode1 P) = .ok (encode1 (-P)) := by
  cases P with
  | zero => exact absurd rfl h
  | some x y hP =>
      have hneg : curve.negY x y = -y := by
        simp [WeierstrassCurve.Affine.negY, curve]
      -- the negated residue is the subtraction from `q`, zero apart
      have hval : (-y).val = negY y.val := by
        rw [ZMod.neg_val, negY]
        simp only [ZMod.val_eq_zero]
      show altBn128G1Neg (g1Bytes x.val y.val) = .ok (g1Bytes x.val (curve.negY x y).val)
      rw [hneg, hval]
      exact altBn128G1Neg_eq y.val_lt

/-! ## The layout determines the point -/

/-- The origin is on neither curve. -/
theorem curve_origin {x y : Fq} (h : curve.Nonsingular x y) : ¬ (x.val = 0 ∧ y.val = 0) := by
  rintro ⟨hx, hy⟩
  obtain rfl := (ZMod.val_eq_zero x).mp hx
  obtain rfl := (ZMod.val_eq_zero y).mp hy
  have heq := (WeierstrassCurve.Affine.equation_iff _ _).mp h.1
  simp only [curve] at heq
  exact absurd heq (by decide +kernel)

theorem encode1_injective : Function.Injective encode1 := by
  -- the point at infinity looks like the origin, which is no other point
  have hzero : List.replicate 64 0 = g1Bytes 0 0 := by decide
  have hpos : 0 < bn128PrimeField := by decide
  intro P Q h
  cases P with
  | zero =>
      cases Q with
      | zero => rfl
      | some x y hQ =>
          rw [encode1, encode1, hzero] at h
          obtain ⟨hx, hy⟩ := g1Bytes_inj hpos hpos x.val_lt y.val_lt h
          exact absurd ⟨hx.symm, hy.symm⟩ (curve_origin hQ)
  | some x y hP =>
      cases Q with
      | zero =>
          rw [encode1, encode1, hzero] at h
          exact absurd (g1Bytes_inj x.val_lt y.val_lt hpos hpos h) (curve_origin hP)
      | some x' y' hQ =>
          obtain ⟨hx, hy⟩ := g1Bytes_inj x.val_lt y.val_lt x'.val_lt y'.val_lt h
          obtain rfl := ZMod.val_injective _ hx
          obtain rfl := ZMod.val_injective _ hy
          rfl

theorem fp2Bytes_inj {c c' : Fq2} (h : fp2Bytes (components c) = fp2Bytes (components c')) :
    c = c' := by
  obtain ⟨him, hre⟩ := g1Bytes_inj c.im.val_lt c.re.val_lt c'.im.val_lt c'.re.val_lt h
  exact QuadraticAlgebra.ext (ZMod.val_injective _ hre) (ZMod.val_injective _ him)

theorem twist_origin : ¬ twist.Nonsingular 0 0 := by
  intro h
  have heq := (WeierstrassCurve.Affine.equation_iff _ _).mp h.1
  have hre := congrArg QuadraticAlgebra.re heq
  simp only [twist] at hre
  exact absurd hre (by decide +kernel)

theorem encode2_injective : Function.Injective encode2 := by
  have hzero : List.replicate 128 0 = g2Bytes (components 0) (components 0) := by decide +kernel
  have hcoords : ∀ {x y x' y' : Fq2},
      g2Bytes (components x) (components y) = g2Bytes (components x') (components y') →
      x = x' ∧ y = y' := by
    intro x y x' y' h
    obtain ⟨hx, hy⟩ := List.append_inj h (by simp)
    exact ⟨fp2Bytes_inj hx, fp2Bytes_inj hy⟩
  intro P Q h
  cases P with
  | zero =>
      cases Q with
      | zero => rfl
      | some x y hQ =>
          rw [encode2, encode2, hzero] at h
          obtain ⟨rfl, rfl⟩ := hcoords h
          exact absurd hQ twist_origin
  | some x y hP =>
      cases Q with
      | zero =>
          rw [encode2, encode2, hzero] at h
          obtain ⟨rfl, rfl⟩ := hcoords h
          exact absurd hP twist_origin
      | some x' y' hQ =>
          obtain ⟨rfl, rfl⟩ := hcoords h
          rfl

end Albus.Core.Bn128
