import Albus.Core.F1Field
import Albus.Lib.Bytes
import Mathlib.FieldTheory.Finite.Basic

/-! # Keys on the curve

    `babyjub/babyjub.ts`, and the key functions of `babyjub/eddsa.ts` and `zkp.ts`.  An
    addition divides, so it fails where a denominator is zero.

    `blake512` is the digest of a private key. -/

namespace Albus.Core

open Albus.Lib

namespace BabyJub

/-- `A` and `D` of the curve. -/
def A : ℕ := 168700

def D : ℕ := 168696

def Base8 : ℕ × ℕ :=
  (5299619240641551281634865583518297030282874472190772894086521144482721001553,
    16950150798460657717958625567821834550301663161624707787222815936182638968203)

def addPoint (a b : ℕ × ℕ) : Except String (ℕ × ℕ) := do
  let beta := F1Field.mul a.1 b.2
  let gamma := F1Field.mul a.2 b.1
  let delta := F1Field.mul (F1Field.sub a.2 (F1Field.mul A a.1)) (F1Field.add b.1 b.2)
  let tau := F1Field.mul beta gamma
  let dtau := F1Field.mul D tau
  let x ← F1Field.div (F1Field.add beta gamma) (F1Field.add 1 dtau)
  let y ← F1Field.div (F1Field.add delta (F1Field.sub (F1Field.mul A beta) gamma))
    (F1Field.sub 1 dtau)
  .ok (x, y)

/-- The loop of `mulPointEscalar`. -/
def mulPointLoop (res exp : ℕ × ℕ) (rem : ℕ) : Except String (ℕ × ℕ) :=
  if rem = 0 then .ok res
  else do
    let res ← if rem % 2 = 1 then addPoint res exp else .ok res
    let exp ← addPoint exp exp
    mulPointLoop res exp (rem / 2)
termination_by rem

def mulPointEscalar (base : ℕ × ℕ) (e : ℕ) : Except String (ℕ × ℕ) :=
  mulPointLoop (0, 1) base e

def inCurve (P : ℕ × ℕ) : Bool :=
  let x2 := F1Field.square P.1
  let y2 := F1Field.square P.2
  F1Field.add (F1Field.mul A x2) y2 == F1Field.add 1 (F1Field.mul (F1Field.mul x2 y2) D)

def pm1d2 : ℕ := (bn254r - 1) / 2

/-- `Scalar.toRprLE` into 32 bytes, the lowest first. -/
def toRprLE (e : ℕ) : Bytes 32 := Vector.ofFn fun i => UInt8.ofNat (e / 256 ^ i.val)

theorem last_lt : 31 < 32 := by decide

/-- The second coordinate, and in the top bit the sign of the first. -/
def packPoint (P : ℕ × ℕ) : Bytes 32 :=
  let buff := toRprLE P.2
  if pm1d2 < P.1 then buff.set 31 (getElem buff 31 last_lt ||| 0x80) last_lt else buff

end BabyJub

/-- `Eddsa.pruneBuffer`. -/
def pruneBuffer (buff : List UInt8) : List UInt8 :=
  let buff := buff.set 0 (buff.getD 0 0 &&& 0xF8)
  let buff := buff.set 31 (buff.getD 31 0 &&& 0x7F)
  buff.set 31 (buff.getD 31 0 ||| 0x40)

/-- `formatPrivKeyForBabyJub`: the first 32 bytes are read with the lowest first. -/
def formatPrivKeyForBabyJub (blake512 : List UInt8 → List UInt8) (prv : List UInt8) : ℕ :=
  let sBuff := pruneBuffer (blake512 prv)
  beNat (sBuff.take 32).reverse >>> 3

/-- `Eddsa.prv2pub`, which formats the key in the same way. -/
def prv2pub (blake512 : List UInt8 → List UInt8) (prv : List UInt8) :
    Except String (ℕ × ℕ) :=
  BabyJub.mulPointEscalar BabyJub.Base8 (formatPrivKeyForBabyJub blake512 prv)

def generateEcdhSharedKey (blake512 : List UInt8 → List UInt8) (privKey : List UInt8)
    (pubKey : ℕ × ℕ) : Except String (ℕ × ℕ) :=
  BabyJub.mulPointEscalar pubKey (formatPrivKeyForBabyJub blake512 privKey)

/-! ## Packed keys

    A packed key denotes the one point on the curve that packs to it. -/

namespace BabyJub

/-- `P` is the point that `key` denotes. -/
structure PacksTo (P : ℕ × ℕ) (key : Bytes 32) : Prop where
  fst_lt : P.1 < bn254r
  snd_lt : P.2 < bn254r
  curve : inCurve P = true
  pack : packPoint P = key

instance (P : ℕ × ℕ) (key : Bytes 32) : Decidable (PacksTo P key) :=
  decidable_of_iff (P.1 < bn254r ∧ P.2 < bn254r ∧ inCurve P = true ∧ packPoint P = key)
    ⟨fun ⟨h1, h2, h3, h4⟩ => ⟨h1, h2, h3, h4⟩, fun h => ⟨h.1, h.2, h.3, h.4⟩⟩

theorem inCurve_val (x y : F) :
    inCurve (x.val, y.val) = true ↔
      (A : F) * (x * x) + y * y = 1 + x * x * (y * y) * (D : F) := by
  have hA : A = ((A : ℕ) : F).val := (ZMod.val_cast_of_lt (by decide)).symm
  have hD : D = ((D : ℕ) : F).val := (ZMod.val_cast_of_lt (by decide)).symm
  have hone : 1 = (1 : F).val := (ZMod.val_one _).symm
  rw [inCurve, beq_iff_eq, F1Field.square_val, F1Field.square_val, hA, hD, hone,
    F1Field.mul_val, F1Field.mul_val, F1Field.mul_val, F1Field.add_val, F1Field.add_val,
    ZMod.natCast_zmod_val, ZMod.natCast_zmod_val]
  exact (ZMod.val_injective bn254r).eq_iff

/-- On the curve the second coordinate gives the square of the first. -/
theorem mul_self_eq_of_curve {x x' y : F}
    (h : (A : F) * (x * x) + y * y = 1 + x * x * (y * y) * (D : F))
    (h' : (A : F) * (x' * x') + y * y = 1 + x' * x' * (y * y) * (D : F)) :
    x * x = x' * x' := by
  have hne : (A : F) - D * (y * y) ≠ 0 := by
    intro hzero
    have hone : y * y = 1 := by linear_combination h - x * x * hzero
    have hAD : (A : F) = D := by linear_combination hzero + D * hone
    have hval := congrArg ZMod.val hAD
    rw [ZMod.val_cast_of_lt (by decide), ZMod.val_cast_of_lt (by decide)] at hval
    exact absurd hval (by decide)
  refine mul_right_cancel₀ hne ?_
  linear_combination h - h'

/-- Of two opposite elements one is above the half. -/
theorem eq_of_mul_self_of_sign {x x' : F} (h : x * x = x' * x')
    (hsign : pm1d2 < x.val ↔ pm1d2 < x'.val) : x = x' := by
  rcases mul_self_eq_mul_self_iff.mp h with heq | hneg
  · exact heq
  · by_cases hzero : x' = 0
    · rw [hneg, hzero, neg_zero]
    · have hval : x.val = bn254r - x'.val := by rw [hneg, ZMod.neg_val, if_neg hzero]
      have hlt := x'.val_lt
      have hodd : 2 * pm1d2 + 1 = bn254r := by decide
      omega

theorem toRprLE_getElem (e : ℕ) {i : ℕ} (hi : i < 32) :
    (toRprLE e)[i].toNat = e / 256 ^ i % 256 := by
  rw [toRprLE, Vector.getElem_ofFn]
  exact UInt8.toNat_ofNat'

theorem packPoint_getElem (P : ℕ × ℕ) {i : ℕ} (hi : i < 31) :
    (packPoint P)[i].toNat = P.2 / 256 ^ i % 256 := by
  rw [← toRprLE_getElem P.2 (by omega)]
  by_cases hsign : pm1d2 < P.1
  · simp only [packPoint, if_pos hsign]
    rw [Vector.getElem_set_ne _ _ (by omega)]
  · simp only [packPoint, if_neg hsign]

/-- The last byte: the top digit, and the sign above it. -/
theorem packPoint_last {P : ℕ × ℕ} (h : P.2 < bn254r) :
    (getElem (packPoint P) 31 last_lt).toNat
      = P.2 / 256 ^ 31 + if pm1d2 < P.1 then 128 else 0 := by
  have hdigit : P.2 / 256 ^ 31 < 64 :=
    Nat.div_lt_of_lt_mul (lt_trans h (by decide))
  have hbyte : (toRprLE P.2)[31].toNat = P.2 / 256 ^ 31 := by
    rw [toRprLE_getElem P.2 (by omega), Nat.mod_eq_of_lt (by omega)]
  by_cases hsign : pm1d2 < P.1
  · have hor := Nat.two_pow_add_eq_or_of_lt (i := 7) (b := P.2 / 256 ^ 31) (by omega) 1
    simp only [packPoint, if_pos hsign]
    rw [Vector.getElem_set_self, UInt8.toNat_or, hbyte, Nat.or_comm]
    show 2 ^ 7 * 1 ||| P.2 / 256 ^ 31 = _
    rw [← hor]
    omega
  · simp only [packPoint, if_neg hsign]
    exact hbyte

/-- **A PACKED KEY DENOTES ONE POINT.** -/
theorem PacksTo.unique {P Q : ℕ × ℕ} {key : Bytes 32} (hP : PacksTo P key)
    (hQ : PacksTo Q key) : P = Q := by
  have hpack : packPoint P = packPoint Q := hP.pack.trans hQ.pack.symm
  have hlast : P.2 / 256 ^ 31 + (if pm1d2 < P.1 then 128 else 0)
      = Q.2 / 256 ^ 31 + if pm1d2 < Q.1 then 128 else 0 := by
    rw [← packPoint_last hP.snd_lt, ← packPoint_last hQ.snd_lt, hpack]
  have hdigitP : P.2 / 256 ^ 31 < 64 := Nat.div_lt_of_lt_mul (lt_trans hP.snd_lt (by decide))
  have hdigitQ : Q.2 / 256 ^ 31 < 64 := Nat.div_lt_of_lt_mul (lt_trans hQ.snd_lt (by decide))
  -- the second coordinates agree in every digit
  have hlow : ∀ k ≤ 31, P.2 % 256 ^ k = Q.2 % 256 ^ k := by
    intro k
    induction k with
    | zero => intro _; rw [pow_zero, Nat.mod_one, Nat.mod_one]
    | succ k ih =>
        intro hk
        rw [Nat.mod_pow_succ, Nat.mod_pow_succ, ih (by omega),
          ← packPoint_getElem P (by omega), ← packPoint_getElem Q (by omega), hpack]
  have hhigh : P.2 / 256 ^ 31 = Q.2 / 256 ^ 31 ∧ (pm1d2 < P.1 ↔ pm1d2 < Q.1) := by
    split_ifs at hlast with h1 h2 h2
    · exact ⟨by omega, by simp only [h1, h2]⟩
    · omega
    · omega
    · exact ⟨by omega, by simp only [h1, h2]⟩
  have hsnd : P.2 = Q.2 := by
    rw [← Nat.div_add_mod P.2 (256 ^ 31), ← Nat.div_add_mod Q.2 (256 ^ 31), hhigh.1,
      hlow 31 le_rfl]
  -- so the first are equal up to their sign, and the signs agree
  obtain ⟨x, hx⟩ : ∃ x : F, x.val = P.1 := ⟨P.1, ZMod.val_cast_of_lt hP.fst_lt⟩
  obtain ⟨x', hx'⟩ : ∃ x : F, x.val = Q.1 := ⟨Q.1, ZMod.val_cast_of_lt hQ.fst_lt⟩
  obtain ⟨y, hy⟩ : ∃ y : F, y.val = P.2 := ⟨P.2, ZMod.val_cast_of_lt hP.snd_lt⟩
  have hcurveP : inCurve (x.val, y.val) = true := by
    rw [hx, hy]
    exact hP.curve
  have hcurveQ : inCurve (x'.val, y.val) = true := by
    rw [hx', hy, hsnd]
    exact hQ.curve
  have hsquare := mul_self_eq_of_curve ((inCurve_val x y).mp hcurveP)
    ((inCurve_val x' y).mp hcurveQ)
  have hfst : P.1 = Q.1 := by
    rw [← hx, ← hx'] at hhigh ⊢
    exact congrArg ZMod.val (eq_of_mul_self_of_sign hsquare hhigh.2)
  exact Prod.ext hfst hsnd

end BabyJub

/-! ## Evaluating

    A scalar has some 250 bits, and the loop of `inv` works on integers; for one point
    it is faster to take the inverses as powers. -/

namespace BabyJub

/-- `x ^ (p - 2)`. -/
def invPow (x : ℕ) : ℕ := powMod bn254r 32 x (bn254r - 2) % bn254r

theorem inv_of_pow {x : ℕ} (hpos : 0 < x) (hlt : x < bn254r) :
    F1Field.inv x = .ok (invPow x) := by
  have hval : ((x : ℕ) : F).val = x := ZMod.val_cast_of_lt hlt
  have hne : (x : F) ≠ 0 := (ZMod.val_ne_zero _).mp (by omega)
  have hpow : (x : F) * (x : F) ^ (bn254r - 2) = 1 := by
    rw [← pow_succ', show bn254r - 2 + 1 = bn254r - 1 by decide,
      ZMod.pow_card_sub_one_eq_one hne]
  have hinv : (x : F)⁻¹ = (powMod bn254r 32 x (bn254r - 2) : ℕ) := by
    rw [natCast_powMod (by decide +kernel)]
    exact inv_eq_of_mul_eq_one_right hpow
  rw [← hval, F1Field.inv_val hne, hinv, ZMod.val_natCast, hval]
  rfl

def addPointPow (a b : ℕ × ℕ) : Option (ℕ × ℕ) :=
  let beta := F1Field.mul a.1 b.2
  let gamma := F1Field.mul a.2 b.1
  let delta := F1Field.mul (F1Field.sub a.2 (F1Field.mul A a.1)) (F1Field.add b.1 b.2)
  let dtau := F1Field.mul D (F1Field.mul beta gamma)
  let dx := F1Field.add 1 dtau
  let dy := F1Field.sub 1 dtau
  if 0 < dx ∧ dx < bn254r ∧ 0 < dy ∧ dy < bn254r then
    some (F1Field.mul (F1Field.add beta gamma) (invPow dx),
      F1Field.mul (F1Field.add delta (F1Field.sub (F1Field.mul A beta) gamma)) (invPow dy))
  else none

theorem addPoint_of_pow {a b c : ℕ × ℕ} (h : addPointPow a b = some c) :
    addPoint a b = .ok c := by
  simp only [addPointPow] at h
  split_ifs at h with hden
  obtain ⟨hx, hx', hy, hy'⟩ := hden
  obtain rfl := Option.some.inj h
  simp only [addPoint, F1Field.div, inv_of_pow hx hx', inv_of_pow hy hy', bind, Except.bind]

def mulPointPow : ℕ → ℕ × ℕ → ℕ × ℕ → ℕ → Option (ℕ × ℕ)
  | 0, _, _, _ => none
  | fuel + 1, res, exp, rem =>
    if rem = 0 then some res
    else
      (if rem % 2 = 1 then addPointPow res exp else some res).bind fun res =>
        (addPointPow exp exp).bind fun exp => mulPointPow fuel res exp (rem / 2)

theorem mulPointLoop_of_pow {fuel rem : ℕ} {res exp c : ℕ × ℕ}
    (h : mulPointPow fuel res exp rem = some c) : mulPointLoop res exp rem = .ok c := by
  induction fuel generalizing res exp rem with
  | zero => exact nomatch h
  | succ fuel ih =>
      rw [mulPointPow] at h
      rw [mulPointLoop]
      by_cases hzero : rem = 0
      · rw [if_pos hzero] at h ⊢
        rw [Option.some.inj h]
      · rw [if_neg hzero] at h ⊢
        obtain ⟨res', hres, h⟩ := Option.bind_eq_some_iff.mp h
        obtain ⟨exp', hexp, h⟩ := Option.bind_eq_some_iff.mp h
        by_cases hodd : rem % 2 = 1
        · rw [if_pos hodd] at hres
          simp only [if_pos hodd, addPoint_of_pow hres, addPoint_of_pow hexp, bind,
            Except.bind]
          exact ih h
        · rw [if_neg hodd] at hres
          obtain rfl := Option.some.inj hres
          simp only [if_neg hodd, addPoint_of_pow hexp, bind, Except.bind]
          exact ih h

end BabyJub

end Albus.Core
