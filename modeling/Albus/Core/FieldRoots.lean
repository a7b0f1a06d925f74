import Albus.Core.F1Field
import Albus.Lib.TonelliShanks
import Albus.Lib.WhileLoop
import Mathlib.NumberTheory.LegendreSymbol.Basic

/-! # Inverses and square roots in `crypto/ff/f1field.ts`

    The class for any prime `p`: `inv` by the extended Euclidean algorithm, `exp` by the
    bits of the exponent, and the `sqrt` that `tonelliShanks` puts into the field, with
    the generator that the constructor drew.  `fuel` bounds the rounds of its loops. -/

namespace Albus.Core.F1Field

open Albus.Lib

namespace Over

section Field

variable (p : ℕ)

/-- `e` on a number that is not negative. -/
def e (a : ℕ) : ℕ := if p ≤ a then a % p else a

def add (a b : ℕ) : ℕ :=
  let res := a + b
  if p ≤ res then res - p else res

def mul (a b : ℕ) : ℕ := a * b % p

def square (a : ℕ) : ℕ := a * a % p

def neg (a : ℕ) : ℕ := if a ≠ 0 then p - a else a

def half : ℕ := p >>> 1

def negone : ℕ := p - 1

/-- The representative that `geq` compares: above the half it is negative. -/
def signed (a : ℕ) : ℤ := if half p < a then (a : ℤ) - p else a

def geq (a b : ℕ) : Bool := signed p b ≤ signed p a

def inv (a : ℕ) : Except String ℕ :=
  if a = 0 then .error "Division by zero"
  else
    let t := invLoop 0 p 1 (a % p)
    .ok (if t < 0 then t + p else t).toNat

/-- `Scalar.bits`, the lowest first. -/
def bits (n : ℕ) : List ℕ :=
  if n = 0 then [] else n % 2 :: bits (n / 2)
termination_by n

/-- One turn of the loop of `exp`. -/
def expStep (base bit res : ℕ) : ℕ :=
  let res := square p res
  if bit = 1 then mul p res base else res

/-- The loop goes down from the bit below the top one. -/
def exp (base e : ℕ) : ℕ :=
  if e = 0 then 1 else (bits e).dropLast.foldr (expStep p base) base

/-- What `tonelliShanks` keeps in the field. -/
structure SqrtConstants where
  sqrtS : ℕ
  sqrtT : ℕ
  sqrtZ : ℕ
  sqrtTm1d2 : ℕ

/-- The loop that takes the factors two out of `t`; from zero it would not come out. -/
def splitLoop (s t : ℕ) : ℕ × ℕ :=
  if t = 0 ∨ t % 2 = 1 then (s, t) else splitLoop (s + 1) (t / 2)
termination_by t

/-- The constants for the generator `c`. -/
def tonelliShanks (c : ℕ) : SqrtConstants :=
  let (s, t) := splitLoop 0 (p - 1)
  { sqrtS := s
    sqrtT := t
    sqrtZ := exp p c t
    sqrtTm1d2 := (t - 1) / 2 }

/-- The loop that draws generators stops at `c`. -/
def Drawn (c : ℕ) : Prop :=
  let K := tonelliShanks p c
  exp p K.sqrtZ (2 ^ (K.sqrtS - 1)) ≠ 1

instance (c : ℕ) : Decidable (Drawn p c) := inferInstanceAs (Decidable (_ ≠ _))

/-- The variables of the loop of `sqrt`. -/
structure SqrtState where
  v : ℕ
  x : ℕ
  b : ℕ
  z : ℕ
  deriving DecidableEq

/-- The inner loop, which looks for the order of `b`: the last square and its
    exponent. -/
def orderLoop (fuel b : ℕ) : Option (ℕ × ℕ) :=
  runWhile (fun st => st.1 ≠ 1) (fun st => some (square p st.1, st.2 + 1)) fuel
    (square p b, 1)

def sqrtBody (fuel : ℕ) (st : SqrtState) : Option SqrtState :=
  (orderLoop p fuel st.b).map fun found =>
    let k := found.2
    let w := (square p)^[st.v - k - 1] st.z
    let z := square p w
    { v := k, x := mul p st.x w, b := mul p st.b z, z }

/-- `sqrt`, where the inner `none` is its `null`. -/
def sqrt (K : SqrtConstants) (fuel a : ℕ) : Option (Option ℕ) :=
  if a = 0 then some (some 0)
  else
    let w := exp p a K.sqrtTm1d2
    let a0 := exp p (mul p (square p w) a) (2 ^ (K.sqrtS - 1))
    if a0 = negone p then some none
    else
      let x := mul p a w
      (runWhile (fun st => st.b ≠ 1) (sqrtBody p fuel) fuel
        { v := K.sqrtS, x, b := mul p x w, z := K.sqrtZ }).map fun st =>
          some (if geq p st.x 0 then st.x else neg p st.x)

end Field

theorem e_eq_mod (p a : ℕ) : e p a = a % p := by
  rw [e]
  split
  · rfl
  · next h => rw [Nat.mod_eq_of_lt (Nat.lt_of_not_le h)]

theorem add_eq_mod {p a b : ℕ} (ha : a < p) (hb : b < p) : add p a b = (a + b) % p := by
  show (if p ≤ a + b then a + b - p else a + b) = _
  by_cases h : p ≤ a + b
  · rw [if_pos h, Nat.mod_eq_sub_mod h, Nat.mod_eq_of_lt (by omega)]
  · rw [if_neg h, Nat.mod_eq_of_lt (by omega)]

/-! ## Residues -/

section Residues

variable {p : ℕ} [Fact p.Prime]

@[simp] theorem mul_val (x y : ZMod p) : mul p x.val y.val = (x * y).val :=
  (ZMod.val_mul x y).symm

@[simp] theorem square_val (x : ZMod p) : square p x.val = (x * x).val := mul_val x x

theorem val_eq_one_iff (x : ZMod p) : x.val = 1 ↔ x = 1 := by
  rw [← ZMod.val_one p]
  exact (ZMod.val_injective p).eq_iff

theorem neg_val (x : ZMod p) : neg p x.val = (-x).val := by
  rw [neg, ZMod.neg_val]
  by_cases hx : x = 0
  · rw [if_pos hx, hx, ZMod.val_zero]
    rfl
  · rw [if_neg hx, if_pos ((ZMod.val_ne_zero x).mpr hx)]

theorem negone_eq : negone p = (-1 : ZMod p).val := by
  rw [← neg_val, neg, ZMod.val_one, if_pos one_ne_zero, negone]

theorem inv_val {x : ZMod p} (hx : x ≠ 0) : inv p x.val = .ok x⁻¹.val := by
  rw [inv, if_neg ((ZMod.val_ne_zero x).mpr hx), Nat.mod_eq_of_lt x.val_lt]
  exact congrArg Except.ok (cofactor_val hx)

theorem bits_ne_nil {n : ℕ} (h : n ≠ 0) : bits n ≠ [] := by
  rw [bits, if_neg h]
  exact List.cons_ne_nil _ _

omit [Fact p.Prime] in
/-- Square and multiply, by the lowest bit. -/
theorem exp_step {e : ℕ} (h : 2 ≤ e) (base : ℕ) :
    exp p base e = expStep p base (e % 2) (exp p base (e / 2)) := by
  have hhalf : e / 2 ≠ 0 := by omega
  rw [exp, if_neg (by omega), bits, if_neg (by omega), List.dropLast_cons_of_ne_nil
    (bits_ne_nil hhalf), List.foldr_cons, exp, if_neg hhalf]

omit [Fact p.Prime] in
theorem exp_one (base : ℕ) : exp p base 1 = base := by
  rw [exp, if_neg one_ne_zero, bits, if_neg one_ne_zero, bits, if_pos (by decide)]
  rfl

/-- **`exp` IS THE POWER.** -/
theorem exp_val (x : ZMod p) (e : ℕ) : exp p x.val e = (x ^ e).val := by
  induction e using Nat.strong_induction_on with
  | _ e ih =>
      obtain rfl | rfl | he : e = 0 ∨ e = 1 ∨ 2 ≤ e := by omega
      · rw [exp, if_pos rfl, pow_zero, ZMod.val_one]
      · rw [exp_one, pow_one]
      · rw [exp_step he, ih (e / 2) (by omega), expStep, square_val]
        have hsplit : x ^ e = x ^ (e / 2) * x ^ (e / 2) * x ^ (e % 2) := by
          rw [← pow_add, ← pow_add]
          congr 1
          omega
        rcases Nat.mod_two_eq_zero_or_one e with hbit | hbit
        · rw [if_neg (by omega), hsplit, hbit, pow_zero, mul_one]
        · rw [if_pos hbit, mul_val, hsplit, hbit, pow_one]

theorem iterate_square_val (x : ZMod p) (n : ℕ) :
    (square p)^[n] x.val = (x ^ 2 ^ n).val := by
  induction n with
  | zero => rw [Function.iterate_zero_apply, pow_zero, pow_one]
  | succ n ih => rw [Function.iterate_succ_apply', ih, square_val, ← pow_two_pow_succ]

/-! ## The inner loop -/

/-- The invariant of the inner loop: the square is that of `b`, and no exponent below
    gave one. -/
structure OrderState (b : ZMod p) (m : ℕ) (st : ℕ × ℕ) : Prop where
  square : st.1 = (b ^ 2 ^ st.2).val
  pos : 1 ≤ st.2
  le : st.2 ≤ m
  least : b ^ 2 ^ (st.2 - 1) ≠ 1

theorem OrderState.step {b : ZMod p} {m : ℕ} (hm : b ^ 2 ^ m = 1) {st : ℕ × ℕ}
    (h : OrderState b m st) (htest : st.1 ≠ 1) :
    OrderState b m (Over.square p st.1, st.2 + 1) ∧ st.2 < m := by
  have hne : b ^ 2 ^ st.2 ≠ 1 := by
    intro hone
    exact htest (h.square.trans ((val_eq_one_iff _).mpr hone))
  have hlt : st.2 < m := by
    rcases Nat.lt_or_ge st.2 m with hlt | hge
    · exact hlt
    · exact absurd (pow_two_pow_eq_one hm hge) hne
  refine ⟨⟨?_, Nat.le_add_left 1 _, hlt, hne⟩, hlt⟩
  show Over.square p st.1 = _
  rw [h.square, square_val, ← pow_two_pow_succ]

/-- **THE INNER LOOP FINDS THE ORDER.** -/
theorem orderLoop_eq {b : ZMod p} {m : ℕ} (hb : b ≠ 1) (hm : b ^ 2 ^ m = 1) {fuel : ℕ}
    (hfuel : m ≤ fuel) :
    ∃ found, orderLoop p fuel b.val = some found ∧ OrderExp b found.2 := by
  have hpos : 1 ≤ m := by
    rcases Nat.eq_zero_or_pos m with rfl | hpos
    · rw [pow_zero, pow_one] at hm
      exact absurd hm hb
    · exact hpos
  have hstart : OrderState b m (Over.square p b.val, 1) := by
    refine ⟨?_, Nat.le_refl 1, hpos, ?_⟩
    · show Over.square p b.val = _
      rw [square_val, pow_one, pow_two]
    · show b ^ 2 ^ (1 - 1) ≠ 1
      rwa [Nat.sub_self, pow_zero, pow_one]
  have hbody : ∀ st, OrderState b m st → st.1 ≠ 1 → ∃ st',
      some (Over.square p st.1, st.2 + 1) = some st' ∧ OrderState b m st' ∧
        m - st'.2 < m - st.2 := by
    intro st hst htest
    obtain ⟨hnext, hlt⟩ := hst.step hm htest
    exact ⟨_, rfl, hnext, by show m - (st.2 + 1) < m - st.2; omega⟩
  have hfuel' : m - 1 ≤ fuel := by omega
  obtain ⟨found, hfound, hend, hstop⟩ := runWhile_total hbody hstart hfuel'
  refine ⟨found, hfound, hend.pos, ?_, hend.least⟩
  rw [← val_eq_one_iff, ← hend.square]
  exact not_not.mp hstop

/-! ## The outer loop -/

/-- The invariant of the outer loop, on canonical variables. -/
def ShanksState (a : ZMod p) (st : SqrtState) : Prop :=
  ∃ x b z : ZMod p, st.x = x.val ∧ st.b = b.val ∧ st.z = z.val ∧ Shanks a st.v x b z

theorem sqrtBody_eq {a : ZMod p} {st : SqrtState} (h : ShanksState a st) (htest : st.b ≠ 1)
    {fuel : ℕ} (hfuel : st.v ≤ fuel) :
    ∃ st', sqrtBody p fuel st = some st' ∧ ShanksState a st' ∧ st'.v < st.v := by
  obtain ⟨x, b, z, hx, hb, hz, hshanks⟩ := h
  have hne : b ≠ 1 := by
    intro hone
    exact htest (hb.trans ((val_eq_one_iff b).mpr hone))
  obtain ⟨found, hfound, hk⟩ :=
    orderLoop_eq hne hshanks.order (show st.v - 1 ≤ fuel by omega)
  have hw : (Over.square p)^[st.v - found.2 - 1] st.z
      = (z ^ 2 ^ (st.v - found.2 - 1)).val := by
    rw [hz, iterate_square_val]
  have hbody : sqrtBody p fuel st = some
      { v := found.2
        x := mul p st.x ((Over.square p)^[st.v - found.2 - 1] st.z)
        b := mul p st.b (Over.square p ((Over.square p)^[st.v - found.2 - 1] st.z))
        z := Over.square p ((Over.square p)^[st.v - found.2 - 1] st.z) } := by
    rw [sqrtBody, hb, hfound, Option.map_some]
  refine ⟨_, hbody, ⟨_, _, _, ?_, ?_, ?_, hshanks.step hk rfl⟩, ?_⟩
  · show mul p st.x _ = _
    rw [hw, hx, mul_val]
  · show mul p st.b (Over.square p _) = _
    rw [hw, hb, square_val, mul_val]
  · show Over.square p _ = _
    rw [hw, square_val]
  · exact hshanks.lt_of_orderExp hk

/-- **THE OUTER LOOP ENDS IN A ROOT.** -/
theorem sqrtLoop_eq {a : ZMod p} {st : SqrtState} (h : ShanksState a st) {fuel : ℕ}
    (hfuel : st.v ≤ fuel) :
    ∃ e, runWhile (fun st => st.b ≠ 1) (sqrtBody p fuel) fuel st = some e ∧
      ∃ x : ZMod p, e.x = x.val ∧ x * x = a := by
  have hbody : ∀ st, (ShanksState a st ∧ st.v ≤ fuel) → st.b ≠ 1 → ∃ st',
      sqrtBody p fuel st = some st' ∧ (ShanksState a st' ∧ st'.v ≤ fuel) ∧
        st'.v < st.v := by
    rintro st ⟨hst, hle⟩ htest
    obtain ⟨st', hst', hnext, hlt⟩ := sqrtBody_eq hst htest hle
    exact ⟨st', hst', ⟨hnext, by omega⟩, hlt⟩
  obtain ⟨e, he, ⟨⟨x, b, z, hx, hb, -, hshanks⟩, -⟩, hstop⟩ :=
    runWhile_total hbody ⟨h, hfuel⟩ hfuel
  have hone : b = 1 := (val_eq_one_iff b).mp (hb.symm.trans (not_not.mp hstop))
  rw [hone] at hshanks
  exact ⟨e, he, x, hx, hshanks.root⟩

/-! ## The constants -/

omit [Fact p.Prime] in
/-- **THE LOOP TAKES OUT ALL FACTORS TWO.** -/
theorem splitLoop_eq (s : ℕ) {t : ℕ} (ht : 0 < t) :
    s ≤ (splitLoop s t).1 ∧ (splitLoop s t).2 % 2 = 1 ∧
      2 ^ ((splitLoop s t).1 - s) * (splitLoop s t).2 = t := by
  fun_induction splitLoop s t with
  | case1 s t h =>
      refine ⟨Nat.le_refl s, by omega, ?_⟩
      rw [Nat.sub_self, pow_zero, one_mul]
  | case2 s t h ih =>
      obtain ⟨hle, hodd, hprod⟩ := ih (by omega)
      refine ⟨by omega, hodd, ?_⟩
      rw [show (splitLoop (s + 1) (t / 2)).1 - s = (splitLoop (s + 1) (t / 2)).1 - (s + 1) + 1
        by omega, pow_succ, mul_right_comm, hprod]
      omega

/-- An odd prime, and what `tonelliShanks` keeps for it. -/
theorem constants_eq (hodd : p ≠ 2) (c : ℕ) :
    1 ≤ (tonelliShanks p c).sqrtS ∧ (tonelliShanks p c).sqrtT % 2 = 1 ∧
      2 ^ ((tonelliShanks p c).sqrtS - 1) * (tonelliShanks p c).sqrtT = p / 2 := by
  have hp : p.Prime := Fact.out
  have hmod : p % 2 = 1 := hp.eq_two_or_odd.resolve_left hodd
  have htwo := hp.two_le
  obtain ⟨-, hT, hprod⟩ := splitLoop_eq 0 (t := p - 1) (by omega)
  rw [Nat.sub_zero] at hprod
  have hS : 1 ≤ (splitLoop 0 (p - 1)).1 := by
    rcases Nat.eq_zero_or_pos (splitLoop 0 (p - 1)).1 with hzero | hpos
    · rw [hzero, pow_zero, one_mul] at hprod
      omega
    · exact hpos
  refine ⟨hS, hT, ?_⟩
  show 2 ^ ((splitLoop 0 (p - 1)).1 - 1) * (splitLoop 0 (p - 1)).2 = p / 2
  have hdouble : 2 * (2 ^ ((splitLoop 0 (p - 1)).1 - 1) * (splitLoop 0 (p - 1)).2)
      = p - 1 := by
    rw [← mul_assoc, ← pow_succ', Nat.sub_add_cancel hS, hprod]
  omega

theorem neg_one_ne_one (hodd : p ≠ 2) : (-1 : ZMod p) ≠ 1 := by
  have hlt : Fact (2 < p) := ⟨lt_of_le_of_ne (Fact.out : p.Prime).two_le (Ne.symm hodd)⟩
  exact ZMod.neg_one_ne_one

/-- A non-square has the power minus one. -/
theorem pow_half_of_not_isSquare {x : ZMod p} (hx : ¬ IsSquare x) : x ^ (p / 2) = -1 := by
  have hne : x ≠ 0 := by
    rintro rfl
    exact hx (IsSquare.zero)
  exact (ZMod.pow_div_two_eq_neg_one_or_one p hne).resolve_left
    fun hone => hx ((ZMod.euler_criterion p hne).mpr hone)

/-- Which draws end the loop of the constructor: those that are no squares, and zero. -/
theorem drawn_iff (hodd : p ≠ 2) (x : ZMod p) :
    Drawn p x.val ↔ x = 0 ∨ ¬ IsSquare x := by
  obtain ⟨-, -, hprod⟩ := constants_eq hodd x.val
  have hpos := (Fact.out : p.Prime).two_le
  have hpow : exp p (tonelliShanks p x.val).sqrtZ (2 ^ ((tonelliShanks p x.val).sqrtS - 1))
      = (x ^ (p / 2)).val := by
    show exp p (exp p x.val (tonelliShanks p x.val).sqrtT) _ = _
    rw [exp_val, exp_val, ← pow_mul, mul_comm, hprod]
  rw [Drawn]
  show exp p _ _ ≠ 1 ↔ _
  rw [hpow, Ne, val_eq_one_iff]
  by_cases hx : x = 0
  · rw [hx, zero_pow (by omega)]
    exact iff_of_true zero_ne_one (Or.inl rfl)
  · rw [← ZMod.euler_criterion p hx]
    exact (or_iff_right hx).symm

/-! ## Square roots -/

/-- The sign of the source: the smaller of the two roots. -/
theorem signed_root {x a : ZMod p} (hodd : p ≠ 2) (hx : x * x = a) :
    ∃ r, (if geq p x.val 0 then x.val else neg p x.val) = r ∧ r ≤ (p - 1) / 2 ∧
      r * r % p = a.val := by
  have hmod : p % 2 = 1 := (Fact.out : p.Prime).eq_two_or_odd.resolve_left hodd
  have hlt := x.val_lt
  have hhalf : half p = p / 2 := Nat.shiftRight_one p
  have hzero : signed p 0 = 0 := if_neg (by omega)
  have hgeq : geq p x.val 0 = true ↔ x.val ≤ p / 2 := by
    rw [geq, hzero, decide_eq_true_iff, signed, hhalf]
    split <;> omega
  refine ⟨_, rfl, ?_⟩
  by_cases hle : x.val ≤ p / 2
  · rw [if_pos (hgeq.mpr hle)]
    refine ⟨by omega, ?_⟩
    rw [← hx, ZMod.val_mul]
  · rw [if_neg (fun h => hle (hgeq.mp h)), neg, if_pos (by omega)]
    refine ⟨by omega, ?_⟩
    have hneg : p - x.val = (-x).val := by
      rw [← neg_val, neg, if_pos (by omega)]
    rw [hneg, ← ZMod.val_mul, neg_mul_neg, hx]

/-- The smaller root is determined. -/
theorem root_unique {r r' n : ℕ} (hp : p ≠ 2) (hr : r ≤ (p - 1) / 2)
    (hr' : r' ≤ (p - 1) / 2) (h : r * r % p = n) (h' : r' * r' % p = n) : r = r' := by
  have hpos := (Fact.out : p.Prime).two_le
  have hcast : (r : ZMod p) * r = r' * r' := by
    rw [← Nat.cast_mul, ← Nat.cast_mul, ZMod.natCast_eq_natCast_iff']
    exact h.trans h'.symm
  rcases mul_self_eq_mul_self_iff.mp hcast with heq | hneg
  · rw [ZMod.natCast_eq_natCast_iff', Nat.mod_eq_of_lt (by omega),
      Nat.mod_eq_of_lt (by omega)] at heq
    exact heq
  · have hsum : ((r + r' : ℕ) : ZMod p) = 0 := by
      rw [Nat.cast_add, hneg, neg_add_cancel]
    rw [ZMod.natCast_eq_zero_iff] at hsum
    have hmod : p % 2 = 1 := (Fact.out : p.Prime).eq_two_or_odd.resolve_left hp
    have hzero : r + r' = 0 := Nat.eq_zero_of_dvd_of_lt hsum (by omega)
    omega

/-- `sqrt` on a canonical element, with a non-square as generator. -/
theorem sqrt_spec (hodd : p ≠ 2) {c : ZMod p} (hc : ¬ IsSquare c) (a : ZMod p) {fuel : ℕ}
    (hfuel : (tonelliShanks p c.val).sqrtS ≤ fuel) :
    (¬ IsSquare a → sqrt p (tonelliShanks p c.val) fuel a.val = some none) ∧
      (IsSquare a → ∃ r, sqrt p (tonelliShanks p c.val) fuel a.val = some (some r) ∧
        r ≤ (p - 1) / 2 ∧ r * r % p = a.val) := by
  obtain ⟨hS, hT, hprod⟩ := constants_eq hodd c.val
  obtain ⟨K, hK⟩ : ∃ K, tonelliShanks p c.val = K := ⟨_, rfl⟩
  have hZ : K.sqrtZ = (c ^ K.sqrtT).val := by
    rw [← hK]
    exact exp_val c _
  have hTm : K.sqrtTm1d2 = (K.sqrtT - 1) / 2 := by
    rw [← hK]
    rfl
  rw [hK] at hS hT hprod hfuel ⊢
  have hp := (Fact.out : p.Prime).two_le
  have hcpow : c ^ (2 ^ (K.sqrtS - 1) * K.sqrtT) = -1 := by
    rw [hprod]
    exact pow_half_of_not_isSquare hc
  by_cases hzero : a = 0
  · subst hzero
    refine ⟨fun h => absurd IsSquare.zero h, fun _ => ⟨0, ?_, Nat.zero_le _, ?_⟩⟩
    · rw [sqrt, if_pos ZMod.val_zero]
    · rw [ZMod.val_zero, mul_zero, Nat.zero_mod]
  · obtain ⟨w, hw⟩ : ∃ w, w = a ^ K.sqrtTm1d2 := ⟨_, rfl⟩
    have hexp : exp p a.val K.sqrtTm1d2 = w.val := by rw [exp_val, hw]
    have hwt : w * w * a = a ^ K.sqrtT := by
      rw [hw, hTm, ← pow_add, ← pow_succ]
      congr 1
      omega
    have ha0 : exp p (mul p (Over.square p w.val) a.val) (2 ^ (K.sqrtS - 1))
        = (a ^ (p / 2)).val := by
      rw [square_val, mul_val, exp_val, hwt, ← pow_mul, mul_comm, hprod]
    have hnegone : (a ^ (p / 2)).val = negone p ↔ a ^ (p / 2) = -1 := by
      rw [negone_eq]
      exact (ZMod.val_injective p).eq_iff
    constructor
    · intro ha
      rw [sqrt, if_neg ((ZMod.val_ne_zero a).mpr hzero)]
      simp only [hexp, ha0]
      rw [if_pos (hnegone.mpr (pow_half_of_not_isSquare ha))]
    · intro ha
      have hone : a ^ (p / 2) = 1 := (ZMod.euler_criterion p hzero).mp ha
      have hne : ¬ a ^ (p / 2) = -1 := by
        intro h
        rw [hone] at h
        exact neg_one_ne_one hodd h.symm
      have hstart : ShanksState a
          { v := K.sqrtS, x := mul p a.val w.val,
            b := mul p (mul p a.val w.val) w.val, z := K.sqrtZ } :=
        ⟨a * w, a * w * w, c ^ K.sqrtT, mul_val a w, by
            show mul p (mul p a.val w.val) w.val = _
            rw [mul_val, mul_val], hZ,
          Shanks.start hS hT (by rw [hprod, hone]) hcpow (by rw [hw, hTm])⟩
      obtain ⟨e, he, x, hx, hroot⟩ := sqrtLoop_eq hstart hfuel
      obtain ⟨r, hr, hle, hsquare⟩ := signed_root hodd hroot
      refine ⟨r, ?_, hle, hsquare⟩
      rw [sqrt, if_neg ((ZMod.val_ne_zero a).mpr hzero)]
      simp only [hexp, ha0]
      rw [if_neg (fun h => hne (hnegone.mp h)), he, Option.map_some, hx, hr]

end Residues

/-- **INVERSES AND SQUARE ROOTS.**  For an odd prime, `inv` gives the inverse, and
    `sqrt` comes out with the smaller root, or with `null` for a non-square, whichever
    non-square the constructor drew. -/
theorem inv_and_sqrt {p : ℕ} (hp : p.Prime) (hodd : p ≠ 2) :
    (∀ a, 0 < a → a < p → ∃ r, inv p a = .ok r ∧ 0 < r ∧ r < p ∧ a * r % p = 1) ∧
      ∀ a < p, ∃ root : Option ℕ,
        (∀ c < p, ¬ IsSquare (c : ZMod p) → ∀ fuel, (tonelliShanks p c).sqrtS ≤ fuel →
          sqrt p (tonelliShanks p c) fuel a = some root) ∧
        (root = none ↔ ¬ IsSquare (a : ZMod p)) ∧
        ∀ r, root = some r → r * r % p = a ∧ r ≤ (p - 1) / 2 := by
  have hfact : Fact p.Prime := ⟨hp⟩
  refine ⟨?_, ?_⟩
  · intro a hpos hlt
    have hval : (a : ZMod p).val = a := ZMod.val_cast_of_lt hlt
    have hne : (a : ZMod p) ≠ 0 := (ZMod.val_ne_zero _).mp (by omega)
    have hinv := inv_val hne
    rw [hval] at hinv
    refine ⟨_, hinv, ?_, ZMod.val_lt _, ?_⟩
    · exact Nat.pos_of_ne_zero ((ZMod.val_ne_zero _).mpr (inv_ne_zero hne))
    · have hmul := ZMod.val_mul (a : ZMod p) (a : ZMod p)⁻¹
      rw [mul_inv_cancel₀ hne, ZMod.val_one, hval] at hmul
      exact hmul.symm
  · intro a hlt
    have hval : (a : ZMod p).val = a := ZMod.val_cast_of_lt hlt
    by_cases ha : IsSquare (a : ZMod p)
    · obtain ⟨x, hx⟩ := ha
      obtain ⟨root, -, hle, hroot⟩ := signed_root hodd hx.symm
      rw [hval] at hroot
      refine ⟨some root, ?_, iff_of_false (Option.some_ne_none root) (not_not.mpr ⟨x, hx⟩), ?_⟩
      · intro c hc hns fuel hfuel
        rw [← ZMod.val_cast_of_lt hc] at hfuel ⊢
        obtain ⟨r, hr, hrle, hrroot⟩ := (sqrt_spec hodd hns (a : ZMod p) hfuel).2 ⟨x, hx⟩
        rw [hval] at hr hrroot
        rw [hr, root_unique hodd hrle hle hrroot hroot]
      · rintro r hr
        obtain rfl := Option.some.inj hr
        exact ⟨hroot, hle⟩
    · refine ⟨none, ?_, iff_of_true rfl ha, fun r hr => (nomatch hr)⟩
      intro c hc hns fuel hfuel
      rw [← ZMod.val_cast_of_lt hc] at hfuel ⊢
      have hnone := (sqrt_spec hodd hns (a : ZMod p) hfuel).1 ha
      rwa [hval] at hnone

theorem inv_and_sqrt_seventeen :
    (∀ a, 0 < a → a < 17 → ∃ r, inv 17 a = .ok r ∧ 0 < r ∧ r < 17 ∧ a * r % 17 = 1) ∧
      ∀ a : ℕ, a < 17 → ∃ root : Option ℕ,
        (∀ c : ℕ, c < 17 → ¬ IsSquare (c : ZMod 17) → ∀ fuel, (tonelliShanks 17 c).sqrtS ≤ fuel →
          sqrt 17 (tonelliShanks 17 c) fuel a = some root) ∧
        (root = none ↔ ¬ IsSquare (a : ZMod 17)) ∧
        ∀ r, root = some r → r * r % 17 = a ∧ r ≤ (17 - 1) / 2 :=
  inv_and_sqrt (by norm_num) (by decide)

/-- Modulo 17, where all of the order is a power of two: 13 is the square of 8. -/
example : sqrt 17 (tonelliShanks 17 3) 4 13 = some (some 8) := by decide +kernel

end Over

/-! ## The scalar field of the curve -/

theorem mul_eq_over : mul = Over.mul bn254r := rfl

theorem square_eq_over : square = Over.square bn254r := rfl

theorem inv_eq_over : inv = Over.inv bn254r := rfl

end Albus.Core.F1Field
