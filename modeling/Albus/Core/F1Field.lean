import Albus.Prime

/-! # The field arithmetic of `crypto/ff/f1field.ts`

    An element is a natural number.  On residues the operations are those of the
    field: each is stated on the `val` of two field elements. -/

namespace Albus.Core

namespace F1Field

def e (a : ℤ) : ℕ :=
  if a < 0 then
    bn254r - (if bn254r ≤ a.natAbs then a.natAbs % bn254r else a.natAbs)
  else if bn254r ≤ a.natAbs then a.natAbs % bn254r else a.natAbs

/-- The same body as `e`. -/
def normalize (a : ℤ) : ℕ := e a

def add (a b : ℕ) : ℕ :=
  let res := a + b
  if bn254r ≤ res then res - bn254r else res

/-- `b` is a residue: the source's difference is not negative. -/
def sub (a b : ℕ) : ℕ := if b ≤ a then a - b else bn254r - b + a

def mul (a b : ℕ) : ℕ := a * b % bn254r

def square (a : ℕ) : ℕ := a * a % bn254r

/-- The loop of `inv`. -/
def invLoop (t : ℤ) (r : ℕ) (newt : ℤ) (newr : ℕ) : ℤ :=
  if newr = 0 then t
  else
    let q := r / newr
    invLoop newt newr (t - q * newt) (r - q * newr)
termination_by newr
decreasing_by
  have h := Nat.mod_lt r (Nat.pos_of_ne_zero ‹_›)
  rw [Nat.mod_eq_sub_div_mul] at h
  exact h

def inv (a : ℕ) : Except String ℕ :=
  if a = 0 then .error "Division by zero"
  else
    let t := invLoop 0 bn254r 1 (a % bn254r)
    .ok (if t < 0 then t + bn254r else t).toNat

def div (a b : ℕ) : Except String ℕ :=
  match inv b with
  | .ok b' => .ok (mul a b')
  | .error err => .error err

def half : ℕ := bn254r >>> 1

/-- The number that `toString` writes in decimal: a residue above `half` is
    written as its negative. -/
def toString (a : ℕ) : ℤ := if half < a then -((bn254r : ℤ) - a) else a

/-! ## Residues -/

theorem e_natCast (a : ℕ) : e a = a % bn254r := by
  have hneg : ¬ (a : ℤ) < 0 := by omega
  rw [e, if_neg hneg, Int.natAbs_natCast]
  by_cases h : bn254r ≤ a
  · rw [if_pos h]
  · rw [if_neg h, Nat.mod_eq_of_lt (Nat.lt_of_not_le h)]

theorem e_of_lt {a : ℕ} (h : a < bn254r) : e a = a := by
  rw [e_natCast, Nat.mod_eq_of_lt h]

theorem e_lt (a : ℕ) : e a < bn254r := by
  rw [e_natCast]
  exact Nat.mod_lt _ (by decide)

theorem e_e (a : ℕ) : e (e (a : ℤ) : ℕ) = e a := e_of_lt (e_lt a)

/-- Residues are told apart by their text. -/
theorem toString_inj {a b : ℕ} (ha : a < bn254r) (hb : b < bn254r)
    (h : toString a = toString b) : a = b := by
  unfold toString at h
  by_cases h1 : half < a <;> by_cases h2 : half < b
  · rw [if_pos h1, if_pos h2] at h
    omega
  · rw [if_pos h1, if_neg h2] at h
    omega
  · rw [if_neg h1, if_pos h2] at h
    omega
  · rw [if_neg h1, if_neg h2] at h
    omega

theorem e_eq_val (a : ℕ) : e a = (a : F).val := by
  rw [e_natCast, ZMod.val_natCast]

@[simp] theorem e_val (x : F) : e (x.val : ℤ) = x.val := e_of_lt x.val_lt

/-! ## Operations -/

@[simp] theorem add_val (x y : F) : add x.val y.val = (x + y).val := by
  have hx := x.val_lt
  have hy := y.val_lt
  show (if bn254r ≤ x.val + y.val then x.val + y.val - bn254r else x.val + y.val) = _
  rw [ZMod.val_add]
  by_cases h : bn254r ≤ x.val + y.val
  · rw [if_pos h, Nat.mod_eq_sub_mod h, Nat.mod_eq_of_lt (by omega)]
  · rw [if_neg h, Nat.mod_eq_of_lt (by omega)]

@[simp] theorem mul_val (x y : F) : mul x.val y.val = (x * y).val :=
  (ZMod.val_mul x y).symm

@[simp] theorem square_val (x : F) : square x.val = (x * x).val := mul_val x x

@[simp] theorem sub_val (x y : F) : sub x.val y.val = (x - y).val := by
  have hx := x.val_lt
  have hy := y.val_lt
  rw [sub]
  by_cases h : y.val ≤ x.val
  · rw [if_pos h, ZMod.val_sub h]
  · -- the difference is the residue that `y` completes to `x`
    rw [if_neg h]
    have hlt : bn254r - y.val + x.val < bn254r := by omega
    have hcast : ((bn254r - y.val + x.val : ℕ) : F) = x - y := by
      rw [Nat.cast_add, Nat.cast_sub (Nat.le_of_lt hy), ZMod.natCast_self,
        ZMod.natCast_zmod_val, ZMod.natCast_zmod_val]
      ring
    rw [← hcast, ZMod.val_natCast, Nat.mod_eq_of_lt hlt]

/-! ## The inverse -/

/-- The invariant of `invLoop` on the way to the inverse of `a` modulo `p`. -/
structure InvState (p : ℕ) (a t : ℤ) (r : ℕ) (newt : ℤ) (newr : ℕ) : Prop where
  bezout : (r : ℤ) ≡ t * a [ZMOD p]
  bezout' : (newr : ℤ) ≡ newt * a [ZMOD p]
  lt : newr < r
  /-- The cofactors alternate in sign, so their products with the remainders add
      up to the modulus. -/
  sign : t * newt ≤ 0
  area : |t| * newr + |newt| * r = p

theorem InvState.step {p : ℕ} {a t newt : ℤ} {r newr : ℕ} (h : InvState p a t r newt newr)
    (hne : newr ≠ 0) :
    InvState p a newt newr (t - (r / newr : ℕ) * newt) (r - r / newr * newr) := by
  obtain ⟨q, hq⟩ : ∃ q, r / newr = q := ⟨_, rfl⟩
  have hle : q * newr ≤ r := hq ▸ Nat.div_mul_le_self r newr
  have hcast : ((r - q * newr : ℕ) : ℤ) = r - q * newr := by
    rw [Nat.cast_sub hle, Nat.cast_mul]
  have hlt : r - q * newr < newr := by
    rw [← hq, ← Nat.mod_eq_sub_div_mul]
    exact Nat.mod_lt r (Nat.pos_of_ne_zero hne)
  rw [hq]
  have habs : |t - q * newt| = |t| + q * |newt| := by
    have hopp : t * (q * newt) ≤ 0 := by
      rw [mul_left_comm]
      exact mul_nonpos_of_nonneg_of_nonpos (Int.natCast_nonneg q) h.sign
    rw [sub_eq_add_neg, abs_add_eq_add_abs_iff t (-(q * newt)) |>.mpr ?_, abs_neg, abs_mul,
      Nat.abs_cast]
    rcases mul_nonpos_iff.mp hopp with ⟨h₁, h₂⟩ | ⟨h₁, h₂⟩
    · exact Or.inl ⟨h₁, by omega⟩
    · exact Or.inr ⟨h₁, by omega⟩
  refine ⟨h.bezout', ?_, hlt, ?_, ?_⟩
  · rw [hcast, sub_mul, mul_assoc]
    exact h.bezout.sub (h.bezout'.mul_left q)
  · rw [mul_sub]
    have h₁ := h.sign
    have h₂ : 0 ≤ newt * (q * newt) := by
      rw [mul_left_comm]
      exact mul_nonneg (Int.natCast_nonneg q) (mul_self_nonneg newt)
    rw [mul_comm newt t]
    omega
  · rw [habs, hcast, ← h.area]
    ring

/-- While the loop goes on, the remainder before the next one is at least two. -/
theorem InvState.abs_lt {p : ℕ} {a t newt : ℤ} {r newr : ℕ} (hp : 0 < p)
    (h : InvState p a t r newt newr) (hne : newr ≠ 0) : |newt| < p := by
  have hr : (2 : ℤ) ≤ r := by
    have := h.lt
    omega
  have hprod : |newt| * 2 ≤ |newt| * r := mul_le_mul_of_nonneg_left hr (abs_nonneg newt)
  have hrest : 0 ≤ |t| * newr := mul_nonneg (abs_nonneg t) (Int.natCast_nonneg newr)
  have harea := h.area
  omega

/-- **THE LOOP ENDS IN A COFACTOR OF THE GREATEST COMMON DIVISOR**, a small one. -/
theorem InvState.loop {p : ℕ} {a t newt : ℤ} {r newr : ℕ} (hp : 0 < p)
    (h : InvState p a t r newt newr) (ht : |t| < p) :
    (Nat.gcd r newr : ℤ) ≡ invLoop t r newt newr * a [ZMOD p] ∧
      |invLoop t r newt newr| < p := by
  fun_induction invLoop t r newt newr with
  | case1 t r newt =>
      rw [Nat.gcd_zero_right]
      exact ⟨h.bezout, ht⟩
  | case2 t r newt newr hne q ih =>
      have hgcd : Nat.gcd newr (r - q * newr) = Nat.gcd r newr := by
        rw [← Nat.mod_eq_sub_div_mul, Nat.gcd_comm newr, ← Nat.gcd_rec, Nat.gcd_comm]
      rw [← hgcd]
      exact ih (h.step hne) (h.abs_lt hp hne)

theorem InvState.start {p a : ℕ} (ha : a < p) : InvState p a 0 p 1 a where
  bezout := by
    rw [zero_mul]
    exact Int.modEq_zero_iff_dvd.mpr (dvd_refl _)
  bezout' := by rw [one_mul]
  lt := ha
  sign := by rw [zero_mul]
  area := by rw [abs_zero, zero_mul, zero_add, abs_one, one_mul]

/-- The last step of `inv` takes the cofactor to its residue. -/
theorem toNat_cofactor {p : ℕ} [NeZero p] {t : ℤ} (h : |t| < p) :
    (if t < 0 then t + p else t).toNat = (t : ZMod p).val := by
  obtain ⟨hlo, hhi⟩ := abs_lt.mp h
  have hmod : (if t < 0 then t + p else t) = t % p := by
    by_cases hneg : t < 0
    · rw [if_pos hneg, ← Int.add_emod_right, Int.emod_eq_of_lt (by omega) (by omega)]
    · rw [if_neg hneg, Int.emod_eq_of_lt (by omega) hhi]
  rw [hmod, ← ZMod.val_intCast, Int.toNat_natCast]

/-- **THE COFACTOR THAT THE LOOP ENDS IN**, for a prime. -/
theorem cofactor_val {p : ℕ} [Fact p.Prime] {x : ZMod p} (hx : x ≠ 0) :
    (if invLoop 0 p 1 x.val < 0 then invLoop 0 p 1 x.val + p
      else invLoop 0 p 1 x.val).toNat = x⁻¹.val := by
  have hp : p.Prime := Fact.out
  have hcoprime : Nat.gcd p x.val = 1 :=
    Nat.coprime_of_lt_prime ((ZMod.val_ne_zero x).mpr hx) x.val_lt hp
  obtain ⟨hbezout, hlt⟩ := (InvState.start x.val_lt).loop hp.pos
    (by rw [abs_zero]; exact_mod_cast hp.pos)
  obtain ⟨t, ht⟩ : ∃ t, invLoop 0 p 1 x.val = t := ⟨_, rfl⟩
  rw [ht, hcoprime] at hbezout
  rw [ht] at hlt ⊢
  have hinv : (t : ZMod p) = x⁻¹ := by
    have hone : ((t * x.val : ℤ) : ZMod p) = ((1 : ℕ) : ℤ) :=
      ((ZMod.intCast_eq_intCast_iff _ _ _).mpr hbezout).symm
    rw [Int.cast_mul, Int.cast_natCast, ZMod.natCast_zmod_val, Int.cast_natCast,
      Nat.cast_one] at hone
    exact eq_inv_of_mul_eq_one_left hone
  rw [toNat_cofactor hlt, hinv]

/-- **THE INVERSE.** -/
theorem inv_val {x : F} (hx : x ≠ 0) : inv x.val = .ok x⁻¹.val := by
  rw [inv, if_neg ((ZMod.val_ne_zero x).mpr hx), Nat.mod_eq_of_lt x.val_lt]
  exact congrArg Except.ok (cofactor_val hx)

theorem div_val (x : F) {y : F} (hy : y ≠ 0) : div x.val y.val = .ok (x / y).val := by
  rw [div, inv_val hy]
  show Except.ok (mul x.val y⁻¹.val) = _
  rw [mul_val, div_eq_mul_inv]

end F1Field

end Albus.Core
