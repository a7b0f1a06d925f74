import Albus.Field
import Albus.Lib.Bits

/-! # The templates of circomlib

    The circuits instantiate templates of the circomlib package, which is not part
    of the repository.  A template is taken as the relation its constraints impose
    on its inputs and outputs: "some assignment of its internal signals satisfies
    them".  What is relied on is stated as hypotheses, `Circomlib.Arithmetic` for
    the bit and comparison templates.

    Signal arrays are functions on `ℕ`, read below their declared length.  A
    comparison template is told apart from the comparison it computes: it is
    specified on operands below `2 ^ n` only. -/

namespace Albus.Circuits

open Albus.Lib

/-- The inputs of `SMTVerifier(nLevels)`. -/
structure SMTVerifierInput where
  enabled : F
  root : F
  siblings : ℕ → F
  oldKey : F
  oldValue : F
  isOld0 : F
  key : F
  value : F
  fnc : F

/-- The inputs of `EdDSAPoseidonVerifier`. -/
structure EdDSAInput where
  enabled : F
  Ax : F
  Ay : F
  S : F
  R8x : F
  R8y : F
  M : F
  deriving DecidableEq

/-- The constraints of the instantiated templates. -/
structure Circomlib where
  /-- `Num2Bits(n)`: `in`, `out`. -/
  num2Bits : ℕ → F → (ℕ → F) → Prop
  /-- `Bits2Num(n)`: `in`, `out`. -/
  bits2Num : ℕ → (ℕ → F) → F → Prop
  /-- `IsEqual()`: `in[0]`, `in[1]`, `out`. -/
  isEqual : F → F → F → Prop
  /-- `AND()`: `a`, `b`, `out`. -/
  and : F → F → F → Prop
  /-- `LessThan(n)`: `in[0]`, `in[1]`, `out`; the next three alike. -/
  lessThan : ℕ → F → F → F → Prop
  lessEqThan : ℕ → F → F → F → Prop
  greaterThan : ℕ → F → F → F → Prop
  greaterEqThan : ℕ → F → F → F → Prop
  /-- `Poseidon(n)`: `inputs`, `out`. -/
  poseidon : List F → F → Prop
  /-- `PoseidonEx(n, nOuts)`: `inputs`, `initialState`, `out`. -/
  poseidonEx : List F → F → List F → Prop
  /-- `BabyPbk()`: `in`, `Ax`, `Ay`. -/
  babyPbk : F → F → F → Prop
  /-- `EscalarMulAny(n)`: `e`, `p`, `out`. -/
  escalarMulAny : ℕ → (ℕ → F) → F × F → F × F → Prop
  eddsaPoseidonVerifier : EdDSAInput → Prop
  /-- `SMTVerifier(nLevels)`. -/
  smtVerifier : ℕ → SMTVerifierInput → Prop

/-- A truth value as a signal. -/
def ofProp (p : Prop) [Decidable p] : F := if p then 1 else 0

/-- **WHAT THE BIT AND COMPARISON TEMPLATES ARE RELIED ON FOR.** -/
structure Circomlib.Arithmetic (lib : Circomlib) : Prop where
  num2Bits : ∀ n x bits, lib.num2Bits n x bits ↔ IsBits n bits ∧ weighted n bits = x
  bits2Num : ∀ n bits out, lib.bits2Num n bits out ↔ out = weighted n bits
  isEqual : ∀ a b out, lib.isEqual a b out ↔ out = ofProp (a = b)
  and : ∀ p q [Decidable p] [Decidable q] out,
    lib.and (ofProp p) (ofProp q) out ↔ out = ofProp (p ∧ q)
  lessThan : ∀ n a b out, n ≤ 252 → a.val < 2 ^ n → b.val < 2 ^ n →
    (lib.lessThan n a b out ↔ out = ofProp (a.val < b.val))
  lessEqThan : ∀ n a b out, n ≤ 252 → a.val < 2 ^ n → b.val < 2 ^ n →
    (lib.lessEqThan n a b out ↔ out = ofProp (a.val ≤ b.val))
  greaterThan : ∀ n a b out, n ≤ 252 → a.val < 2 ^ n → b.val < 2 ^ n →
    (lib.greaterThan n a b out ↔ out = ofProp (b.val < a.val))
  greaterEqThan : ∀ n a b out, n ≤ 252 → a.val < 2 ^ n → b.val < 2 ^ n →
    (lib.greaterEqThan n a b out ↔ out = ofProp (b.val ≤ a.val))

@[simp] theorem ofProp_eq_one_iff (p : Prop) [Decidable p] : ofProp p = 1 ↔ p := by
  unfold ofProp
  by_cases h : p <;> simp [h]

@[simp] theorem ofProp_eq_zero_iff (p : Prop) [Decidable p] : ofProp p = 0 ↔ ¬ p := by
  unfold ofProp
  by_cases h : p <;> simp [h]

theorem ofProp_eq_cast (p : Prop) [Decidable p] :
    ofProp p = ((if p then 1 else 0 : ℕ) : F) := by
  unfold ofProp
  by_cases h : p <;> simp [h]

/-! ## Reference constraints

    The bit and comparison templates by their specification, a comparison with
    an operand out of range being unsatisfiable; the curve and hash templates by
    a table of tuples that satisfy them. -/

/-- Tuples of the curve and hash templates. -/
structure CryptoTable where
  poseidon : List (List F × F)
  poseidonEx : List (List F × F × List F)
  babyPbk : List (F × F × F)
  escalarMulAny : List (List F × (F × F) × (F × F))
  eddsa : List EdDSAInput
  /-- `siblings`, `key`, `value`, `root` of an inclusion. -/
  smtInclusion : List (List F × F × F × F)

def CryptoTable.empty : CryptoTable := ⟨[], [], [], [], [], []⟩

/-- Both operands of a comparison are in range. -/
def InRange (n : ℕ) (a b : F) : Prop := n ≤ 252 ∧ a.val < 2 ^ n ∧ b.val < 2 ^ n

instance (n : ℕ) (a b : F) : Decidable (InRange n a b) :=
  inferInstanceAs (Decidable (_ ∧ _ ∧ _))

def Circomlib.reference (table : CryptoTable) : Circomlib where
  num2Bits n x bits := IsBits n bits ∧ weighted n bits = x
  bits2Num n bits out := out = weighted n bits
  isEqual a b out := out = ofProp (a = b)
  and a b out := out = a * b
  lessThan n a b out := InRange n a b ∧ out = ofProp (a.val < b.val)
  lessEqThan n a b out := InRange n a b ∧ out = ofProp (a.val ≤ b.val)
  greaterThan n a b out := InRange n a b ∧ out = ofProp (b.val < a.val)
  greaterEqThan n a b out := InRange n a b ∧ out = ofProp (b.val ≤ a.val)
  poseidon inputs out := (inputs, out) ∈ table.poseidon
  poseidonEx inputs initialState out := (inputs, initialState, out) ∈ table.poseidonEx
  babyPbk x ax ay := (x, ax, ay) ∈ table.babyPbk
  escalarMulAny n e p out :=
    ((List.range n).map e, p, out) ∈ table.escalarMulAny
  eddsaPoseidonVerifier input := input ∈ table.eddsa
  smtVerifier nLevels i :=
    i.enabled = 1 ∧ i.fnc = 0 ∧
      ((List.range nLevels).map i.siblings, i.key, i.value, i.root)
        ∈ table.smtInclusion

theorem Circomlib.reference_arithmetic (table : CryptoTable) :
    (reference table).Arithmetic where
  num2Bits _ _ _ := Iff.rfl
  bits2Num _ _ _ := Iff.rfl
  isEqual _ _ _ := Iff.rfl
  and p q _ _ out := by
    show out = ofProp p * ofProp q ↔ _
    have hmul : ofProp p * ofProp q = ofProp (p ∧ q) := by
      unfold ofProp
      by_cases hp : p <;> by_cases hq : q <;> simp [hp, hq]
    rw [hmul]
  lessThan n a b out hn ha hb := and_iff_right ⟨hn, ha, hb⟩
  lessEqThan n a b out hn ha hb := and_iff_right ⟨hn, ha, hb⟩
  greaterThan n a b out hn ha hb := and_iff_right ⟨hn, ha, hb⟩
  greaterEqThan n a b out hn ha hb := and_iff_right ⟨hn, ha, hb⟩

end Albus.Circuits
