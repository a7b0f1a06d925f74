import Albus.Groth16.Poly
import Albus.Lib.Primality
import Albus.Lib.WhileLoop
import Mathlib.Tactic.NormNum.Prime

/-! # The transforms on vectors

    What `poly.rs` says of its transforms is about vectors: `fft` evaluates, `ifft` undoes it,
    and so on the coset.  It follows from what they do to polynomials, since every vector
    of the domain's size holds the coefficients of one and the values of another
    (`transforms_correct`).  Lengths are words of 32 bits inside `fft`, and of 64 in
    `fft_params`: the one refuses longer vectors, the other stops only up to `2 ^ 63`. -/

namespace Albus.Groth16

open Polynomial Albus.Lib

section Transforms

variable {F : Type} [Field F]

/-! ## The parameters -/

/-- The body of the loop `while m < l`, on words. -/
def growBody (s : ℕ × ℕ) : ℕ × ℕ := ((s.1 <<< 1) % 2 ^ 64, (s.2 + 1) % 2 ^ 32)

/-- `fft_params(l)` returns this. -/
def FftParamsReturns (fr : PrimeField F) (l : ℕ) (result : F × ℕ × ℕ) : Prop :=
  ∃ k s, Ends (fun s : ℕ × ℕ => s.1 < l) growBody k (1, 0) s ∧
    result = ((fun omega => omega ^ 2)^[fr.S - s.2] fr.rootOfUnity, s.1, s.2)

/-- While the size is below `2 ^ 63` it fits, and its logarithm with it. -/
theorem growBody_two_pow {s : ℕ} (hs : s < 63) : growBody (2 ^ s, s) = (2 ^ (s + 1), s + 1) := by
  have hm : 2 ^ (s + 1) < 2 ^ 64 := Nat.pow_lt_pow_right Nat.one_lt_two (by omega)
  rw [growBody, Nat.shiftLeft_eq, ← pow_succ, Nat.mod_eq_of_lt hm, Nat.mod_eq_of_lt (by omega)]

theorem grow_ends {l s d : ℕ} (hl : l ≤ 2 ^ 63) (hd : s + d = domainExp l) :
    Ends (fun s : ℕ × ℕ => s.1 < l) growBody d (2 ^ s, s) (2 ^ domainExp l, domainExp l) := by
  induction d generalizing s with
  | zero =>
    obtain rfl : s = domainExp l := hd
    exact Ends.stop (Nat.not_lt_of_le (le_two_pow_domainExp l))
  | succ d ih =>
    have hgrow : 2 ^ s < l := by
      rw [← Nat.not_le, ← domainExp_le]
      omega
    have hs : s < 63 := by
      have hle := domainExp_le.mpr hl
      omega
    refine Ends.round hgrow ?_
    rw [growBody_two_pow hs]
    exact ih (by omega)

/-- A size that is doubled beyond the word is zero ever after. -/
def PowerOrZero (s : ℕ × ℕ) : Prop := s.1 = 0 ∨ ∃ i ≤ 63, s.1 = 2 ^ i

theorem PowerOrZero.grow {s : ℕ × ℕ} (h : PowerOrZero s) : PowerOrZero (growBody s) := by
  obtain ⟨m, exp⟩ := s
  rcases h with hm | ⟨i, hi, hm⟩
  · obtain rfl : m = 0 := hm
    exact Or.inl rfl
  · obtain rfl : m = 2 ^ i := hm
    rcases Nat.lt_or_ge i 63 with hlt | hge
    · have hfits : 2 ^ (i + 1) < 2 ^ 64 := Nat.pow_lt_pow_right Nat.one_lt_two (by omega)
      refine Or.inr ⟨i + 1, hlt, ?_⟩
      rw [growBody, Nat.shiftLeft_eq, ← pow_succ, Nat.mod_eq_of_lt hfits]
    · obtain rfl : i = 63 := le_antisymm hi hge
      have hover : (2 ^ 63 <<< 1) % 2 ^ 64 = 0 := by decide
      exact Or.inl hover

theorem PowerOrZero.le {s : ℕ × ℕ} (h : PowerOrZero s) : s.1 ≤ 2 ^ 63 := by
  rcases h with hzero | ⟨i, hi, hpow⟩
  · rw [hzero]
    exact Nat.zero_le _
  · rw [hpow]
    exact Nat.pow_le_pow_right Nat.two_pos hi

theorem grow_never_ends {l : ℕ} (hl : 2 ^ 63 < l) (k : ℕ) (s : ℕ × ℕ) :
    ¬ Ends (fun s : ℕ × ℕ => s.1 < l) growBody k (1, 0) s := by
  intro h
  have hstart : PowerOrZero (1, 0) := Or.inr ⟨0, Nat.zero_le 63, rfl⟩
  have hend : PowerOrZero s := h.invariant (fun _ _ hs => PowerOrZero.grow hs) hstart
  exact h.not_test (lt_of_le_of_lt hend.le hl)

/-- **WHAT `fft_params` RETURNS**, and when. -/
theorem fftParamsReturns_iff {fr : PrimeField F} {l : ℕ} {result : F × ℕ × ℕ} :
    FftParamsReturns fr l result ↔ l ≤ 2 ^ 63 ∧ result = fftParams fr l := by
  have hresult : ((fun omega => omega ^ 2)^[fr.S - domainExp l] fr.rootOfUnity, 2 ^ domainExp l,
      domainExp l) = fftParams fr l := by
    rw [fftParams_eq, iterate_square, domainRoot]
  constructor
  · rintro ⟨k, s, hends, rfl⟩
    have hl : l ≤ 2 ^ 63 := by
      by_contra hlarge
      exact grow_never_ends (Nat.lt_of_not_le hlarge) k s hends
    rw [hends.unique (grow_ends hl (Nat.zero_add _))]
    exact ⟨hl, hresult⟩
  · rintro ⟨hl, rfl⟩
    exact ⟨domainExp l, (2 ^ domainExp l, domainExp l), grow_ends hl (Nat.zero_add _),
      hresult.symm⟩

/-- The least power of two from `l` on, and its logarithm. -/
structure LeastPower (l m exp : ℕ) : Prop where
  power : m = 2 ^ exp
  le : l ≤ m
  least : ∀ i, l ≤ 2 ^ i → m ≤ 2 ^ i

theorem leastPower_domain (l : ℕ) : LeastPower l (2 ^ domainExp l) (domainExp l) where
  power := rfl
  le := le_two_pow_domainExp l
  least _ hi := Nat.pow_le_pow_right Nat.two_pos (domainExp_le.mpr hi)

/-! ## Vectors as polynomials -/

/-- The values `∑ⱼ a[j] * omega ^ (i * j)`. -/
def transform (omega : F) (a : List F) : List F :=
  (List.range a.length).map fun i =>
    ∑ j ∈ Finset.range a.length, a.getD j 0 * omega ^ (i * j)

/-- The polynomial with these coefficients. -/
noncomputable def polynomial (a : List F) : F[X] := ofCoefficients a.length fun j => a.getD j 0

variable {e : ℕ} {omega : F} {a : List F}

theorem degree_polynomial_lt (ha : a.length = 2 ^ e) :
    (polynomial a).degree < (2 ^ e : ℕ) := by
  rw [← ha]
  exact degree_ofCoefficients_lt _ _

theorem coefficients_polynomial (ha : a.length = 2 ^ e) : coefficients e (polynomial a) = a := by
  refine List.ext_getElem (by rw [length_coefficients, ha]) ?_
  intro i _ hi
  simp only [coefficients, List.getElem_map, List.getElem_range]
  rw [polynomial, coeff_ofCoefficients, if_pos hi, List.getD_eq_getElem _ _ hi]

theorem transform_eq (ha : a.length = 2 ^ e) :
    transform omega a = cosetValues e omega 1 (polynomial a) := by
  rw [transform, ha]
  refine List.map_congr_left ?_
  intro i _
  rw [one_mul, polynomial, ha, eval_ofCoefficients]
  refine Finset.sum_congr rfl ?_
  intro j _
  rw [pow_mul]

@[simp] theorem length_scalePowers (g u : F) (a : List F) :
    (scalePowers g u a).length = a.length := by
  induction a generalizing u with
  | nil => rfl
  | cons x a ih => rw [scalePowers, List.length_cons, List.length_cons, ih]

variable [DecidableEq F]

/-! ## The transforms -/

/-- What the transforms are for. -/
structure TransformsCorrect (fr : PrimeField F) (e : ℕ) (omega : F) (a : List F) : Prop where
  fft_eq : fft a omega e = some (transform omega a)
  ifft_fft : (fft a omega e).bind (ifft · omega e) = some a
  fft_ifft : (ifft a omega e).bind (fft · omega e) = some a
  coset_fft_eq : cosetFft fr a omega e = some ((List.range a.length).map fun i =>
    (polynomial a).eval (fr.multiplicativeGenerator * omega ^ i))
  icoset_fft_coset_fft : (cosetFft fr a omega e).bind (icosetFft fr · omega e) = some a

theorem transformsCorrect (fr : PrimeField F) (homega : IsPrimitiveRoot omega (2 ^ e))
    (ha : a.length = 2 ^ e) (he : e < 32) : TransformsCorrect fr e omega a := by
  have hdegree := degree_polynomial_lt ha
  have hcoefficients := coefficients_polynomial ha
  have hfft := fft_coefficients he homega hdegree
  have hcoset := cosetFft_coefficients fr he homega hdegree
  rw [hcoefficients] at hfft hcoset
  obtain ⟨p, hp, hvalues⟩ := exists_values homega ha
  refine ⟨?_, ?_, ?_, ?_, ?_⟩
  · rw [hfft, transform_eq ha]
  · rw [hfft, Option.bind_some, ifft_values he homega hdegree, hcoefficients]
  · rw [hvalues, ifft_values he homega hp, Option.bind_some, fft_coefficients he homega hp]
  · rw [hcoset, ha, cosetValues]
  · rw [hcoset, Option.bind_some, icosetFft_values fr he homega hdegree, hcoefficients]

/-- All transforms panic. -/
structure TransformsRefuse (fr : PrimeField F) (e : ℕ) (omega : F) (a : List F) : Prop where
  fft_none : fft a omega e = none
  ifft_none : ifft a omega e = none
  coset_fft_none : cosetFft fr a omega e = none
  icoset_fft_none : icosetFft fr a omega e = none

theorem transformsRefuse (fr : PrimeField F) (homega : IsPrimitiveRoot omega (2 ^ e))
    (a : List F) (he : 32 ≤ e) : TransformsRefuse fr e omega a := by
  have hzero : omega ≠ 0 := homega.ne_zero (Nat.two_pow_pos e).ne'
  have hinverse : ifft a omega e = none := by
    simp only [ifft, invert, if_neg hzero, fft_none he, Option.bind_eq_bind, Option.bind_some,
      Option.bind_none]
  refine ⟨fft_none he a omega, hinverse, fft_none he _ omega, ?_⟩
  rw [icosetFft, hinverse]
  rfl

/-- **THE TRANSFORMS**, on every vector of the domain's size up to 31 bits (longer ones are
    refused), and the parameters of every domain that the field has. -/
theorem transforms_correct (fr : PrimeField F) (homega : IsPrimitiveRoot omega (2 ^ e))
    (ha : a.length = 2 ^ e) (l : ℕ) :
    (e < 32 → TransformsCorrect fr e omega a) ∧ (32 ≤ e → TransformsRefuse fr e omega a) ∧
      (l ≤ 2 ^ 63 → ∃! result, FftParamsReturns fr l result) ∧
      ∀ root m exp, FftParamsReturns fr l (root, m, exp) →
        LeastPower l m exp ∧ (l ≤ 2 ^ fr.S → IsPrimitiveRoot root m) := by
  refine ⟨transformsCorrect fr homega ha, transformsRefuse fr homega a, ?_, ?_⟩
  · intro hl
    exact ⟨fftParams fr l, fftParamsReturns_iff.mpr ⟨hl, rfl⟩,
      fun result hresult => (fftParamsReturns_iff.mp hresult).2⟩
  · intro root m exp hreturns
    have hresult := (fftParamsReturns_iff.mp hreturns).2
    rw [fftParams_eq] at hresult
    obtain ⟨rfl, rfl, rfl⟩ : root = domainRoot fr l ∧ m = 2 ^ domainExp l ∧ exp = domainExp l := by
      simpa only [Prod.mk.injEq] using hresult
    exact ⟨leastPower_domain l, domainRoot_primitive fr⟩

end Transforms

/-! ## The field of the tests -/

namespace TestField

/-- The order of the scalar field of BLS12-381. -/
def modulus : ℕ := 52435875175126190479447740508185965837690552500527637822603658699938581184513

/-- The primes a trial division settles. -/
def smallFactors : List ℕ :=
  [2, 3, 11, 19, 43, 10177, 125527, 609743, 859267, 906349, 2508409, 2529403, 2653753]

/-- The larger ones, and the order. -/
def factorTable : List Lucas :=
  [⟨52437899, 2, [(2, 1), (43, 1), (609743, 1)]⟩,
    ⟨63690073, 7, [(2, 3), (3, 1), (2653753, 1)]⟩,
    ⟨254760293, 2, [(2, 2), (63690073, 1)]⟩,
    ⟨modulus, 7,
      [(2, 32), (3, 1), (11, 1), (19, 1), (10177, 1), (125527, 1), (859267, 1), (906349, 2),
        (2508409, 1), (2529403, 1), (52437899, 1), (254760293, 2)]⟩]

theorem prime_of_smallFactors : ∀ p ∈ smallFactors, p.Prime := by
  simp only [smallFactors, List.forall_mem_cons]
  norm_num

theorem generator : modulus.Prime ∧ IsPrimitiveRoot ((7 : ℕ) : ZMod modulus) (modulus - 1) := by
  have hchecked : Lucas.Checked 32 smallFactors factorTable := by
    decide +kernel
  exact Lucas.generator_of_checked hchecked prime_of_smallFactors
    ⟨modulus, 7, _⟩ (List.getLast_mem (List.cons_ne_nil _ _))

instance : Fact modulus.Prime := ⟨generator.1⟩

/-- Seven generates the group, which has `2 ^ 32`-th roots of unity. -/
def field : PrimeField (ZMod modulus) where
  S := 32
  rootOfUnity := ((7 : ℕ) : ZMod modulus) ^ ((modulus - 1) / 2 ^ 32)
  multiplicativeGenerator := ((7 : ℕ) : ZMod modulus)
  rootOfUnity_primitive := by
    refine generator.2.pow (by decide) ?_
    decide
  generator_ne_zero := generator.2.ne_zero (by decide)
  generator_powers := fun _ hx => exists_pow_eq generator.2 hx

end TestField

/-- Two coefficients, and a domain of two. -/
theorem transforms_correct_two :
    (1 < 32 → TransformsCorrect TestField.field 1 (-1) [1, 2]) ∧
      (32 ≤ 1 → TransformsRefuse TestField.field 1 (-1) [1, 2]) ∧
      (2 ≤ 2 ^ 63 → ∃! result, FftParamsReturns TestField.field 2 result) ∧
      ∀ root m exp, FftParamsReturns TestField.field 2 (root, m, exp) →
        LeastPower 2 m exp ∧ (2 ≤ 2 ^ TestField.field.S → IsPrimitiveRoot root m) :=
  transforms_correct TestField.field (IsPrimitiveRoot.neg_one TestField.modulus (by decide)) rfl 2

/-- **TOO LONG FOR 32 BITS, TOO LONG FOR THE FIELD**: a vector of `2 ^ 32` zeros is refused,
    though the field has a root of unity for it; for `2 ^ 32 + 1` values the parameters are
    of a domain that the field does not have. -/
theorem transforms_bounded :
    (IsPrimitiveRoot TestField.field.rootOfUnity (2 ^ 32) ∧
      (List.replicate (2 ^ 32) (0 : ZMod TestField.modulus)).length = 2 ^ 32 ∧
      fft (List.replicate (2 ^ 32) 0) TestField.field.rootOfUnity 32 = none) ∧
    FftParamsReturns TestField.field (2 ^ 32 + 1) (TestField.field.rootOfUnity, 2 ^ 33, 33) ∧
      ¬ IsPrimitiveRoot TestField.field.rootOfUnity (2 ^ 33) := by
  have hroot : IsPrimitiveRoot TestField.field.rootOfUnity (2 ^ 32) :=
    TestField.field.rootOfUnity_primitive
  have hexp : domainExp (2 ^ 32 + 1) = 33 := by
    refine le_antisymm (domainExp_le.mpr (by decide)) ?_
    by_contra hle
    have hsmall : 2 ^ 32 + 1 ≤ 2 ^ 32 := domainExp_le.mp (Nat.lt_succ_iff.mp (Nat.lt_of_not_le hle))
    omega
  refine ⟨⟨hroot, List.length_replicate, fft_none (Nat.le_refl 32) _ _⟩, ?_, ?_⟩
  · rw [fftParamsReturns_iff, fftParams_eq, hexp, domainRoot, hexp]
    refine ⟨by decide, ?_⟩
    exact congrArg (·, 2 ^ 33, 33) (pow_one _).symm
  · intro h
    exact absurd (h.unique hroot) (by decide)

end Albus.Groth16
