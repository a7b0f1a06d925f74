import Albus.Groth16.Poly
import Mathlib.Algebra.BigOperators.Group.List.Basic

/-! # The prover (`crates/groth16/src/lib.rs`, `crates/groth16/src/prover.rs`)

    A QAP is held by variables: each row names one and lists its coefficients with the
    constraints they are for.  The prover adds the rows up into the values of three
    polynomials, divides, and weighs the parameters by what it finds.

    Points are elements of a module over the field.  A panic is `none`. -/

namespace Albus.Groth16

open scoped Polynomial
open Albus.Lib

/-- `Proof`. -/
structure Proof (G₁ G₂ : Type) where
  a : G₁
  b : G₂
  c : G₁

/-- `VerificationKey`. -/
structure VerificationKey (G₁ G₂ : Type) where
  alphaG1 : G₁
  betaG1 : G₁
  betaG2 : G₂
  gammaG2 : G₂
  deltaG1 : G₁
  deltaG2 : G₂
  ic : List G₁

/-- `Parameters`. -/
structure Parameters (G₁ G₂ : Type) where
  vk : VerificationKey G₁ G₂
  h : List G₁
  l : List G₁
  aG1 : List G₁
  bG1 : List G₁
  bG2 : List G₂

/-- A variable's coefficients, each with the constraint it is for. -/
abbrev Rows (F : Type) := List (ℕ × List (F × ℕ))

/-- `QAP`. -/
structure QAP (F : Type) where
  a : Rows F
  b : Rows F
  c : Rows F
  aConstraints : List ℕ
  bConstraints : List ℕ

section Prover

variable {F : Type} [Field F]

/-- `output[u].add_assign(x)`. -/
def addAssign (output : List F) (u : ℕ) (x : F) : Option (List F) :=
  if u < output.length then some (output.set u (output.getD u 0 + x)) else none

/-- `eval`. -/
def eval (inputAssignment auxAssignment output : List F) (input : Rows F) (p : ℕ) :
    Option (List F) :=
  input.foldlM (fun output (i, v) =>
    if i < p then
      v.foldlM (fun output (x, u) => do
        let value ← inputAssignment[i]?
        addAssign output u (x * value)) output
    else
      v.foldlM (fun output (x, u) => do
        let value ← auxAssignment[i - p]?
        addAssign output u (x * value)) output) output

/-- The block `let h = { .. }` of `create_proof`, as far as the truncation. -/
def quotientCoefficients [DecidableEq F] (fr : PrimeField F) (inputs aux : List F) (qap : QAP F)
    (numConstraints : ℕ) : Option (List F) := do
  let (omega, m, exp) := fftParams fr numConstraints
  let aT ← eval inputs aux (List.replicate m 0) qap.a inputs.length
  let bT ← eval inputs aux (List.replicate m 0) qap.b inputs.length
  let cT ← eval inputs aux (List.replicate m 0) qap.c inputs.length
  let aT ← cosetMulAssign fr aT bT
  let cT ← ifft cT omega exp
  let cT ← cosetFft fr cT omega exp
  let aT ← subEvalDomain aT cT
  let zinv ← invert (fr.multiplicativeGenerator ^ aT.length - 1)
  let aT ← icosetFft fr (aT.map (· * zinv)) omega exp
  return aT.take (aT.length - 1)

section Points

variable {G₁ G₂ G : Type} [AddCommGroup G₁] [Module F G₁] [AddCommGroup G₂] [Module F G₂]
  [AddCommGroup G] [Module F G]

/-- The rest of that block: `params.h[i]` is weighed with coefficient `i`. -/
def weighH (h : List G₁) (aT : List F) : Option G₁ :=
  aT.zipIdx.foldlM (fun acc (x, i) => do
    let t ← h[i]?
    return acc + x • t) 0

/-- The fold over a query and the variables it is listed for. -/
def weighQuery (query : List G) (constraints : List ℕ) (augmentedInputs : List F) : Option G :=
  (query.zip constraints).foldlM (fun acc (x, y) => do
    let value ← augmentedInputs[y]?
    return acc + value • x) 0

/-- `create_proof`. -/
def createProof [DecidableEq F] (fr : PrimeField F) (params : Parameters G₁ G₂)
    (inputs aux : List F) (r s : F) (qap : QAP F) (numConstraints : ℕ) :
    Option (Proof G₁ G₂) := do
  let aT ← quotientCoefficients fr inputs aux qap numConstraints
  let h ← weighH params.h aT
  if aux.length ≠ params.l.length then none
  let l := (params.l.zip aux).foldl (fun acc (x, y) => acc + y • x) 0
  let augmentedInputs := inputs ++ aux
  if params.aG1.length ≠ qap.aConstraints.length then none
  let atG1 ← weighQuery params.aG1 qap.aConstraints augmentedInputs
  if params.bG1.length ≠ qap.bConstraints.length then none
  let btG1 ← weighQuery params.bG1 qap.bConstraints augmentedInputs
  let btG2 ← weighQuery params.bG2 qap.bConstraints augmentedInputs
  let a := params.vk.alphaG1 + atG1 + r • params.vk.deltaG1
  let b := params.vk.betaG2 + btG2 + s • params.vk.deltaG2
  let c := r • (btG1 + s • params.vk.deltaG1 + params.vk.betaG1) + h + l + s • a
    - (r * s) • params.vk.deltaG1
  return ⟨a, b, c⟩

end Points

/-! ## What the rows add up to -/

/-- The coefficient that the rows give to variable `y` in constraint `u`. -/
def coefficient (rows : Rows F) (y u : ℕ) : F :=
  (rows.map fun row =>
    if row.1 = y then (row.2.map fun xu => if xu.2 = u then xu.1 else 0).sum else 0).sum

/-- The linear combination of constraint `u` over the variables, at an assignment. -/
def combination (rows : Rows F) (vars : ℕ) (x : ℕ → F) (u : ℕ) : F :=
  ∑ y ∈ Finset.range vars, coefficient rows y u * x y

/-- The assignment of the variables: the inputs first. -/
def assignment (inputs aux : List F) (y : ℕ) : F := (inputs ++ aux).getD y 0

/-- Every index names a variable, and a constraint. -/
def Rows.Fits (rows : Rows F) (vars n : ℕ) : Prop :=
  ∀ row ∈ rows, row.1 < vars ∧ ∀ xu ∈ row.2, xu.2 < n

instance (rows : Rows F) (vars n : ℕ) : Decidable (rows.Fits vars n) :=
  inferInstanceAs (Decidable (∀ row ∈ rows, _))

omit [Field F] in
theorem Rows.Fits.mono {rows : Rows F} {vars n m : ℕ} (h : rows.Fits vars n) (hnm : n ≤ m) :
    rows.Fits vars m :=
  fun row hrow => ⟨(h row hrow).1, fun xu hxu => ((h row hrow).2 xu hxu).trans_le hnm⟩

theorem coefficient_cons (row : ℕ × List (F × ℕ)) (rows : Rows F) (y u : ℕ) :
    coefficient (row :: rows) y u
      = (if row.1 = y then (row.2.map fun xu => if xu.2 = u then xu.1 else 0).sum else 0)
        + coefficient rows y u := by
  rw [coefficient, List.map_cons, List.sum_cons, coefficient]

/-- A row adds its own coefficients, at its own variable. -/
theorem combination_cons {row : ℕ × List (F × ℕ)} {vars : ℕ} (hrow : row.1 < vars) (rows : Rows F)
    (x : ℕ → F) (u : ℕ) :
    combination (row :: rows) vars x u
      = (row.2.map fun xu => if xu.2 = u then xu.1 * x row.1 else 0).sum
        + combination rows vars x u := by
  simp only [combination, coefficient_cons, add_mul, Finset.sum_add_distrib, ite_mul, zero_mul]
  rw [Finset.sum_ite_eq, if_pos (Finset.mem_range.mpr hrow), ← List.sum_map_mul_right]
  simp only [ite_mul, zero_mul]

/-- No constraint beyond those of the rows has a coefficient. -/
theorem coefficient_eq_zero {rows : Rows F} {vars n : ℕ} (h : rows.Fits vars n) (y : ℕ) {u : ℕ}
    (hu : n ≤ u) : coefficient rows y u = 0 := by
  refine List.sum_eq_zero ?_
  intro t ht
  obtain ⟨row, hrow, rfl⟩ := List.mem_map.mp ht
  split
  · refine List.sum_eq_zero ?_
    intro t ht
    obtain ⟨xu, hxu, rfl⟩ := List.mem_map.mp ht
    exact if_neg (ne_of_lt (((h row hrow).2 xu hxu).trans_le hu))
  · rfl

theorem assignment_inputs {inputs : List F} (aux : List F) {i : ℕ} (hi : i < inputs.length) :
    inputs[i]? = some (assignment inputs aux i) := by
  rw [assignment, List.getD_append _ _ _ _ hi, List.getD_eq_getElem _ _ hi,
    List.getElem?_eq_getElem hi]

theorem assignment_aux {inputs aux : List F} {i : ℕ} (hi : ¬ i < inputs.length)
    (hvars : i < inputs.length + aux.length) :
    aux[i - inputs.length]? = some (assignment inputs aux i) := by
  have hlt : i - inputs.length < aux.length := by omega
  rw [assignment, List.getD_append_right _ _ _ _ (not_lt.mp hi), List.getD_eq_getElem _ _ hlt,
    List.getElem?_eq_getElem hlt]

/-- One row of `eval`. -/
theorem foldlM_addAssign {v : List (F × ℕ)} {output : List F} (hv : ∀ xu ∈ v, xu.2 < output.length)
    (value : F) :
    ∃ out, v.foldlM (fun output (x, u) => addAssign output u (x * value)) output = some out ∧
      out.length = output.length ∧ ∀ u, out.getD u 0
        = output.getD u 0 + (v.map fun xu => if xu.2 = u then xu.1 * value else 0).sum := by
  induction v generalizing output with
  | nil => exact ⟨output, rfl, rfl, fun u => (add_zero _).symm⟩
  | cons xu v ih =>
    obtain ⟨x, t⟩ := xu
    have ht : t < output.length := hv (x, t) List.mem_cons_self
    obtain ⟨out, hout, hlength, hvalues⟩ := @ih (output.set t (output.getD t 0 + x * value))
      (fun xu hxu => by
        rw [List.length_set]
        exact hv xu (List.mem_cons_of_mem _ hxu))
    refine ⟨out, ?_, hlength.trans List.length_set, fun u => ?_⟩
    · have hfirst : addAssign output t (x * value)
          = some (output.set t (output.getD t 0 + x * value)) := if_pos ht
      simp only [List.foldlM_cons, hfirst, Option.bind_eq_bind, Option.bind_some]
      exact hout
    · rw [hvalues u, getD_set, List.map_cons, List.sum_cons]
      by_cases htu : t = u
      · rw [if_pos ⟨htu, ht⟩, if_pos htu, htu, add_assoc]
      · rw [if_neg (fun h => htu h.1), if_neg htu, zero_add]

/-- **EVAL**: the combinations of all constraints, added to what the vector held. -/
theorem eval_eq {inputs aux : List F} {rows : Rows F} {output : List F}
    (hrows : rows.Fits (inputs.length + aux.length) output.length) :
    ∃ out, eval inputs aux output rows inputs.length = some out ∧ out.length = output.length ∧
      ∀ u, out.getD u 0 = output.getD u 0
        + combination rows (inputs.length + aux.length) (assignment inputs aux) u := by
  induction rows generalizing output with
  | nil =>
    refine ⟨output, rfl, rfl, fun u => ?_⟩
    simp [combination, coefficient]
  | cons row rows ih =>
    obtain ⟨hvar, hcons⟩ := hrows row List.mem_cons_self
    obtain ⟨mid, hmid, hmidlength, hmidvalues⟩ :=
      foldlM_addAssign hcons (assignment inputs aux row.1)
    obtain ⟨out, hout, hlength, hvalues⟩ := @ih mid
      (fun row hrow => hmidlength ▸ hrows row (List.mem_cons_of_mem _ hrow))
    refine ⟨out, ?_, hlength.trans hmidlength, fun u => ?_⟩
    · rw [eval, List.foldlM_cons]
      by_cases hinput : row.1 < inputs.length
      · simp only [if_pos hinput, assignment_inputs aux hinput, Option.bind_eq_bind,
          Option.bind_some, hmid]
        exact hout
      · simp only [if_neg hinput, assignment_aux hinput hvar, Option.bind_eq_bind,
          Option.bind_some, hmid]
        exact hout
    · rw [hvalues u, hmidvalues u, combination_cons hvar, add_assoc]

/-! ## The quotient -/

/-- The rows of a QAP over `vars` variables name these only, and constraints below `n`. -/
structure QAP.Fits (qap : QAP F) (vars n : ℕ) : Prop where
  a : qap.a.Fits vars n
  b : qap.b.Fits vars n
  c : qap.c.Fits vars n

/-- The assignment meets every constraint. -/
def QAP.SatisfiedBy (qap : QAP F) (inputs aux : List F) (n : ℕ) : Prop :=
  ∀ u < n,
    combination qap.a (inputs.length + aux.length) (assignment inputs aux) u
        * combination qap.b (inputs.length + aux.length) (assignment inputs aux) u
      = combination qap.c (inputs.length + aux.length) (assignment inputs aux) u

instance [DecidableEq F] (qap : QAP F) (inputs aux : List F) (n : ℕ) :
    Decidable (qap.SatisfiedBy inputs aux n) :=
  inferInstanceAs (Decidable (∀ u < n, _))

/-- A polynomial has the combinations of the rows for its values on the domain. -/
def Interpolates (p : F[X]) (fr : PrimeField F) (inputs aux : List F) (rows : Rows F) (n : ℕ) :
    Prop :=
  p.degree < (2 ^ domainExp n : ℕ) ∧ ∀ u < 2 ^ domainExp n, p.eval (domainRoot fr n ^ u)
    = combination rows (inputs.length + aux.length) (assignment inputs aux) u

/-- `eval` fills a vector with the values of such a polynomial. -/
theorem eval_interpolates (fr : PrimeField F) {inputs aux : List F} {rows : Rows F} {n : ℕ}
    (hn : n ≤ 2 ^ fr.S) (hrows : rows.Fits (inputs.length + aux.length) n) :
    ∃ p, Interpolates p fr inputs aux rows n ∧
      eval inputs aux (List.replicate (2 ^ domainExp n) 0) rows inputs.length
        = some (cosetValues (domainExp n) (domainRoot fr n) 1 p) := by
  have hlength : (List.replicate (2 ^ domainExp n) (0 : F)).length = 2 ^ domainExp n :=
    List.length_replicate
  obtain ⟨out, hout, houtlength, hvalues⟩ :=
    eval_eq (hlength.symm ▸ hrows.mono (le_two_pow_domainExp n))
  obtain ⟨p, hdegree, rfl⟩ :=
    exists_values (domainRoot_primitive fr hn) (houtlength.trans hlength)
  refine ⟨p, ⟨hdegree, fun u hu => ?_⟩, hout⟩
  have hvalue := hvalues u
  rw [cosetValues, getD_map_range _ hu, one_mul, List.getD_replicate _ hu, zero_add] at hvalue
  exact hvalue

/-- A satisfied QAP is satisfied all over the domain: beyond its constraints there is nothing. -/
theorem Interpolates.satisfied {fr : PrimeField F} {inputs aux : List F} {qap : QAP F} {n : ℕ}
    (hfits : qap.Fits (inputs.length + aux.length) n) (hsat : qap.SatisfiedBy inputs aux n)
    {a b c : F[X]} (ha : Interpolates a fr inputs aux qap.a n)
    (hb : Interpolates b fr inputs aux qap.b n) (hc : Interpolates c fr inputs aux qap.c n)
    {u : ℕ} (hu : u < 2 ^ domainExp n) :
    a.eval (domainRoot fr n ^ u) * b.eval (domainRoot fr n ^ u) = c.eval (domainRoot fr n ^ u) := by
  rw [ha.2 u hu, hb.2 u hu, hc.2 u hu]
  by_cases hun : u < n
  · exact hsat u hun
  · have hzero : ∀ {rows : Rows F}, rows.Fits (inputs.length + aux.length) n →
        combination rows (inputs.length + aux.length) (assignment inputs aux) u = 0 := by
      intro rows hrows
      refine Finset.sum_eq_zero ?_
      intro y _
      rw [coefficient_eq_zero hrows y (not_lt.mp hun), zero_mul]
    rw [hzero hfits.a, hzero hfits.b, hzero hfits.c, mul_zero]

variable [DecidableEq F]

/-- The prover as far as the division: what is left to it are the values of `a * b - c` on the
    coset. -/
theorem quotientCoefficients_steps (fr : PrimeField F) {inputs aux : List F} {qap : QAP F} {n : ℕ}
    (hn : n ≤ 2 ^ fr.S) (he : domainExp n < 32)
    (hfits : qap.Fits (inputs.length + aux.length) n) :
    ∃ a b c, Interpolates a fr inputs aux qap.a n ∧ Interpolates b fr inputs aux qap.b n ∧
      Interpolates c fr inputs aux qap.c n ∧
      quotientCoefficients fr inputs aux qap n = do
        let zinv ← invert (fr.multiplicativeGenerator ^ 2 ^ domainExp n - 1)
        let aT ← icosetFft fr ((cosetValues (domainExp n) (domainRoot fr n)
          fr.multiplicativeGenerator (a * b - c)).map (· * zinv)) (domainRoot fr n) (domainExp n)
        return aT.take (aT.length - 1) := by
  obtain ⟨a, ha, haT⟩ := eval_interpolates fr hn hfits.a
  obtain ⟨b, hb, hbT⟩ := eval_interpolates fr hn hfits.b
  obtain ⟨c, hc, hcT⟩ := eval_interpolates fr hn hfits.c
  have homega := domainRoot_primitive fr hn
  have hsub : subEvalDomain
      (cosetValues (domainExp n) (domainRoot fr n) fr.multiplicativeGenerator (a * b))
      (cosetValues (domainExp n) (domainRoot fr n) fr.multiplicativeGenerator c)
      = some (cosetValues (domainExp n) (domainRoot fr n) fr.multiplicativeGenerator
          (a * b - c)) := by
    rw [subEvalDomain, if_pos (by rw [length_cosetValues, length_cosetValues])]
    simp only [cosetValues, List.zipWith_map, List.zipWith_self, Polynomial.eval_sub]
  refine ⟨a, b, c, ha, hb, hc, ?_⟩
  simp only [quotientCoefficients, fftParams_eq, haT, hbT, hcT, Option.bind_eq_bind,
    Option.bind_some, cosetMulAssign_values fr hn he ha.1 hb.1, ifft_values he homega hc.1,
    cosetFft_coefficients fr he homega hc.1, hsub, length_cosetValues]

/-- **THE QUOTIENT.**  For an assignment that meets every constraint the prover finds the
    coefficients of `(a * b - c) / (X ^ m - 1)`. -/
theorem quotientCoefficients_eq (fr : PrimeField F) {inputs aux : List F} {qap : QAP F} {n : ℕ}
    (hn : n ≤ 2 ^ fr.S) (he : domainExp n < 32)
    (hcoset : fr.multiplicativeGenerator ^ 2 ^ domainExp n ≠ 1)
    (hfits : qap.Fits (inputs.length + aux.length) n) (hsat : qap.SatisfiedBy inputs aux n) :
    ∃ a b c q : F[X], Interpolates a fr inputs aux qap.a n ∧ Interpolates b fr inputs aux qap.b n ∧
      Interpolates c fr inputs aux qap.c n ∧
      a * b - c = (Polynomial.X ^ 2 ^ domainExp n - 1) * q ∧
      q.degree < ((2 ^ domainExp n - 1 : ℕ) : WithBot ℕ) ∧
      quotientCoefficients fr inputs aux qap n
        = some ((List.range (2 ^ domainExp n - 1)).map q.coeff) := by
  obtain ⟨a, b, c, ha, hb, hc, hsteps⟩ := quotientCoefficients_steps fr hn he hfits
  have homega := domainRoot_primitive fr hn
  obtain ⟨q, hq, hdegree⟩ := exists_quotient homega (Nat.two_pow_pos _) ha.1 hb.1 hc.1
    (fun u hu => Interpolates.satisfied hfits hsat ha hb hc hu)
  have hvanishing : fr.multiplicativeGenerator ^ 2 ^ domainExp n - 1 ≠ 0 := sub_ne_zero.mpr hcoset
  have hdivided : (cosetValues (domainExp n) (domainRoot fr n) fr.multiplicativeGenerator
        (a * b - c)).map (· * (fr.multiplicativeGenerator ^ 2 ^ domainExp n - 1)⁻¹)
      = cosetValues (domainExp n) (domainRoot fr n) fr.multiplicativeGenerator q := by
    rw [cosetValues, cosetValues, List.map_map]
    refine List.map_congr_left ?_
    intro j _
    rw [Function.comp_apply, Polynomial.eval_sub, Polynomial.eval_mul,
      eval_quotient homega hq hvanishing]
  have hshort : q.degree < (2 ^ domainExp n : ℕ) :=
    hdegree.trans_le (Nat.cast_le.mpr (Nat.sub_le _ 1))
  refine ⟨a, b, c, q, ha, hb, hc, hq, hdegree, ?_⟩
  rw [hsteps, invert, if_neg hvanishing]
  simp only [Option.bind_eq_bind, Option.bind_some, hdivided, icosetFft_values fr he homega hshort,
    length_coefficients, Option.pure_def]
  rw [coefficients, ← List.map_take, List.take_range, min_eq_left (Nat.sub_le _ 1)]

/-- A domain that is the whole multiplicative group leaves nothing to divide by. -/
theorem quotientCoefficients_none_of_coset (fr : PrimeField F) {inputs aux : List F} {qap : QAP F}
    {n : ℕ} (hn : n ≤ 2 ^ fr.S) (he : domainExp n < 32)
    (hcoset : fr.multiplicativeGenerator ^ 2 ^ domainExp n = 1)
    (hfits : qap.Fits (inputs.length + aux.length) n) :
    quotientCoefficients fr inputs aux qap n = none := by
  obtain ⟨a, b, c, -, -, -, hsteps⟩ := quotientCoefficients_steps fr hn he hfits
  rw [hsteps, invert, if_pos (sub_eq_zero.mpr hcoset)]
  rfl

/-- A domain of `2 ^ 32` entries or more is refused. -/
theorem quotientCoefficients_none_of_size (fr : PrimeField F) {inputs aux : List F} {qap : QAP F}
    {n : ℕ} (hn : n ≤ 2 ^ fr.S) (he : 32 ≤ domainExp n)
    (hfits : qap.Fits (inputs.length + aux.length) n) :
    quotientCoefficients fr inputs aux qap n = none := by
  obtain ⟨a, -, haT⟩ := eval_interpolates fr hn hfits.a
  obtain ⟨b, -, hbT⟩ := eval_interpolates fr hn hfits.b
  obtain ⟨c, -, hcT⟩ := eval_interpolates fr hn hfits.c
  have homega0 : domainRoot fr n ≠ 0 :=
    (domainRoot_primitive fr hn).ne_zero (Nat.two_pow_pos _).ne'
  have hmul : cosetMulAssign fr (cosetValues (domainExp n) (domainRoot fr n) 1 a)
      (cosetValues (domainExp n) (domainRoot fr n) 1 b) = none := by
    rw [cosetMulAssign, if_pos (by rw [length_cosetValues, length_cosetValues]),
      length_cosetValues, fftParams_eq, domainRoot_two_pow, domainExp_two_pow]
    simp only [ifft, invert, if_neg homega0, fft_none he, Option.bind_eq_bind,
      Option.bind_some, Option.bind_none]
  simp only [quotientCoefficients, fftParams_eq, haT, hbT, hcT, hmul, Option.bind_eq_bind,
    Option.bind_some, Option.bind_none]

end Prover

end Albus.Groth16
