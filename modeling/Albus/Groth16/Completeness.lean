import Albus.Groth16.Verifier
import Mathlib.Algebra.BigOperators.Field
import Mathlib.Tactic.FieldSimp
import Mathlib.Tactic.LinearCombination

/-! # Honest proofs are accepted

    The parameters are points whose logarithms are known to whoever made them: a trapdoor,
    and the values of the QAP's polynomials at its secret point (`Parameters.Standard`).
    Every sum the prover takes over such points is one multiple of the generator, so that
    a proof has logarithms too; the equation the verifier checks is the equation
    `a * b = c + q * (X ^ m - 1)` at the secret point. -/

namespace Albus.Groth16

open scoped Polynomial
open Albus.Lib

/-! ## Parameters of the standard form -/

/-- What the parameters are made from. -/
structure Trapdoor (F : Type) [Field F] where
  alpha : F
  beta : F
  gamma : F
  delta : F
  tau : F
  gamma_ne_zero : gamma ≠ 0
  delta_ne_zero : delta ≠ 0

section Standard

variable {F : Type} [Field F]

/-- The polynomial of variable `y`, at `tau`: its values on the domain are the coefficients
    that the rows give to the variable. -/
def polynomialAt (fr : PrimeField F) (n : ℕ) (tau : F) (rows : Rows F) (y : ℕ) : F :=
  ∑ u ∈ Finset.range (2 ^ domainExp n), coefficient rows y u
    * weightAt (2 ^ domainExp n) (fun j => domainRoot fr n ^ j) tau u

/-- `beta * A_y(tau) + alpha * B_y(tau) + C_y(tau)`. -/
def Trapdoor.combined (t : Trapdoor F) (fr : PrimeField F) (n : ℕ) (qap : QAP F) (y : ℕ) : F :=
  t.beta * polynomialAt fr n t.tau qap.a y + t.alpha * polynomialAt fr n t.tau qap.b y
    + polynomialAt fr n t.tau qap.c y

/-- The sorted array of the variables whose polynomials are not zero; it may name others. -/
structure Lists (constraints : List ℕ) (rows : Rows F) (vars : ℕ) : Prop where
  sorted : constraints.Pairwise (· < ·)
  bound : ∀ y ∈ constraints, y < vars
  nonzero : ∀ y u, coefficient rows y u ≠ 0 → y ∈ constraints

/-- An array of all variables that have a row is such an array. -/
theorem Lists.of_rows {constraints : List ℕ} {rows : Rows F} {vars : ℕ}
    (hsorted : constraints.Pairwise (· < ·)) (hbound : ∀ y ∈ constraints, y < vars)
    (hrows : ∀ row ∈ rows, row.1 ∈ constraints) : Lists constraints rows vars := by
  refine ⟨hsorted, hbound, fun y u hne => ?_⟩
  by_contra hy
  refine hne (List.sum_eq_zero ?_)
  intro x hx
  obtain ⟨row, hrow, rfl⟩ := List.mem_map.mp hx
  rw [if_neg]
  rintro rfl
  exact hy (hrows row hrow)

variable {G₁ G₂ : Type} [AddCommGroup G₁] [Module F G₁] [AddCommGroup G₂] [Module F G₂]

/-- Parameters for a QAP of `n` constraints, over `numInputs` and `numAux` variables. -/
structure Parameters.Standard (params : Parameters G₁ G₂) (fr : PrimeField F) (t : Trapdoor F)
    (P : G₁) (Q : G₂) (qap : QAP F) (numInputs numAux n : ℕ) : Prop where
  alphaG1 : params.vk.alphaG1 = t.alpha • P
  betaG1 : params.vk.betaG1 = t.beta • P
  betaG2 : params.vk.betaG2 = t.beta • Q
  gammaG2 : params.vk.gammaG2 = t.gamma • Q
  deltaG1 : params.vk.deltaG1 = t.delta • P
  deltaG2 : params.vk.deltaG2 = t.delta • Q
  ic : params.vk.ic = (List.range numInputs).map fun i =>
    (t.combined fr n qap i / t.gamma) • P
  h : ∀ i < 2 ^ domainExp n - 1, params.h[i]? = some
    ((t.tau ^ i * (t.tau ^ 2 ^ domainExp n - 1) / t.delta) • P)
  l : params.l = (List.range numAux).map fun i =>
    (t.combined fr n qap (numInputs + i) / t.delta) • P
  aG1 : params.aG1 = qap.aConstraints.map fun y => polynomialAt fr n t.tau qap.a y • P
  bG1 : params.bG1 = qap.bConstraints.map fun y => polynomialAt fr n t.tau qap.b y • P
  bG2 : params.bG2 = qap.bConstraints.map fun y => polynomialAt fr n t.tau qap.b y • Q

/-- The parameters that a trapdoor gives. -/
def standardParameters (fr : PrimeField F) (t : Trapdoor F) (P : G₁) (Q : G₂) (qap : QAP F)
    (numInputs numAux n : ℕ) : Parameters G₁ G₂ where
  vk :=
    { alphaG1 := t.alpha • P
      betaG1 := t.beta • P
      betaG2 := t.beta • Q
      gammaG2 := t.gamma • Q
      deltaG1 := t.delta • P
      deltaG2 := t.delta • Q
      ic := (List.range numInputs).map fun i => (t.combined fr n qap i / t.gamma) • P }
  h := (List.range (2 ^ domainExp n - 1)).map fun i =>
    (t.tau ^ i * (t.tau ^ 2 ^ domainExp n - 1) / t.delta) • P
  l := (List.range numAux).map fun i => (t.combined fr n qap (numInputs + i) / t.delta) • P
  aG1 := qap.aConstraints.map fun y => polynomialAt fr n t.tau qap.a y • P
  bG1 := qap.bConstraints.map fun y => polynomialAt fr n t.tau qap.b y • P
  bG2 := qap.bConstraints.map fun y => polynomialAt fr n t.tau qap.b y • Q

theorem standardParameters_standard (fr : PrimeField F) (t : Trapdoor F) (P : G₁) (Q : G₂)
    (qap : QAP F) (numInputs numAux n : ℕ) :
    (standardParameters fr t P Q qap numInputs numAux n).Standard fr t P Q qap numInputs numAux
      n := by
  refine ⟨rfl, rfl, rfl, rfl, rfl, rfl, rfl, ?_, rfl, rfl, rfl, rfl⟩
  intro i hi
  rw [standardParameters, List.getElem?_map, List.getElem?_range hi]
  rfl

end Standard

/-! ## The sums of the prover and of the verifier -/

section Sums

variable {F G : Type} [Field F] [AddCommGroup G] [Module F G]

/-- The points of `h`, weighed with coefficients. -/
theorem weighH_eq {h : List G} {P : G} {w : ℕ → F} (coef : ℕ → F) {k : ℕ}
    (hh : ∀ i < k, h[i]? = some (w i • P)) :
    weighH h ((List.range k).map coef) = some ((∑ i ∈ Finset.range k, coef i * w i) • P) := by
  induction k with
  | zero => simp [weighH]
  | succ k ih =>
    have hprefix := ih (fun i hi => hh i (by omega))
    rw [weighH] at hprefix ⊢
    rw [List.range_succ, List.map_append, List.zipIdx_append, List.foldlM_append, hprefix]
    simp only [List.map_cons, List.map_nil, List.length_map, List.length_range, Nat.zero_add,
      List.zipIdx_cons, List.zipIdx_nil, List.foldlM_cons, List.foldlM_nil, hh k (by omega),
      Option.bind_eq_bind, Option.bind_some, Option.pure_def]
    rw [Finset.sum_range_succ, add_smul, mul_smul]

/-- The points of a query, weighed with the variables it is listed for. -/
theorem weighQuery_eq {constraints : List ℕ} {augmentedInputs : List F} {P : G} (f : ℕ → F)
    (hbound : ∀ y ∈ constraints, y < augmentedInputs.length) :
    weighQuery (constraints.map fun y => f y • P) constraints augmentedInputs
      = some ((constraints.map fun y => augmentedInputs.getD y 0 * f y).sum • P) := by
  have hloop : ∀ acc : G, ((constraints.map fun y => f y • P).zip constraints).foldlM
        (fun acc p => do
          let value ← augmentedInputs[p.2]?
          return acc + value • p.1) acc
      = some (acc + (constraints.map fun y => augmentedInputs.getD y 0 * f y).sum • P) := by
    induction constraints with
    | nil => intro acc; simp
    | cons y constraints ih =>
      intro acc
      have hy : y < augmentedInputs.length := hbound y List.mem_cons_self
      have hrest := ih (fun y hy => hbound y (List.mem_cons_of_mem _ hy))
      simp only [List.map_cons, List.zip_cons_cons, List.foldlM_cons, List.sum_cons,
        List.getElem?_eq_getElem hy, List.getD_eq_getElem _ _ hy, Option.bind_eq_bind,
        Option.bind_some, Option.pure_def] at hrest ⊢
      rw [hrest, add_smul, mul_smul, add_assoc]
  exact (hloop 0).trans (by rw [zero_add])

/-- What a sorted list of the non-zero variables adds up to is the sum over all variables. -/
theorem sum_constraints {constraints : List ℕ} {rows : Rows F} {vars : ℕ}
    (hlists : Lists constraints rows vars) (fr : PrimeField F) (n : ℕ) (tau : F) (x : ℕ → F) :
    (constraints.map fun y => x y * polynomialAt fr n tau rows y).sum
      = ∑ y ∈ Finset.range vars, x y * polynomialAt fr n tau rows y := by
  have hnodup : constraints.Nodup := hlists.sorted.imp (fun h => h.ne)
  rw [← List.sum_toFinset _ hnodup]
  refine Finset.sum_subset ?_ ?_
  · intro y hy
    exact Finset.mem_range.mpr (hlists.bound y (List.mem_toFinset.mp hy))
  · intro y _ hy
    have hzero : polynomialAt fr n tau rows y = 0 := by
      refine Finset.sum_eq_zero ?_
      intro u _
      have hcoefficient : coefficient rows y u = 0 := by
        by_contra h
        exact hy (List.mem_toFinset.mpr (hlists.nonzero y u h))
      rw [hcoefficient, zero_mul]
    rw [hzero, mul_zero]

/-- A fold over the points of a key, weighed with as many values. -/
theorem foldl_weigh (f : ℕ → F) (P : G) (values : List F) (acc : G) :
    (values.zip ((List.range values.length).map fun i => f i • P)).foldl
        (fun acc (y, x) => acc + y • x) acc
      = acc + (∑ i ∈ Finset.range values.length, values.getD i 0 * f i) • P := by
  induction values generalizing f acc with
  | nil => simp
  | cons y values ih =>
    rw [List.length_cons, List.range_succ_eq_map, List.map_cons, List.map_map, List.zip_cons_cons,
      List.foldl_cons]
    have hrest := ih (fun i => f (i + 1)) (acc + y • f 0 • P)
    rw [Finset.sum_range_succ']
    simp only [Function.comp_def, Nat.succ_eq_add_one, List.getD_cons_succ, List.getD_cons_zero]
    rw [hrest, add_smul, mul_smul]
    abel

end Sums

/-! ## The proof's logarithms -/

section Completeness

variable {F G₁ G₂ Gt : Type} [Field F] [AddCommGroup G₁] [Module F G₁] [AddCommGroup G₂]
  [Module F G₂] [AddCommGroup Gt] [Module F Gt]

/-- The value at `tau` of the polynomial the prover interpolates. -/
theorem Interpolates.eval_tau {p : F[X]} {fr : PrimeField F} {inputs aux : List F} {rows : Rows F}
    {n : ℕ} (hn : n ≤ 2 ^ fr.S) (hp : Interpolates p fr inputs aux rows n) (tau : F) :
    p.eval tau = ∑ y ∈ Finset.range (inputs.length + aux.length),
      assignment inputs aux y * polynomialAt fr n tau rows y := by
  rw [eval_eq_sum (injOn_powers (domainRoot_primitive fr hn)) hp.1 tau]
  calc ∑ u ∈ Finset.range (2 ^ domainExp n), p.eval (domainRoot fr n ^ u)
        * weightAt (2 ^ domainExp n) (fun j => domainRoot fr n ^ j) tau u
      = ∑ u ∈ Finset.range (2 ^ domainExp n), ∑ y ∈ Finset.range (inputs.length + aux.length),
          assignment inputs aux y * (coefficient rows y u
            * weightAt (2 ^ domainExp n) (fun j => domainRoot fr n ^ j) tau u) := by
        refine Finset.sum_congr rfl ?_
        intro u hu
        rw [hp.2 u (Finset.mem_range.mp hu), combination, Finset.sum_mul]
        refine Finset.sum_congr rfl ?_
        intro y _
        ring
    _ = ∑ y ∈ Finset.range (inputs.length + aux.length),
          assignment inputs aux y * polynomialAt fr n tau rows y := by
        rw [Finset.sum_comm]
        simp only [polynomialAt, Finset.mul_sum]

/-- The coefficients of the quotient, weighed with the powers of `tau`. -/
theorem sum_quotient {a b c q : F[X]} {m : ℕ} (hq : a * b - c = (Polynomial.X ^ m - 1) * q)
    (hdegree : q.degree < (m - 1 : ℕ)) (t : Trapdoor F) :
    ∑ i ∈ Finset.range (m - 1), q.coeff i * (t.tau ^ i * (t.tau ^ m - 1) / t.delta)
      = (a.eval t.tau * b.eval t.tau - c.eval t.tau) / t.delta := by
  have hvalue := congrArg (Polynomial.eval t.tau) hq
  simp only [Polynomial.eval_sub, Polynomial.eval_mul, Polynomial.eval_pow, Polynomial.eval_X,
    Polynomial.eval_one] at hvalue
  nth_rewrite 1 [← ofCoefficients_coeff hdegree] at hvalue
  rw [eval_ofCoefficients, Finset.mul_sum] at hvalue
  rw [hvalue, Finset.sum_div]
  refine Finset.sum_congr rfl ?_
  intro i _
  ring

/-- What the verifier adds up for the inputs. -/
theorem accumulateInputs_eq {inputs : List F} (aux : List F) (hone : inputs[0]? = some 1)
    (f : ℕ → F) (P : G₁) :
    accumulateInputs (inputs.drop 1) ((List.range inputs.length).map fun i => f i • P)
      = (∑ i ∈ Finset.range inputs.length, assignment inputs aux i * f i) • P := by
  cases inputs with
  | nil => cases hone
  | cons x inputs =>
    obtain rfl : x = 1 := Option.some.inj hone
    have hfold := foldl_weigh (fun i => f (i + 1)) P inputs (f 0 • P)
    rw [accumulateInputs, List.length_cons, List.range_succ_eq_map, List.map_cons, List.map_map,
      Finset.sum_range_succ']
    simp only [List.drop_succ_cons, List.drop_zero, List.getD_cons_zero, Function.comp_def,
      Nat.succ_eq_add_one]
    rw [hfold, add_smul, add_comm]
    congr 2
    · refine Finset.sum_congr rfl ?_
      intro i hi
      rw [assignment, List.cons_append, List.getD_cons_succ,
        List.getD_append _ _ _ _ (Finset.mem_range.mp hi)]
    · rw [assignment, List.cons_append, List.getD_cons_zero, one_mul]

/-- What the prover adds up for the other variables. -/
theorem foldl_aux (inputs aux : List F) (f : ℕ → F) (P : G₁) :
    (((List.range aux.length).map fun i => f (inputs.length + i) • P).zip aux).foldl
        (fun acc (x, y) => acc + y • x) 0
      = (∑ i ∈ Finset.range aux.length,
          assignment inputs aux (inputs.length + i) * f (inputs.length + i)) • P := by
  have hfold := foldl_weigh (fun i => f (inputs.length + i)) P aux 0
  rw [zero_add] at hfold
  have hvalues : ∀ i ∈ Finset.range aux.length,
      assignment inputs aux (inputs.length + i) * f (inputs.length + i)
        = aux.getD i 0 * f (inputs.length + i) := by
    intro i _
    rw [assignment, List.getD_append_right _ _ _ _ (Nat.le_add_right _ i), Nat.add_sub_cancel_left]
  rw [Finset.sum_congr rfl hvalues, ← hfold, ← List.zip_swap, List.foldl_map]
  rfl

/-- The equation of the pairings, between the logarithms. -/
theorem pairing_equation (t : Trapdoor F) (a b c inputsSum auxSum r s : F)
    (hsum : inputsSum + auxSum = t.beta * a + t.alpha * b + c) :
    (t.alpha + a + r * t.delta) * (t.beta + b + s * t.delta)
      = t.alpha * t.beta + inputsSum / t.gamma * t.gamma
        + (r * (b + s * t.delta + t.beta) + (a * b - c) / t.delta + auxSum / t.delta
            + s * (t.alpha + a + r * t.delta) - r * s * t.delta) * t.delta := by
  have hgamma := t.gamma_ne_zero
  have hdelta := t.delta_ne_zero
  field_simp
  linear_combination -hsum

/-- The assumptions of the results below. -/
structure Honest (fr : PrimeField F) (params : Parameters G₁ G₂) (t : Trapdoor F) (P : G₁) (Q : G₂)
    (qap : QAP F) (inputs aux : List F) (n : ℕ) : Prop where
  fits : qap.Fits (inputs.length + aux.length) n
  aLists : Lists qap.aConstraints qap.a (inputs.length + aux.length)
  bLists : Lists qap.bConstraints qap.b (inputs.length + aux.length)
  standard : params.Standard fr t P Q qap inputs.length aux.length n
  one : inputs[0]? = some 1
  satisfied : qap.SatisfiedBy inputs aux n
  roots : n ≤ 2 ^ fr.S

/-- The combined polynomials of all variables, at `tau`. -/
theorem sum_combined (t : Trapdoor F) {fr : PrimeField F} {inputs aux : List F} {qap : QAP F}
    {n : ℕ}
    (hn : n ≤ 2 ^ fr.S) {a b c : F[X]} (ha : Interpolates a fr inputs aux qap.a n)
    (hb : Interpolates b fr inputs aux qap.b n) (hc : Interpolates c fr inputs aux qap.c n) :
    ∑ i ∈ Finset.range inputs.length, assignment inputs aux i * t.combined fr n qap i
        + ∑ i ∈ Finset.range aux.length,
          assignment inputs aux (inputs.length + i) * t.combined fr n qap (inputs.length + i)
      = t.beta * a.eval t.tau + t.alpha * b.eval t.tau + c.eval t.tau := by
  rw [← Finset.sum_range_add, ha.eval_tau hn, hb.eval_tau hn, hc.eval_tau hn, Finset.mul_sum,
    Finset.mul_sum, ← Finset.sum_add_distrib, ← Finset.sum_add_distrib]
  refine Finset.sum_congr rfl ?_
  intro y _
  rw [Trapdoor.combined]
  ring

variable {fr : PrimeField F} {params : Parameters G₁ G₂} {t : Trapdoor F} {P : G₁} {Q : G₂}
  {qap : QAP F} {inputs aux : List F} {n : ℕ}

/-- A query listed for the variables of a polynomial is its value at `tau`. -/
theorem weighQuery_standard {G : Type} [AddCommGroup G] [Module F G] {constraints : List ℕ}
    {rows : Rows F} {p : F[X]} (hn : n ≤ 2 ^ fr.S)
    (hlists : Lists constraints rows (inputs.length + aux.length))
    (hp : Interpolates p fr inputs aux rows n) (tau : F) (R : G) :
    weighQuery (constraints.map fun y => polynomialAt fr n tau rows y • R) constraints
        (inputs ++ aux)
      = some (p.eval tau • R) := by
  have hbound : ∀ y ∈ constraints, y < (inputs ++ aux).length := by
    intro y hy
    rw [List.length_append]
    exact hlists.bound y hy
  rw [weighQuery_eq (polynomialAt fr n tau rows) hbound, hp.eval_tau hn,
    ← sum_constraints hlists fr n tau]
  rfl

/-- **THE PROOF'S LOGARITHMS.** -/
theorem createProof_eq [DecidableEq F] (h : Honest fr params t P Q qap inputs aux n)
    (he : domainExp n < 32) (hcoset : fr.multiplicativeGenerator ^ 2 ^ domainExp n ≠ 1) (r s : F) :
    ∃ a b c inputsSum auxSum : F,
      inputsSum + auxSum = t.beta * a + t.alpha * b + c ∧
      accumulateInputs (inputs.drop 1) params.vk.ic = (inputsSum / t.gamma) • P ∧
      createProof fr params inputs aux r s qap n = some
        ⟨(t.alpha + a + r * t.delta) • P, (t.beta + b + s * t.delta) • Q,
          (r * (b + s * t.delta + t.beta) + (a * b - c) / t.delta + auxSum / t.delta
            + s * (t.alpha + a + r * t.delta) - r * s * t.delta) • P⟩ := by
  obtain ⟨a, b, c, q, ha, hb, hc, hq, hdegree, hcoefficients⟩ :=
    quotientCoefficients_eq fr h.roots he hcoset h.fits h.satisfied
  refine ⟨a.eval t.tau, b.eval t.tau, c.eval t.tau, _, _,
    sum_combined t h.roots ha hb hc, ?_, ?_⟩
  · rw [h.standard.ic, accumulateInputs_eq aux h.one, Finset.sum_div]
    simp only [mul_div_assoc]
  · have hweighH := weighH_eq q.coeff h.standard.h
    rw [sum_quotient hq hdegree] at hweighH
    have hl : aux.length = params.l.length := by
      rw [h.standard.l, List.length_map, List.length_range]
    have haux := foldl_aux inputs aux (fun y => t.combined fr n qap y / t.delta) P
    rw [← h.standard.l] at haux
    have haG1 : params.aG1.length = qap.aConstraints.length := by
      rw [h.standard.aG1, List.length_map]
    have hbG1 : params.bG1.length = qap.bConstraints.length := by
      rw [h.standard.bG1, List.length_map]
    have hqueryA := weighQuery_standard h.roots h.aLists ha t.tau P
    have hqueryB := weighQuery_standard h.roots h.bLists hb t.tau P
    have hqueryB2 := weighQuery_standard h.roots h.bLists hb t.tau Q
    rw [← h.standard.aG1] at hqueryA
    rw [← h.standard.bG1] at hqueryB
    rw [← h.standard.bG2] at hqueryB2
    simp only [createProof, hcoefficients, hweighH, hqueryA, hqueryB, hqueryB2, haux,
      if_neg (not_not.mpr hl), if_neg (not_not.mpr haG1), if_neg (not_not.mpr hbG1),
      Option.bind_eq_bind, Option.bind_some, Option.pure_def, h.standard.alphaG1,
      h.standard.betaG1, h.standard.betaG2, h.standard.deltaG1, h.standard.deltaG2]
    simp only [Finset.sum_div, mul_div_assoc, add_smul, sub_smul, mul_smul, smul_add]

/-- An honest proof, once made, is accepted. -/
theorem createProof_accepted [DecidableEq F] [DecidableEq Gt] (pairing : G₁ →ₗ[F] G₂ →ₗ[F] Gt)
    (h : Honest fr params t P Q qap inputs aux n) (he : domainExp n < 32)
    (hcoset : fr.multiplicativeGenerator ^ 2 ^ domainExp n ≠ 1) (r s : F) :
    ∃ proof, createProof fr params inputs aux r s qap n = some proof ∧
      verifyProof pairing proof (inputs.drop 1) params.vk = .ok () := by
  obtain ⟨a, b, c, inputsSum, auxSum, hsum, hacc, hproof⟩ := createProof_eq h he hcoset r s
  refine ⟨_, hproof, (verifyProof_ok_iff pairing _ _ _).mpr ⟨?_, ?_⟩⟩
  · have hpos : 0 < inputs.length := by
      obtain ⟨hlt, -⟩ := List.getElem?_eq_some_iff.mp h.one
      exact hlt
    rw [h.standard.ic, List.length_map, List.length_range, List.length_drop]
    omega
  · rw [hacc, h.standard.alphaG1, h.standard.betaG2, h.standard.gammaG2, h.standard.deltaG2]
    simp only [map_smul, LinearMap.smul_apply, smul_smul, ← add_smul]
    congr 1
    linear_combination pairing_equation t a b c inputsSum auxSum r s hsum

/-- **COMPLETENESS**: the proof of an assignment that meets every constraint is made and accepted,
    unless the domain is beyond 32 bits or is the whole multiplicative group. -/
theorem createProof_complete [Fintype F] [DecidableEq F] [DecidableEq Gt]
    (pairing : G₁ →ₗ[F] G₂ →ₗ[F] Gt) (h : Honest fr params t P Q qap inputs aux n) (r s : F) :
    (∃ proof, createProof fr params inputs aux r s qap n = some proof ∧
      verifyProof pairing proof (inputs.drop 1) params.vk = .ok ())
    ↔ n ≤ 2 ^ 31 ∧ 2 ^ domainExp n + 1 ≠ Fintype.card F := by
  constructor
  · rintro ⟨proof, hproof, -⟩
    have hquotient : quotientCoefficients fr inputs aux qap n ≠ none := by
      intro hnone
      rw [createProof, hnone] at hproof
      cases hproof
    have he : domainExp n < 32 := by
      by_contra hlarge
      exact hquotient (quotientCoefficients_none_of_size fr h.roots (not_lt.mp hlarge) h.fits)
    refine ⟨domainExp_le.mp (Nat.le_of_lt_succ he), fun hall => hquotient ?_⟩
    exact quotientCoefficients_none_of_coset fr h.roots he
      ((generator_pow_eq_one_iff fr h.roots).mpr hall) h.fits
  · rintro ⟨hsize, hpart⟩
    have he : domainExp n < 32 := Nat.lt_succ_of_le (domainExp_le.mpr hsize)
    exact createProof_accepted pairing h he
      (fun hone => hpart ((generator_pow_eq_one_iff fr h.roots).mp hone)) r s

end Completeness

/-! ## A circuit for a cube -/

namespace Cube

instance fact_prime_five : Fact (Nat.Prime 5) := ⟨by decide⟩

instance fact_prime_thirteen : Fact (Nat.Prime 13) := ⟨by decide⟩

/-- The constraints `x * x = y` and `y * x = z`, with one more for each input; the variables are
    `1`, `z`, `x`, `y`. -/
def qap (F : Type) [Field F] : QAP F where
  a := [(2, [(1, 0)]), (3, [(1, 1)]), (0, [(1, 2)]), (1, [(1, 3)])]
  b := [(2, [(1, 0), (1, 1)])]
  c := [(3, [(1, 0)]), (1, [(1, 1)])]
  aConstraints := [0, 1, 2, 3]
  bConstraints := [2]

def trapdoor (F : Type) [Field F] : Trapdoor F where
  alpha := 1
  beta := 1
  gamma := 1
  delta := 1
  tau := 0
  gamma_ne_zero := one_ne_zero
  delta_ne_zero := one_ne_zero

theorem qap_fits (F : Type) [Field F] : (qap F).Fits 4 4 := by
  refine ⟨?_, ?_, ?_⟩
  · simp [qap, Rows.Fits]
  · simp [qap, Rows.Fits]
    rintro _ _ (⟨-, rfl⟩ | ⟨-, rfl⟩)
    · decide
    · decide
  · simp [qap, Rows.Fits]

section Fields

-- the literal `2` with an instance that has a name
local instance atLeastTwo : Nat.AtLeastTwo 2 := ⟨le_rfl⟩

/-- The field of thirteen elements has fourth roots of unity, and elements beside them. -/
def thirteen : PrimeField (ZMod 13) where
  S := 2
  rootOfUnity := 8
  multiplicativeGenerator := 2
  rootOfUnity_primitive := by
    rw [IsPrimitiveRoot.iff_orderOf]
    exact orderOf_eq_prime_pow (by decide) (by decide)
  generator_ne_zero := by decide
  generator_powers := by
    have h : ∀ x : ZMod 13, x ≠ 0 → ∃ k < 13, 2 ^ k = x := by decide
    intro x hx
    obtain ⟨k, -, hk⟩ := h x hx
    exact ⟨k, hk⟩

/-- The field of five elements has nothing but fourth roots of unity, and zero. -/
def five : PrimeField (ZMod 5) where
  S := 2
  rootOfUnity := 2
  multiplicativeGenerator := 2
  rootOfUnity_primitive := by
    rw [IsPrimitiveRoot.iff_orderOf]
    exact orderOf_eq_prime_pow (by decide) (by decide)
  generator_ne_zero := by decide
  generator_powers := by
    have h : ∀ x : ZMod 5, x ≠ 0 → ∃ k < 5, 2 ^ k = x := by decide
    intro x hx
    obtain ⟨k, -, hk⟩ := h x hx
    exact ⟨k, hk⟩

end Fields

/-- The cube of two, over either field. -/
theorem honest {F : Type} [Field F] [DecidableEq F] (fr : PrimeField F) (hS : fr.S = 2) :
    Honest fr (standardParameters fr (trapdoor F) (1 : F) (1 : F) (qap F) 2 2 4) (trapdoor F) 1 1
      (qap F) [1, 8] [2, 4] 4 where
  fits := qap_fits F
  aLists := Lists.of_rows (by simp [qap]) (by simp [qap]) (by simp [qap])
  bLists := Lists.of_rows (by simp [qap]) (by simp [qap]) (by simp [qap])
  standard := standardParameters_standard fr (trapdoor F) 1 1 (qap F) 2 2 4
  one := rfl
  satisfied := by
    intro u hu
    interval_cases u
    all_goals simp [combination, coefficient, assignment, qap]
    all_goals norm_num
  roots := by
    rw [hS]
    decide

end Cube

/-- In the field of thirteen elements the proof is made and accepted. -/
theorem createProof_complete_cube :
    ∃ proof, createProof Cube.thirteen
        (standardParameters Cube.thirteen (Cube.trapdoor (ZMod 13)) (1 : ZMod 13) (1 : ZMod 13)
          (Cube.qap (ZMod 13)) 2 2 4) [1, 8] [2, 4] 3 5 (Cube.qap (ZMod 13)) 4 = some proof ∧
      verifyProof (LinearMap.mul (ZMod 13) (ZMod 13)) proof ([1, 8].drop 1)
        (standardParameters Cube.thirteen (Cube.trapdoor (ZMod 13)) (1 : ZMod 13) (1 : ZMod 13)
          (Cube.qap (ZMod 13)) 2 2 4).vk = .ok () := by
  have hexp : domainExp 4 = 2 := domainExp_two_pow 2
  refine (createProof_complete (LinearMap.mul (ZMod 13) (ZMod 13))
    (Cube.honest Cube.thirteen rfl) 3 5).mpr ⟨by decide, ?_⟩
  rw [hexp, ZMod.card]
  decide

/-- In the field of five elements the same assignment has no proof: the domain is the whole
    multiplicative group, and the prover panics. -/
theorem createProof_whole_group :
    Honest Cube.five (standardParameters Cube.five (Cube.trapdoor (ZMod 5)) (1 : ZMod 5)
      (1 : ZMod 5) (Cube.qap (ZMod 5)) 2 2 4) (Cube.trapdoor (ZMod 5)) 1 1 (Cube.qap (ZMod 5))
      [1, 8] [2, 4] 4 ∧
    createProof Cube.five (standardParameters Cube.five (Cube.trapdoor (ZMod 5)) (1 : ZMod 5)
      (1 : ZMod 5) (Cube.qap (ZMod 5)) 2 2 4) [1, 8] [2, 4] 3 2 (Cube.qap (ZMod 5)) 4 = none := by
  have h := Cube.honest Cube.five rfl
  have hexp : domainExp 4 = 2 := domainExp_two_pow 2
  refine ⟨h, ?_⟩
  have hnone := quotientCoefficients_none_of_coset Cube.five h.roots (by rw [hexp]; decide)
    (by rw [hexp]; decide) h.fits
  rw [createProof, hnone]
  rfl

end Albus.Groth16
