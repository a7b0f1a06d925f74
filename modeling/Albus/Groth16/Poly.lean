import Albus.Lib.EvaluationDomain
import Albus.Lib.Fourier
import Mathlib.Data.List.GetD
import Mathlib.Data.Nat.Log
import Mathlib.FieldTheory.Finite.Basic

/-! # Polynomials on a domain (`crates/groth16/src/poly.rs`)

    A vector holds the coefficients of a polynomial or its values, on the domain of the
    powers of a root of unity or on a coset of it; the transforms go from one to the
    other in place.  Each of them is described by what it does to a polynomial
    (`fft_coefficients`, `ifft_values`, `coset_fft_coefficients`, `icoset_fft_values`).

    A panic is `none`: a failed assertion, an inverse of zero. -/

namespace Albus.Groth16

open Polynomial Albus.Lib

section Poly

variable {F : Type} [Field F]

/-- The constants of the field (`ff::PrimeField`), with what that trait says of them. -/
structure PrimeField (F : Type) [Field F] where
  S : ℕ
  rootOfUnity : F
  multiplicativeGenerator : F
  rootOfUnity_primitive : IsPrimitiveRoot rootOfUnity (2 ^ S)
  generator_ne_zero : multiplicativeGenerator ≠ 0
  generator_powers : ∀ x : F, x ≠ 0 → ∃ k : ℕ, multiplicativeGenerator ^ k = x

/-- The loop `while m < l { m <<= 1; exp += 1 }`. -/
def growDomain (l : ℕ) : ℕ → ℕ → ℕ → ℕ × ℕ
  | 0, m, exp => (m, exp)
  | fuel + 1, m, exp => if m < l then growDomain l fuel (m <<< 1) (exp + 1) else (m, exp)

/-- `fft_params`. -/
def fftParams (fr : PrimeField F) (l : ℕ) : F × ℕ × ℕ :=
  let (m, exp) := growDomain l l 1 0
  let omega := (fun omega => omega ^ 2)^[fr.S - exp] fr.rootOfUnity
  (omega, m, exp)

def bitreverse (n l : ℕ) : ℕ :=
  ((fun p : ℕ × ℕ => (p.1 <<< 1 ||| p.2 &&& 1, p.2 >>> 1))^[l] (0, n)).1

def swap (a : List F) (i j : ℕ) : List F :=
  (a.set i (a.getD j 0)).set j (a.getD i 0)

/-- The body of the loop over `j`. -/
def butterfly (m k : ℕ) (w : F) (a : List F) (j : ℕ) : List F :=
  let t := a.getD (k + j + m) 0 * w
  let tmp := a.getD (k + j) 0 - t
  let a := a.set (k + j + m) tmp
  a.set (k + j) (a.getD (k + j) 0 + t)

/-- The loop over `j` in one block. -/
def block (m : ℕ) (w_m : F) (a : List F) (k : ℕ) : List F :=
  ((List.range m).foldl (fun p j => (butterfly m k p.2 p.1 j, p.2 * w_m)) (a, 1)).1

/-- The loop over `k`: the multiples of `2 * m` below `n`. -/
def round (n : ℕ) (omega : F) (a : List F) (m : ℕ) : List F :=
  let w_m := omega ^ (n / (2 * m))
  (List.range ((n + 2 * m - 1) / (2 * m))).foldl (fun a q => block m w_m a (2 * m * q)) a

/-- `fft`.  The length is of 32 bits, and the shift of `1 << exp` panics beyond them. -/
def fft (a : List F) (omega : F) (exp : ℕ) : Option (List F) :=
  let n := a.length % 2 ^ 32
  if exp < 32 ∧ n = 1 <<< exp then
    let a := (List.range n).foldl (fun a k =>
      let rk := bitreverse k exp
      if k < rk then swap a rk k else a) a
    some ((List.range exp).foldl (fun p _ => (round n omega p.1 p.2, p.2 * 2)) (a, 1)).1
  else none

/-- `Field::invert`. -/
def invert [DecidableEq F] (x : F) : Option F :=
  if x = 0 then none else some x⁻¹

/-- `ifft`. -/
def ifft [DecidableEq F] (a : List F) (omega : F) (exp : ℕ) : Option (List F) := do
  let omega ← invert omega
  let a ← fft a omega exp
  let minv ← invert (a.length : F)
  return a.map (· * minv)

/-- `sub_eval_domain`. -/
def subEvalDomain (a b : List F) : Option (List F) :=
  if a.length = b.length then some (List.zipWith (· - ·) a b) else none

/-- The loop `for x in a { x *= u; u *= g }`. -/
def scalePowers (g : F) : F → List F → List F
  | _, [] => []
  | u, x :: a => x * u :: scalePowers g (u * g) a

/-- `coset_fft`. -/
def cosetFft (fr : PrimeField F) (a : List F) (omega : F) (exp : ℕ) : Option (List F) :=
  fft (scalePowers fr.multiplicativeGenerator 1 a) omega exp

/-- `icoset_fft`. -/
def icosetFft [DecidableEq F] (fr : PrimeField F) (a : List F) (omega : F) (exp : ℕ) :
    Option (List F) := do
  let a ← ifft a omega exp
  let g ← invert fr.multiplicativeGenerator
  return scalePowers g 1 a

/-- `coset_mul_assign`. -/
def cosetMulAssign [DecidableEq F] (fr : PrimeField F) (a b : List F) : Option (List F) :=
  if a.length = b.length then do
    let (omega, _, exp) := fftParams fr a.length
    let a ← ifft a omega exp
    let b ← ifft b omega exp
    let a ← cosetFft fr a omega exp
    let b ← cosetFft fr b omega exp
    return List.zipWith (· * ·) a b
  else none

/-! ## The domain -/

theorem growDomain_eq {l fuel s : ℕ} (hs : s ≤ Nat.clog 2 l) (hfuel : Nat.clog 2 l ≤ s + fuel) :
    growDomain l fuel (2 ^ s) s = (2 ^ Nat.clog 2 l, Nat.clog 2 l) := by
  induction fuel generalizing s with
  | zero =>
    obtain rfl : s = Nat.clog 2 l := by omega
    rfl
  | succ fuel ih =>
    rw [growDomain]
    by_cases hgrow : 2 ^ s < l
    · have hlt : s < Nat.clog 2 l := (Nat.lt_clog_iff_pow_lt Nat.one_lt_two).mpr hgrow
      have hdouble : 2 ^ s <<< 1 = 2 ^ (s + 1) := by rw [Nat.shiftLeft_eq, ← pow_succ]
      rw [if_pos hgrow, hdouble]
      exact ih hlt (by omega)
    · have hstop : Nat.clog 2 l ≤ s := (Nat.clog_le_iff_le_pow Nat.one_lt_two).mpr (not_lt.mp hgrow)
      rw [if_neg hgrow, le_antisymm hs hstop]

/-- The logarithm of the domain's size. -/
def domainExp (l : ℕ) : ℕ := Nat.clog 2 l

/-- The root of unity whose powers are the domain. -/
def domainRoot (fr : PrimeField F) (l : ℕ) : F :=
  fr.rootOfUnity ^ 2 ^ (fr.S - domainExp l)

theorem iterate_square (w : F) (k : ℕ) : (fun w => w ^ 2)^[k] w = w ^ 2 ^ k := by
  induction k with
  | zero => exact (pow_one w).symm
  | succ k ih => rw [Function.iterate_succ_apply', ih, ← pow_mul, ← pow_succ]

theorem fftParams_eq (fr : PrimeField F) (l : ℕ) :
    fftParams fr l = (domainRoot fr l, 2 ^ domainExp l, domainExp l) := by
  have hfuel : Nat.clog 2 l ≤ 0 + l := by
    rw [Nat.zero_add, Nat.clog_le_iff_le_pow Nat.one_lt_two]
    exact Nat.lt_two_pow_self.le
  have hgrow := growDomain_eq (Nat.zero_le _) hfuel
  rw [pow_zero] at hgrow
  rw [fftParams, hgrow]
  simp only [iterate_square, domainRoot, domainExp]

theorem domainExp_two_pow (e : ℕ) : domainExp (2 ^ e) = e :=
  Nat.clog_pow 2 e Nat.one_lt_two

theorem le_two_pow_domainExp (l : ℕ) : l ≤ 2 ^ domainExp l :=
  (Nat.clog_le_iff_le_pow Nat.one_lt_two).mp le_rfl

theorem domainExp_le {l e : ℕ} : domainExp l ≤ e ↔ l ≤ 2 ^ e :=
  Nat.clog_le_iff_le_pow Nat.one_lt_two

theorem domainRoot_primitive (fr : PrimeField F) {l : ℕ} (hl : l ≤ 2 ^ fr.S) :
    IsPrimitiveRoot (domainRoot fr l) (2 ^ domainExp l) := by
  refine fr.rootOfUnity_primitive.pow (Nat.two_pow_pos _) ?_
  rw [← pow_add, Nat.sub_add_cancel (domainExp_le.mpr hl)]

theorem domainRoot_two_pow (fr : PrimeField F) (l : ℕ) :
    domainRoot fr (2 ^ domainExp l) = domainRoot fr l := by
  rw [domainRoot, domainExp_two_pow, domainRoot]

/-- The generator lies in the domain only if the domain is the whole multiplicative group. -/
theorem generator_pow_eq_one_iff [Fintype F] (fr : PrimeField F) {l : ℕ} (hl : l ≤ 2 ^ fr.S) :
    fr.multiplicativeGenerator ^ 2 ^ domainExp l = 1 ↔ 2 ^ domainExp l + 1 = Fintype.card F := by
  classical
  have hcard : 1 < Fintype.card F := Fintype.one_lt_card
  have hdvd : 2 ^ domainExp l ∣ Fintype.card F - 1 := by
    have homega := domainRoot_primitive fr hl
    refine homega.dvd_of_pow_eq_one _ (FiniteField.pow_card_sub_one_eq_one _ ?_)
    exact homega.ne_zero (Nat.two_pow_pos _).ne'
  constructor
  · intro hone
    -- every element but zero is one of the first `2 ^ e` powers of the generator
    have hpowers : Finset.univ.erase 0
        ⊆ (Finset.range (2 ^ domainExp l)).image (fr.multiplicativeGenerator ^ ·) := by
      intro x hx
      obtain ⟨k, hk⟩ := fr.generator_powers x (Finset.ne_of_mem_erase hx)
      refine Finset.mem_image.mpr ⟨k % 2 ^ domainExp l,
        Finset.mem_range.mpr (Nat.mod_lt k (Nat.two_pow_pos _)), ?_⟩
      exact (pow_eq_pow_mod k hone).symm.trans hk
    have hle := (Finset.card_le_card hpowers).trans Finset.card_image_le
    rw [Finset.card_erase_of_mem (Finset.mem_univ 0), Finset.card_univ, Finset.card_range] at hle
    have hge := Nat.le_of_dvd (by omega) hdvd
    omega
  · intro hall
    have hsize : 2 ^ domainExp l = Fintype.card F - 1 := by omega
    rw [hsize]
    exact FiniteField.pow_card_sub_one_eq_one _ fr.generator_ne_zero

/-! ## The transform -/

theorem getD_set (a : List F) (i : ℕ) (x : F) (j : ℕ) :
    (a.set i x).getD j 0 = if i = j ∧ i < a.length then x else a.getD j 0 := by
  simp only [List.getD_eq_getElem?_getD, List.getElem?_set]
  by_cases hij : i = j
  · by_cases hi : i < a.length
    · rw [if_pos hij, if_pos hi, if_pos ⟨hij, hi⟩, Option.getD_some]
    · rw [if_pos hij, if_neg hi, if_neg (fun h => hi h.2), ← hij,
        List.getElem?_eq_none (not_lt.mp hi)]
  · rw [if_neg hij, if_neg (fun h => hij h.1)]

theorem bitreverse_eq (n l : ℕ) : bitreverse n l = reverseBits l n := by
  have hloop : ∀ l r n : ℕ,
      ((fun p : ℕ × ℕ => (p.1 <<< 1 ||| p.2 &&& 1, p.2 >>> 1))^[l] (r, n)).1
        = r * 2 ^ l + reverseBits l n := by
    intro l
    induction l with
    | zero => intro r n; exact (Nat.mul_one r).symm
    | succ l ih =>
      intro r n
      have hbit : r <<< 1 ||| n &&& 1 = 2 * r + n % 2 := by
        rw [Nat.and_one_is_mod, ← Nat.shiftLeft_add_eq_or_of_lt (Nat.mod_lt n Nat.two_pos),
          Nat.shiftLeft_eq, Nat.mul_comm, pow_one]
      rw [Function.iterate_succ_apply, ih, hbit, Nat.shiftRight_one, reverseBits_succ]
      ring
  rw [bitreverse, hloop, Nat.zero_mul, Nat.zero_add]

theorem getD_swap {a : List F} {i j : ℕ} (hi : i < a.length) (hj : j < a.length) (k : ℕ) :
    (swap a i j).getD k 0
      = if j = k then a.getD i 0 else if i = k then a.getD j 0 else a.getD k 0 := by
  have hj' : j < (a.set i (a.getD j 0)).length := by rwa [List.length_set]
  rw [swap, getD_set, getD_set]
  simp only [hi, hj', and_true]

/-- One swap of `fft`: the pair of `t` is exchanged if `t` is its smaller index. -/
theorem getD_swap_reversed {b : List F} {e t k : ℕ} (hb : b.length = 2 ^ e) (ht : t < 2 ^ e)
    (hk : k < 2 ^ e) :
    (if t < reverseBits e t then swap b (reverseBits e t) t else b).getD k 0
      = if min k (reverseBits e k) = t then b.getD (reverseBits e k) 0 else b.getD k 0 := by
  have hrt := reverseBits_lt e t
  have hrrt := reverseBits_reverseBits ht
  have hrrk := reverseBits_reverseBits hk
  by_cases hswap : t < reverseBits e t
  · rw [if_pos hswap, getD_swap (by omega) (by omega)]
    by_cases hkt : t = k
    · subst hkt
      rw [if_pos rfl, if_pos (min_eq_left hswap.le)]
    by_cases hkr : reverseBits e t = k
    · subst hkr
      rw [if_neg hkt, if_pos rfl, hrrt, if_pos (min_eq_right hswap.le)]
    · have hother : min k (reverseBits e k) ≠ t := by
        intro h
        rcases min_choice k (reverseBits e k) with h' | h'
        · exact hkt (h.symm.trans h')
        · rw [h'] at h
          exact hkr (by rw [← h, hrrk])
      rw [if_neg hkt, if_neg hkr, if_neg hother]
  · rw [if_neg hswap]
    by_cases hown : min k (reverseBits e k) = t
    · have hfixed : reverseBits e k = k := by
        rcases min_choice k (reverseBits e k) with h' | h'
        · obtain rfl : k = t := h'.symm.trans hown
          omega
        · have hkt : reverseBits e k = t := h'.symm.trans hown
          rw [← hkt, hrrk] at hswap
          omega
      rw [if_pos hown, hfixed]
    · rw [if_neg hown]

/-- The swaps of `fft`: entry `k` comes from the reversed index. -/
theorem foldl_swap {a : List F} {e : ℕ} (ha : a.length = 2 ^ e) :
    let b := (List.range (2 ^ e)).foldl (fun a k =>
      if k < reverseBits e k then swap a (reverseBits e k) k else a) a
    b.length = 2 ^ e ∧ ∀ k < 2 ^ e, b.getD k 0 = a.getD (reverseBits e k) 0 := by
  -- a pair is owned by its smaller index; what lies beyond the vector has no owner
  let owner : ℕ → ℕ := fun k => if k < 2 ^ e then min k (reverseBits e k) else 2 ^ e
  let reversed : (ℕ → F) → ℕ → F := fun f k => if k < 2 ^ e then f (reverseBits e k) else f k
  have hpass := foldl_in_place (P := fun b : List F => b.length = 2 ^ e)
    (fun b k => b.getD k 0)
    (fun a k => if k < reverseBits e k then swap a (reverseBits e k) k else a)
    owner (F := reversed) (s := a) (@List.nodup_range (2 ^ e)) ?_ ?_ ?_ ha
  · refine ⟨hpass.1, fun k hk => ?_⟩
    have howner : owner k ∈ List.range (2 ^ e) := by
      rw [List.mem_range]
      simp only [owner, if_pos hk]
      omega
    rw [hpass.2 k, if_pos howner]
    exact if_pos hk
  · intro b hb t _
    split
    · rw [swap, List.length_set, List.length_set, hb]
    · exact hb
  · intro b hb t ht k
    rw [List.mem_range] at ht
    by_cases hk : k < 2 ^ e
    · simp only [owner, reversed, if_pos hk]
      exact getD_swap_reversed hb ht hk
    · have houtside : ∀ c : List F, c.length = 2 ^ e → c.getD k 0 = 0 := fun c hc =>
        List.getD_eq_default c 0 (by omega)
      simp only [owner, reversed, if_neg hk, ite_self]
      rw [houtside b hb, houtside]
      split
      · rw [swap, List.length_set, List.length_set, hb]
      · exact hb
  · intro f g k hfg
    by_cases hk : k < 2 ^ e
    · have hpartner : owner (reverseBits e k) = owner k := by
        simp only [owner, if_pos hk, if_pos (reverseBits_lt e k), reverseBits_reverseBits hk,
          min_comm]
      simp only [reversed, if_pos hk]
      exact hfg _ hpartner
    · simp only [reversed, if_neg hk]
      exact hfg k rfl

@[simp] theorem length_butterfly (m k : ℕ) (w : F) (a : List F) (j : ℕ) :
    (butterfly m k w a j).length = a.length := by
  simp [butterfly]

/-- One butterfly, in block `q`. -/
theorem getD_butterfly {m q j : ℕ} {a : List F} (v : F) (hj : j < m)
    (hfit : 2 * m * q + 2 * m ≤ a.length) (i : ℕ) :
    (butterfly m (2 * m * q) (v ^ j) a j).getD i 0
      = if i / (2 * m) = q ∧ i % m = j then butterflies m v (fun i => a.getD i 0) i
        else a.getD i 0 := by
  have hsecond : 2 * m * q + j + m < a.length := by omega
  have hfirst : 2 * m * q + j < (a.set (2 * m * q + j + m)
      (a.getD (2 * m * q + j) 0 - a.getD (2 * m * q + j + m) 0 * v ^ j)).length := by
    rw [List.length_set]
    omega
  have hdistinct : 2 * m * q + j + m ≠ 2 * m * q + j := by omega
  simp only [mem_butterfly_iff hj, butterfly, getD_set, hfirst, hsecond, and_true,
    if_neg hdistinct]
  by_cases hi : 2 * m * q + j = i
  · rw [← hi, if_pos rfl, if_pos (Or.inl rfl), butterflies_first v _ hj]
  by_cases hi' : 2 * m * q + j + m = i
  · rw [← hi', if_neg hdistinct.symm, if_pos rfl, if_pos (Or.inr rfl), butterflies_second v _ hj]
  · rw [if_neg hi, if_neg hi', if_neg]
    rintro (h | h)
    · exact hi h.symm
    · exact hi' h.symm

/-- The running twiddle factor of the loop over `j` is a power. -/
theorem block_eq (m : ℕ) (v : F) (a : List F) (k : ℕ) :
    block m v a k = (List.range m).foldl (fun a j => butterfly m k (v ^ j) a j) a := by
  have hloop : ∀ n, (List.range n).foldl (fun p j => (butterfly m k p.2 p.1 j, p.2 * v)) (a, 1)
      = ((List.range n).foldl (fun a j => butterfly m k (v ^ j) a j) a, v ^ n) := by
    intro n
    induction n with
    | zero =>
      rw [pow_zero]
      rfl
    | succ n ih =>
      rw [List.range_succ, List.foldl_append, List.foldl_append, ih, List.foldl_cons,
        List.foldl_nil, List.foldl_cons, List.foldl_nil, pow_succ]
  rw [block, hloop]

/-- One block of a round. -/
theorem getD_block {m q : ℕ} (hm : 0 < m) {a : List F} (v : F)
    (hfit : 2 * m * q + 2 * m ≤ a.length) :
    (block m v a (2 * m * q)).length = a.length ∧
      ∀ i, (block m v a (2 * m * q)).getD i 0
        = if i / (2 * m) = q then butterflies m v (fun i => a.getD i 0) i else a.getD i 0 := by
  rw [block_eq]
  -- butterfly `j` owns the two entries of the block at place `j` of the halves
  have hpass := foldl_in_place (P := fun b : List F => b.length = a.length)
    (fun b i => b.getD i 0) (fun a j => butterfly m (2 * m * q) (v ^ j) a j)
    (fun i => if i / (2 * m) = q then i % m else m) (F := butterflies m v) (s := a)
    (@List.nodup_range m) ?_ ?_ ?_ rfl
  · refine ⟨hpass.1, fun i => ?_⟩
    rw [hpass.2 i]
    simp only [List.mem_range]
    by_cases hq : i / (2 * m) = q
    · rw [if_pos hq, if_pos hq, if_pos (Nat.mod_lt i hm)]
    · rw [if_neg hq, if_neg hq, if_neg (lt_irrefl m)]
  · intro b hb j _
    rw [length_butterfly, hb]
  · intro b hb j hj i
    rw [List.mem_range] at hj
    have howner : (if i / (2 * m) = q then i % m else m) = j ↔ i / (2 * m) = q ∧ i % m = j := by
      by_cases hq : i / (2 * m) = q
      · rw [if_pos hq, and_iff_right hq]
      · rw [if_neg hq]
        exact iff_of_false (by omega) (fun h => hq h.1)
    simp only [getD_butterfly v hj (hb ▸ hfit), howner]
  · intro f g i hfg
    refine butterflies_local v ?_
    intro i' hblock hplace
    exact hfg i' (by rw [hblock, hplace])

/-- **ONE ROUND** is one round of butterflies. -/
theorem getD_round {m c : ℕ} (hm : 0 < m) {a : List F} (ha : a.length = 2 * m * c) (omega : F) :
    (round (2 * m * c) omega a m).length = a.length ∧
      ∀ i < a.length, (round (2 * m * c) omega a m).getD i 0
        = butterflies m (omega ^ c) (fun i => a.getD i 0) i := by
  have hwidth : 0 < 2 * m := by omega
  have hblocks : (2 * m * c + 2 * m - 1) / (2 * m) = c := by
    rw [Nat.add_sub_assoc hwidth, block_div (by omega)]
  have hpower : 2 * m * c / (2 * m) = c := Nat.mul_div_cancel_left c hwidth
  rw [round, hblocks, hpower]
  -- block `q` owns its entries
  have hpass := foldl_in_place (P := fun b : List F => b.length = a.length)
    (fun b i => b.getD i 0) (fun a q => block m (omega ^ c) a (2 * m * q)) (fun i => i / (2 * m))
    (F := butterflies m (omega ^ c)) (s := a) (@List.nodup_range c) ?_ ?_ ?_ rfl
  · refine ⟨hpass.1, fun i hi => ?_⟩
    rw [hpass.2 i, if_pos]
    rw [List.mem_range, Nat.div_lt_iff_lt_mul hwidth, Nat.mul_comm, ← ha]
    exact hi
  all_goals
    have hfit : ∀ b : List F, b.length = a.length → ∀ q ∈ List.range c,
        2 * m * q + 2 * m ≤ b.length := by
      intro b hb q hq
      rw [hb, ha, ← Nat.mul_succ]
      exact Nat.mul_le_mul_left _ (List.mem_range.mp hq)
  · intro b hb q hq
    rw [(getD_block hm (omega ^ c) (hfit b hb q hq)).1, hb]
  · intro b hb q hq i
    exact (getD_block hm (omega ^ c) (hfit b hb q hq)).2 i
  · intro f g i hfg
    refine butterflies_local _ ?_
    intro i' hblock _
    exact hfg i' hblock

/-- After `s` rounds: the transforms of the blocks of width `2 ^ s`. -/
theorem foldl_round {e : ℕ} {omega : F} (homega : IsPrimitiveRoot omega (2 ^ e)) {a : List F}
    {f : ℕ → F} (ha : a.length = 2 ^ e) (hreversed : ∀ i < 2 ^ e, a.getD i 0 = f (reverseBits e i))
    {s d : ℕ} (hsd : d + s = e) :
    let p := (List.range s).foldl (fun p _ => (round (2 ^ e) omega p.1 p.2, p.2 * 2)) (a, 1)
    p.2 = 2 ^ s ∧ p.1.length = 2 ^ e ∧
      ∀ i < 2 ^ e, p.1.getD i 0 = blockTransform d s omega f i := by
  induction s generalizing d with
  | zero =>
    obtain rfl : d = e := hsd
    refine ⟨rfl, ha, fun i hi => ?_⟩
    rw [blockTransform_zero]
    exact hreversed i hi
  | succ s ih =>
    obtain ⟨hm, hlength, hblocks⟩ := ih (d := d + 1) (by omega)
    simp only [List.range_succ, List.foldl_append, List.foldl_cons, List.foldl_nil]
    generalize (List.range s).foldl (fun p _ => (round (2 ^ e) omega p.1 p.2, p.2 * 2)) (a, 1)
      = p at hm hlength hblocks ⊢
    have hsize : 2 ^ e = 2 * 2 ^ s * 2 ^ d := by
      rw [← hsd, pow_add, pow_succ']
      exact Nat.mul_comm _ _
    have hround := getD_round (Nat.two_pow_pos s) (hlength.trans hsize) omega
    have hminus : (omega ^ 2 ^ d) ^ 2 ^ s = -1 := by
      have he : d + s + 1 = e := by omega
      rw [← pow_mul, ← pow_add]
      exact pow_half_eq_neg_one (he ▸ homega)
    rw [← hsize] at hround
    rw [hm]
    refine ⟨(pow_succ 2 s).symm, hround.1.trans hlength, fun i hi => ?_⟩
    rw [hround.2 i (by omega), ← butterflies_block hminus f]
    refine butterflies_local _ ?_
    intro i' hblock _
    have hi' : i' < 2 ^ e := by
      rw [hsize, Nat.mul_comm, ← Nat.div_lt_iff_lt_mul (by positivity)] at hi ⊢
      rw [hblock]
      exact hi
    exact hblocks i' hi'

/-- The values of a vector's polynomial at the powers of `omega`. -/
theorem fft_eq {e : ℕ} (he : e < 32) {omega : F} (homega : IsPrimitiveRoot omega (2 ^ e))
    {a : List F} (ha : a.length = 2 ^ e) :
    fft a omega e = some ((List.range (2 ^ e)).map fun j =>
      ∑ i ∈ Finset.range (2 ^ e), a.getD i 0 * omega ^ (i * j)) := by
  have hn : a.length % 2 ^ 32 = 2 ^ e := by
    rw [ha, Nat.mod_eq_of_lt (Nat.pow_lt_pow_right Nat.one_lt_two he)]
  have hassert : e < 32 ∧ 2 ^ e = 1 <<< e := ⟨he, (Nat.one_shiftLeft e).symm⟩
  obtain ⟨hlength, hreversed⟩ := foldl_swap ha
  obtain ⟨-, hrounds, hvalues⟩ :=
    foldl_round (f := fun i => a.getD i 0) homega hlength hreversed (Nat.zero_add e)
  simp only [fft, hn, if_pos hassert, bitreverse_eq]
  refine congrArg some (List.ext_getElem ?_ ?_)
  · rw [hrounds, List.length_map, List.length_range]
  · intro i hi _
    have hie : i < 2 ^ e := hrounds ▸ hi
    have hvalue := hvalues i hie
    rw [blockTransform_last e omega _ hie, List.getD_eq_getElem _ _ hi] at hvalue
    rw [hvalue, List.getElem_map, List.getElem_range]

/-- A shift beyond 32 bits is refused. -/
theorem fft_none {e : ℕ} (he : 32 ≤ e) (a : List F) (omega : F) : fft a omega e = none :=
  if_neg fun hassert => Nat.not_lt.mpr he hassert.1

/-! ## What the transforms do to a polynomial -/

/-- The first `2 ^ e` coefficients. -/
noncomputable def coefficients (e : ℕ) (p : F[X]) : List F :=
  (List.range (2 ^ e)).map p.coeff

/-- The values on the coset of `g`. -/
noncomputable def cosetValues (e : ℕ) (omega g : F) (p : F[X]) : List F :=
  (List.range (2 ^ e)).map fun j => p.eval (g * omega ^ j)

@[simp] theorem length_coefficients (e : ℕ) (p : F[X]) :
    (coefficients e p).length = 2 ^ e := by
  rw [coefficients, List.length_map, List.length_range]

@[simp] theorem length_cosetValues (e : ℕ) (omega g : F) (p : F[X]) :
    (cosetValues e omega g p).length = 2 ^ e := by
  rw [cosetValues, List.length_map, List.length_range]

theorem getD_map_range (f : ℕ → F) {n i : ℕ} (hi : i < n) :
    ((List.range n).map f).getD i 0 = f i := by
  rw [List.getD_eq_getElem _ _ (by rwa [List.length_map, List.length_range]), List.getElem_map,
    List.getElem_range]

/-- The polynomial `p (g * X)`. -/
theorem degree_scaled_lt {n : ℕ} {p : F[X]} (hp : p.degree < n) (g : F) :
    (p.comp (C g * X)).degree < n := by
  rw [degree_lt_iff_coeff_zero]
  intro i hi
  rw [comp_C_mul_X_coeff, (degree_lt_iff_coeff_zero p n).mp hp i hi, zero_mul]

theorem cosetValues_eq (e : ℕ) (omega g : F) (p : F[X]) :
    cosetValues e omega g p = cosetValues e omega 1 (p.comp (C g * X)) := by
  refine List.map_congr_left ?_
  intro j _
  rw [eval_comp, eval_mul, eval_C, eval_X, one_mul]

theorem scalePowers_map_range (g u : F) (f : ℕ → F) (n : ℕ) :
    scalePowers g u ((List.range n).map f) = (List.range n).map fun i => f i * (u * g ^ i) := by
  induction n generalizing f u with
  | zero => rfl
  | succ n ih =>
    rw [List.range_succ_eq_map, List.map_cons, List.map_map, scalePowers, ih, List.map_cons,
      List.map_map, pow_zero, mul_one]
    refine congrArg _ (List.map_congr_left ?_)
    intro i _
    rw [Function.comp_apply, Function.comp_apply, Nat.succ_eq_add_one, pow_succ', mul_assoc]

theorem scalePowers_coefficients (g : F) (e : ℕ) (p : F[X]) :
    scalePowers g 1 (coefficients e p) = coefficients e (p.comp (C g * X)) := by
  rw [coefficients, scalePowers_map_range]
  refine List.map_congr_left ?_
  intro i _
  rw [comp_C_mul_X_coeff, one_mul]

variable {e : ℕ} {omega : F}

/-- **FFT**: from coefficients to values. -/
theorem fft_coefficients (he : e < 32) (homega : IsPrimitiveRoot omega (2 ^ e)) {p : F[X]}
    (hp : p.degree < (2 ^ e : ℕ)) :
    fft (coefficients e p) omega e = some (cosetValues e omega 1 p) := by
  rw [fft_eq he homega (length_coefficients e p)]
  refine congrArg some (List.map_congr_left ?_)
  intro j _
  nth_rewrite 2 [← ofCoefficients_coeff hp]
  rw [one_mul, eval_ofCoefficients]
  refine Finset.sum_congr rfl ?_
  intro i hi
  rw [coefficients, getD_map_range _ (Finset.mem_range.mp hi), ← pow_mul, Nat.mul_comm]

/-- **INVERSE FFT**: from values to coefficients. -/
theorem ifft_values [DecidableEq F] (he : e < 32) (homega : IsPrimitiveRoot omega (2 ^ e))
    {p : F[X]} (hp : p.degree < (2 ^ e : ℕ)) :
    ifft (cosetValues e omega 1 p) omega e = some (coefficients e p) := by
  have homega0 : omega ≠ 0 := homega.ne_zero (Nat.two_pow_pos e).ne'
  have hsize : ((2 ^ e : ℕ) : F) ≠ 0 := homega.neZero'.ne
  simp only [ifft, invert, if_neg homega0, Option.bind_eq_bind, Option.bind_some,
    fft_eq he homega.inv (length_cosetValues e omega 1 p), List.length_map, List.length_range,
    if_neg hsize, List.map_map]
  refine congrArg some (List.map_congr_left ?_)
  intro k hk
  rw [List.mem_range] at hk
  have hvalues : ∀ j ∈ Finset.range (2 ^ e), (cosetValues e omega 1 p).getD j 0
      = ∑ i ∈ Finset.range (2 ^ e), p.coeff i * omega ^ (i * j) := by
    intro j hj
    rw [cosetValues, getD_map_range _ (Finset.mem_range.mp hj)]
    nth_rewrite 1 [← ofCoefficients_coeff hp]
    rw [one_mul, eval_ofCoefficients]
    simp only [← pow_mul, Nat.mul_comm]
  rw [Function.comp_apply, Finset.sum_congr rfl (fun j hj => by rw [hvalues j hj]),
    inverse_transform homega p.coeff hk, mul_right_comm, mul_inv_cancel₀ hsize, one_mul]

/-- **COSET FFT**: from coefficients to values on the coset of the generator. -/
theorem cosetFft_coefficients (fr : PrimeField F) (he : e < 32)
    (homega : IsPrimitiveRoot omega (2 ^ e)) {p : F[X]} (hp : p.degree < (2 ^ e : ℕ)) :
    cosetFft fr (coefficients e p) omega e
      = some (cosetValues e omega fr.multiplicativeGenerator p) := by
  rw [cosetFft, scalePowers_coefficients, fft_coefficients he homega (degree_scaled_lt hp _),
    ← cosetValues_eq]

/-- **INVERSE COSET FFT**: from values on the coset to coefficients. -/
theorem icosetFft_values [DecidableEq F] (fr : PrimeField F) (he : e < 32)
    (homega : IsPrimitiveRoot omega (2 ^ e)) {p : F[X]} (hp : p.degree < (2 ^ e : ℕ)) :
    icosetFft fr (cosetValues e omega fr.multiplicativeGenerator p) omega e
      = some (coefficients e p) := by
  rw [icosetFft, cosetValues_eq, ifft_values he homega (degree_scaled_lt hp _)]
  simp only [Option.bind_eq_bind, Option.bind_some, invert, if_neg fr.generator_ne_zero,
    scalePowers_coefficients]
  refine congrArg some (List.map_congr_left ?_)
  intro i _
  rw [comp_C_mul_X_coeff, comp_C_mul_X_coeff, mul_assoc, ← mul_pow,
    mul_inv_cancel₀ fr.generator_ne_zero, one_pow, mul_one]

/-- Every vector of the domain's size holds the values of a polynomial. -/
theorem exists_values (homega : IsPrimitiveRoot omega (2 ^ e)) {a : List F}
    (ha : a.length = 2 ^ e) :
    ∃ p : F[X], p.degree < (2 ^ e : ℕ) ∧ a = cosetValues e omega 1 p := by
  have hnodes := injOn_powers homega
  refine ⟨Lagrange.interpolate (Finset.range (2 ^ e)) (fun j => omega ^ j) (fun j => a.getD j 0),
    ?_, List.ext_getElem (by rw [ha, length_cosetValues]) ?_⟩
  · have hdegree := Lagrange.degree_interpolate_lt (fun j => a.getD j 0) hnodes
    rwa [Finset.card_range] at hdegree
  · intro j hj _
    have hmem : j ∈ Finset.range (2 ^ e) := Finset.mem_range.mpr (ha ▸ hj)
    simp only [cosetValues, List.getElem_map, List.getElem_range, one_mul]
    rw [Lagrange.eval_interpolate_at_node _ hnodes hmem, List.getD_eq_getElem _ _ hj]

/-- `coset_mul_assign`: the values of a product on the coset. -/
theorem cosetMulAssign_values [DecidableEq F] (fr : PrimeField F) {l : ℕ} (hl : l ≤ 2 ^ fr.S)
    (he : domainExp l < 32) {p q : F[X]} (hp : p.degree < (2 ^ domainExp l : ℕ))
    (hq : q.degree < (2 ^ domainExp l : ℕ)) :
    cosetMulAssign fr (cosetValues (domainExp l) (domainRoot fr l) 1 p)
        (cosetValues (domainExp l) (domainRoot fr l) 1 q)
      = some (cosetValues (domainExp l) (domainRoot fr l) fr.multiplicativeGenerator (p * q)) := by
  have homega := domainRoot_primitive fr hl
  rw [cosetMulAssign, if_pos (by rw [length_cosetValues, length_cosetValues]),
    length_cosetValues, fftParams_eq, domainRoot_two_pow, domainExp_two_pow]
  simp only [ifft_values he homega hp, ifft_values he homega hq,
    cosetFft_coefficients fr he homega hp, cosetFft_coefficients fr he homega hq,
    Option.bind_eq_bind, Option.bind_some]
  simp only [cosetValues, List.zipWith_map, List.zipWith_self, eval_mul, Option.pure_def]

end Poly

end Albus.Groth16
