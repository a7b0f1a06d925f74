import Mathlib.Algebra.Ring.GeomSum
import Mathlib.RingTheory.RootsOfUnity.PrimitiveRoots
import Mathlib.Tactic.Ring

/-! # The radix-2 Fourier transform, in place

    A vector of `2^e` entries is permuted by the reversal of its indices' bits; then `e`
    rounds of butterflies follow, each of which combines neighbouring blocks of equal
    width into blocks of twice the width.  After round `s` every block holds the transform
    of the entries that share their low `e - s` index bits (`butterflies_block`), and after
    the last one the vector holds the transform of the whole.

    Both loops work in place.  What makes this safe is that a step reads no entry that
    another step has written; `foldl_in_place` is that argument, said once. -/

namespace Albus.Lib

/-! ## Bit reversal -/

/-- The low `l` bits of a number, in reverse. -/
def reverseBits : ℕ → ℕ → ℕ
  | 0, _ => 0
  | l + 1, n => 2 ^ l * (n % 2) + reverseBits l (n / 2)

theorem reverseBits_succ (l n : ℕ) :
    reverseBits (l + 1) n = 2 ^ l * (n % 2) + reverseBits l (n / 2) := rfl

theorem reverseBits_even (l b : ℕ) : reverseBits (l + 1) (2 * b) = reverseBits l b := by
  rw [reverseBits_succ, Nat.mul_mod_right, Nat.mul_zero, Nat.zero_add,
    Nat.mul_div_cancel_left b (by omega)]

theorem reverseBits_odd (l b : ℕ) :
    reverseBits (l + 1) (2 * b + 1) = 2 ^ l + reverseBits l b := by
  have hmod : (2 * b + 1) % 2 = 1 := by omega
  have hdiv : (2 * b + 1) / 2 = b := by omega
  rw [reverseBits_succ, hmod, hdiv, Nat.mul_one]

theorem reverseBits_lt (l n : ℕ) : reverseBits l n < 2 ^ l := by
  induction l generalizing n with
  | zero => exact Nat.one_pos
  | succ l ih =>
    have hrest := ih (n / 2)
    rw [reverseBits_succ, pow_succ]
    obtain h | h := Nat.mod_two_eq_zero_or_one n <;> rw [h] <;> omega

/-- The top bit of the argument is the low bit of the result. -/
theorem reverseBits_top {l x t : ℕ} (hx : x < 2 ^ l) (ht : t < 2) :
    reverseBits (l + 1) (2 ^ l * t + x) = 2 * reverseBits l x + t := by
  induction l generalizing x with
  | zero =>
    obtain rfl : x = 0 := by omega
    simp only [reverseBits]
    omega
  | succ l ih =>
    have hmod : (2 ^ (l + 1) * t + x) % 2 = x % 2 := by
      rw [pow_succ', Nat.mul_assoc, Nat.mul_add_mod]
    have hdiv : (2 ^ (l + 1) * t + x) / 2 = 2 ^ l * t + x / 2 := by
      rw [pow_succ', Nat.mul_assoc, Nat.mul_add_div (by omega)]
    rw [reverseBits_succ, hmod, hdiv, ih (by rw [pow_succ] at hx; omega), reverseBits_succ,
      pow_succ]
    ring

theorem reverseBits_reverseBits {l n : ℕ} (hn : n < 2 ^ l) :
    reverseBits l (reverseBits l n) = n := by
  induction l generalizing n with
  | zero => exact (Nat.lt_one_iff.mp hn).symm
  | succ l ih =>
    have hrest : n / 2 < 2 ^ l := by
      rw [pow_succ] at hn
      omega
    rw [reverseBits_succ l n, reverseBits_top (reverseBits_lt l _) (Nat.mod_lt n (by omega)),
      ih hrest]
    exact Nat.div_add_mod n 2

/-! ## A pass in place -/

section InPlace

variable {σ ι κ V : Type*} [DecidableEq ι]

/-- Step `t` of a pass over a state replaces the entries it owns by what `F` says of the
    state it finds.  Where `F` at an entry depends on the entries of the same owner only,
    the pass as a whole replaces every entry it owns by what `F` says of the state the
    pass began with. -/
theorem foldl_in_place {P : σ → Prop} (get : σ → κ → V) (step : σ → ι → σ) (owner : κ → ι)
    {F : (κ → V) → κ → V} {ts : List ι} (hnodup : ts.Nodup)
    (hinv : ∀ s, P s → ∀ t ∈ ts, P (step s t))
    (hstep : ∀ s, P s → ∀ t ∈ ts, ∀ k,
      get (step s t) k = if owner k = t then F (get s) k else get s k)
    (hlocal : ∀ f g k, (∀ k', owner k' = owner k → f k' = g k') → F f k = F g k)
    {s : σ} (hs : P s) :
    P (ts.foldl step s) ∧
      ∀ k, get (ts.foldl step s) k = if owner k ∈ ts then F (get s) k else get s k := by
  induction ts generalizing s with
  | nil => exact ⟨hs, fun k => rfl⟩
  | cons t ts ih =>
    obtain ⟨hfresh, hnodup⟩ := List.nodup_cons.mp hnodup
    have hfirst := hstep s hs t List.mem_cons_self
    obtain ⟨hend, hrest⟩ := ih hnodup (fun s hs u hu => hinv s hs u (List.mem_cons_of_mem t hu))
      (fun s hs u hu => hstep s hs u (List.mem_cons_of_mem t hu))
      (hinv s hs t List.mem_cons_self)
    refine ⟨hend, fun k => ?_⟩
    rw [List.foldl_cons, hrest k]
    by_cases hkt : owner k = t
    · rw [if_neg (hkt ▸ hfresh), hfirst k, if_pos hkt, if_pos (hkt ▸ List.mem_cons_self)]
    · have hmem : owner k ∈ t :: ts ↔ owner k ∈ ts := by
        rw [List.mem_cons]
        exact or_iff_right hkt
      have hsame : F (get (step s t)) k = F (get s) k := by
        refine hlocal _ _ k ?_
        intro k' hk'
        rw [hfirst k', if_neg (hk' ▸ hkt)]
      simp only [hmem, hsame, hfirst k, if_neg hkt]

end InPlace

/-! ## Butterflies -/

section Butterflies

variable {K : Type*} [CommRing K]

/-- One round: in every block of `2 * h` entries, entry `j` of the first half and entry `j` of
    the second are replaced by their sum and their difference, the second times `v^j`. -/
def butterflies (h : ℕ) (v : K) (f : ℕ → K) (i : ℕ) : K :=
  if i % (2 * h) < h then f i + f (i + h) * v ^ (i % (2 * h))
  else f (i - h) - f i * v ^ (i % (2 * h) - h)

theorem block_div {h q r : ℕ} (hr : r < 2 * h) : (2 * h * q + r) / (2 * h) = q := by
  rw [Nat.mul_add_div (by omega), Nat.div_eq_of_lt hr, Nat.add_zero]

theorem block_mod {h q r : ℕ} (hr : r < 2 * h) : (2 * h * q + r) % (2 * h) = r := by
  rw [Nat.mul_add_mod, Nat.mod_eq_of_lt hr]

theorem butterflies_first {h q j : ℕ} (v : K) (f : ℕ → K) (hj : j < h) :
    butterflies h v f (2 * h * q + j)
      = f (2 * h * q + j) + f (2 * h * q + j + h) * v ^ j := by
  rw [butterflies, block_mod (by omega), if_pos hj]

theorem butterflies_second {h q j : ℕ} (v : K) (f : ℕ → K) (hj : j < h) :
    butterflies h v f (2 * h * q + j + h)
      = f (2 * h * q + j) - f (2 * h * q + j + h) * v ^ j := by
  have hmod : (2 * h * q + j + h) % (2 * h) = j + h := by
    rw [Nat.add_assoc, block_mod (by omega)]
  rw [butterflies, hmod, if_neg (by omega), Nat.add_sub_cancel, Nat.add_sub_cancel]

/-- The two entries of butterfly `j` in block `q`. -/
theorem mem_butterfly_iff {h q j i : ℕ} (hj : j < h) :
    i / (2 * h) = q ∧ i % h = j ↔ i = 2 * h * q + j ∨ i = 2 * h * q + j + h := by
  constructor
  · rintro ⟨rfl, hmod⟩
    have hsplit := Nat.div_add_mod i (2 * h)
    have hrest := Nat.mod_lt i (show 2 * h > 0 by omega)
    have hhalf : i % (2 * h) % h = j := (Nat.mod_mul_left_mod i 2 h).trans hmod
    by_cases hlow : i % (2 * h) < h
    · rw [Nat.mod_eq_of_lt hlow] at hhalf
      omega
    · rw [Nat.mod_eq_sub_mod (not_lt.mp hlow), Nat.mod_eq_of_lt (by omega)] at hhalf
      omega
  · have hmod : (2 * h * q + j) % h = j := by
      rw [Nat.mul_comm 2, Nat.mul_assoc, Nat.mul_add_mod, Nat.mod_eq_of_lt hj]
    rintro (rfl | rfl)
    · exact ⟨block_div (by omega), hmod⟩
    · rw [Nat.add_mod_right]
      refine ⟨?_, hmod⟩
      rw [Nat.add_assoc]
      exact block_div (by omega)

/-- A butterfly reads entries of its own block only, at its own place in the halves. -/
theorem butterflies_local {h : ℕ} (v : K) {f g : ℕ → K} {i : ℕ}
    (hfg : ∀ i', i' / (2 * h) = i / (2 * h) → i' % h = i % h → f i' = g i') :
    butterflies h v f i = butterflies h v g i := by
  have hown := hfg i rfl rfl
  by_cases hfirst : i % (2 * h) < h
  · have hpartner : (i + h) / (2 * h) = i / (2 * h) := by
      have hi := Nat.div_add_mod i (2 * h)
      rw [Nat.div_eq_iff (by omega), Nat.mul_comm (i / (2 * h))]
      omega
    rw [butterflies, butterflies, if_pos hfirst, if_pos hfirst, hown,
      hfg (i + h) hpartner (Nat.add_mod_right i h)]
  · have hle : h ≤ i := le_trans (not_lt.mp hfirst) (Nat.mod_le i _)
    have hpartner : (i - h) / (2 * h) = i / (2 * h) := by
      obtain rfl | hpos := Nat.eq_zero_or_pos h
      · rfl
      have hi := Nat.div_add_mod i (2 * h)
      have hrest := Nat.mod_lt i (show 2 * h > 0 by omega)
      rw [Nat.div_eq_iff (by omega), Nat.mul_comm (i / (2 * h))]
      omega
    rw [butterflies, butterflies, if_neg hfirst, if_neg hfirst, hown,
      hfg (i - h) hpartner (Nat.mod_eq_sub_mod hle).symm]

/-- The vector after `s` of `d + s` rounds: entry `j` of block `b`. -/
def blockTransform (d s : ℕ) (w : K) (f : ℕ → K) (i : ℕ) : K :=
  ∑ t ∈ Finset.range (2 ^ s),
    f (t * 2 ^ d + reverseBits d (i / 2 ^ s)) * (w ^ 2 ^ d) ^ (t * (i % 2 ^ s))

theorem sum_range_two_mul {M : Type*} [AddCommMonoid M] (g : ℕ → M) (n : ℕ) :
    ∑ t ∈ Finset.range (2 * n), g t
      = ∑ t ∈ Finset.range n, g (2 * t) + ∑ t ∈ Finset.range n, g (2 * t + 1) := by
  induction n with
  | zero => exact (add_zero 0).symm
  | succ n ih =>
    rw [Nat.mul_succ, Finset.sum_range_succ, Finset.sum_range_succ, ih,
      Finset.sum_range_succ _ n, Finset.sum_range_succ _ n]
    abel

theorem blockTransform_zero (e : ℕ) (w : K) (f : ℕ → K) (i : ℕ) :
    blockTransform e 0 w f i = f (reverseBits e i) := by
  simp [blockTransform]

theorem blockTransform_last (e : ℕ) (w : K) (f : ℕ → K) {i : ℕ} (hi : i < 2 ^ e) :
    blockTransform 0 e w f i = ∑ t ∈ Finset.range (2 ^ e), f t * w ^ (t * i) := by
  simp [blockTransform, reverseBits, Nat.mod_eq_of_lt hi]

theorem blockTransform_block {d s b j : ℕ} (w : K) (f : ℕ → K) (hj : j < 2 ^ s) :
    blockTransform d s w f (b * 2 ^ s + j)
      = ∑ t ∈ Finset.range (2 ^ s),
          f (t * 2 ^ d + reverseBits d b) * (w ^ 2 ^ d) ^ (t * j) := by
  have hdiv : (b * 2 ^ s + j) / 2 ^ s = b := by
    rw [Nat.mul_comm, Nat.mul_add_div (Nat.two_pow_pos s), Nat.div_eq_of_lt hj, Nat.add_zero]
  have hmod : (b * 2 ^ s + j) % 2 ^ s = j := by
    rw [Nat.mul_comm, Nat.mul_add_mod, Nat.mod_eq_of_lt hj]
  rw [blockTransform, hdiv, hmod]

/-- The transform of a block splits into those of its two halves: the entries of even index,
    and those of odd index. -/
theorem blockTransform_split {d s b j : ℕ} (w : K) (f : ℕ → K) (hj : j < 2 ^ (s + 1)) :
    blockTransform d (s + 1) w f (b * 2 ^ (s + 1) + j)
      = ∑ t ∈ Finset.range (2 ^ s),
          f (t * 2 ^ (d + 1) + reverseBits (d + 1) (2 * b)) * (w ^ 2 ^ (d + 1)) ^ (t * j)
        + (∑ t ∈ Finset.range (2 ^ s),
          f (t * 2 ^ (d + 1) + reverseBits (d + 1) (2 * b + 1)) * (w ^ 2 ^ (d + 1)) ^ (t * j))
          * (w ^ 2 ^ d) ^ j := by
  have hsquare : w ^ 2 ^ (d + 1) = (w ^ 2 ^ d) ^ 2 := by
    rw [pow_succ, pow_mul]
  rw [blockTransform_block w f hj, pow_succ' 2 s, sum_range_two_mul, reverseBits_even,
    reverseBits_odd, hsquare, Finset.sum_mul]
  congr 1
  · refine Finset.sum_congr rfl ?_
    intro t _
    have hindex : 2 * t * 2 ^ d = t * 2 ^ (d + 1) := by ring
    rw [hindex, ← pow_mul _ 2, Nat.mul_assoc]
  · refine Finset.sum_congr rfl ?_
    intro t _
    have hindex : (2 * t + 1) * 2 ^ d + reverseBits d b
        = t * 2 ^ (d + 1) + (2 ^ d + reverseBits d b) := by ring
    rw [hindex, mul_assoc, ← pow_mul _ 2, ← pow_add]
    congr 2
    ring

/-- **ONE ROUND OF BUTTERFLIES** makes blocks of twice the width out of the blocks it finds. -/
theorem butterflies_block {d s : ℕ} {w : K} (hw : (w ^ 2 ^ d) ^ 2 ^ s = -1) (f : ℕ → K) :
    butterflies (2 ^ s) (w ^ 2 ^ d) (blockTransform (d + 1) s w f)
      = blockTransform d (s + 1) w f := by
  funext i
  have hwidth : 2 * 2 ^ s = 2 ^ (s + 1) := (pow_succ' 2 s).symm
  obtain ⟨q, j, hj, hi⟩ : ∃ q j, j < 2 ^ s ∧
      (i = 2 * 2 ^ s * q + j ∨ i = 2 * 2 ^ s * q + j + 2 ^ s) :=
    ⟨i / (2 * 2 ^ s), i % 2 ^ s, Nat.mod_lt i (Nat.two_pow_pos s),
      (mem_butterfly_iff (Nat.mod_lt i (Nat.two_pow_pos s))).mp ⟨rfl, rfl⟩⟩
  -- the two halves are the blocks `2 * q` and `2 * q + 1` of the round before
  have heven : 2 * 2 ^ s * q + j = 2 * q * 2 ^ s + j := by ring
  have hodd : 2 * 2 ^ s * q + j + 2 ^ s = (2 * q + 1) * 2 ^ s + j := by ring
  rcases hi with rfl | rfl
  · have hblock : 2 * 2 ^ s * q + j = q * 2 ^ (s + 1) + j := by rw [hwidth, Nat.mul_comm]
    rw [butterflies_first _ _ hj, hodd, heven, blockTransform_block w f hj,
      blockTransform_block w f hj, ← heven, hblock, blockTransform_split w f (by omega)]
  · have hblock : 2 * 2 ^ s * q + j + 2 ^ s = q * 2 ^ (s + 1) + (2 ^ s + j) := by
      rw [hwidth, Nat.mul_comm]
      omega
    -- the powers of the second half are those of the first, the twiddle factor is negated
    have hperiod : ∀ t, (w ^ 2 ^ (d + 1)) ^ (t * (2 ^ s + j)) = (w ^ 2 ^ (d + 1)) ^ (t * j) := by
      intro t
      have hone : (w ^ 2 ^ (d + 1)) ^ 2 ^ s = 1 := by
        rw [pow_succ 2 d, pow_mul w, ← pow_mul, Nat.mul_comm, pow_mul, hw, neg_one_sq]
      rw [Nat.mul_add, pow_add, Nat.mul_comm t, pow_mul _ (2 ^ s), hone, one_pow, one_mul]
    rw [butterflies_second _ _ hj, hodd, heven, blockTransform_block w f hj,
      blockTransform_block w f hj, ← hodd, hblock, blockTransform_split w f (by omega)]
    simp only [hperiod, pow_add (w ^ 2 ^ d) (2 ^ s) j, hw]
    ring

end Butterflies

/-! ## The inverse transform -/

section Inverse

variable {K : Type*} [Field K] {w : K} {n : ℕ}

/-- The powers of a root of unity sum to zero over the domain, unless they are all one. -/
theorem sum_root_powers (hw : IsPrimitiveRoot w n) {i k : ℕ} (hi : i < n) (hk : k < n) :
    ∑ j ∈ Finset.range n, w ^ (i * j) * w⁻¹ ^ (j * k) = if i = k then (n : K) else 0 := by
  have hne : w ≠ 0 := hw.ne_zero (by omega)
  have hterm : ∀ j, w ^ (i * j) * w⁻¹ ^ (j * k) = (w ^ i * w⁻¹ ^ k) ^ j := by
    intro j
    rw [Nat.mul_comm j k, pow_mul, pow_mul, mul_pow]
  rw [Finset.sum_congr rfl (fun j _ => hterm j)]
  by_cases hik : i = k
  · subst hik
    have hone : w ^ i * w⁻¹ ^ i = 1 := by rw [← mul_pow, mul_inv_cancel₀ hne, one_pow]
    simp only [hone, one_pow, Finset.sum_const, Finset.card_range, nsmul_eq_mul, mul_one, if_true]
  · have hratio : w ^ i * w⁻¹ ^ k - 1 ≠ 0 := by
      intro h
      rw [inv_pow, ← div_eq_mul_inv, sub_eq_zero, div_eq_one_iff_eq (pow_ne_zero k hne)] at h
      exact hik (hw.pow_inj hi hk h)
    have hzero : (w ^ i * w⁻¹ ^ k) ^ n = 1 := by
      rw [mul_pow, ← pow_mul, ← pow_mul, Nat.mul_comm i, Nat.mul_comm k, pow_mul, pow_mul,
        hw.pow_eq_one, hw.inv.pow_eq_one, one_pow, one_pow, mul_one]
    rw [if_neg hik]
    refine (mul_eq_zero.mp ?_).resolve_right hratio
    rw [geom_sum_mul, hzero, sub_self]

/-- **THE TRANSFORM IS UNDONE** by the transform at the inverse root, up to the factor `n`. -/
theorem inverse_transform (hw : IsPrimitiveRoot w n) (f : ℕ → K) {k : ℕ} (hk : k < n) :
    ∑ j ∈ Finset.range n, (∑ i ∈ Finset.range n, f i * w ^ (i * j)) * w⁻¹ ^ (j * k)
      = n * f k := by
  calc ∑ j ∈ Finset.range n, (∑ i ∈ Finset.range n, f i * w ^ (i * j)) * w⁻¹ ^ (j * k)
      = ∑ j ∈ Finset.range n, ∑ i ∈ Finset.range n, f i * (w ^ (i * j) * w⁻¹ ^ (j * k)) := by
        simp only [Finset.sum_mul, mul_assoc]
    _ = ∑ i ∈ Finset.range n, f i * ∑ j ∈ Finset.range n, w ^ (i * j) * w⁻¹ ^ (j * k) := by
        rw [Finset.sum_comm]
        simp only [Finset.mul_sum]
    _ = ∑ i ∈ Finset.range n, f i * if i = k then (n : K) else 0 := by
        refine Finset.sum_congr rfl ?_
        intro i hi
        rw [sum_root_powers hw (Finset.mem_range.mp hi) hk]
    _ = n * f k := by
        rw [Finset.sum_eq_single_of_mem k (Finset.mem_range.mpr hk), if_pos rfl, mul_comm]
        intro i _ hik
        rw [if_neg hik, mul_zero]

theorem pow_half_eq_neg_one {e : ℕ} (hw : IsPrimitiveRoot w (2 ^ (e + 1))) :
    w ^ 2 ^ e = -1 :=
  (hw.pow (Nat.two_pow_pos _) (pow_succ 2 e)).eq_neg_one_of_two_right

end Inverse

end Albus.Lib
