import Mathlib.Data.Matrix.Mul
import Mathlib.Tactic.Abel

/-! # A permutation of full and partial rounds, and its sparse form

    A round adds constants, applies an S-box and mixes with one matrix `M`.  In the middle
    rounds the S-box acts on one coordinate only, and the work of the others can be moved
    across it: the mix becomes a sparse matrix `S r`, and the constants one number `k r`.

    The heart is the relation of `sparse_eq`: what the plain rounds hold after their
    constants is `K r` times what the sparse rounds hold, plus `d r`, where `K r` and `d r`
    leave the coordinate of the S-box alone.  `SparseForm` collects the equations between
    the two sets of constants, and under them the whole permutations agree
    (`optimised_eq_plain`). -/

namespace Albus.Lib

open Matrix

variable {R ι : Type*} [CommRing R] [Fintype ι] [DecidableEq ι]

/-- The S-box on every coordinate. -/
def sboxAll (σ : R → R) (x : ι → R) : ι → R := fun i => σ (x i)

/-- The S-box on one coordinate. -/
def sboxAt (σ : R → R) (i₀ : ι) (x : ι → R) : ι → R := Function.update x i₀ (σ (x i₀))

/-! ## The two permutations -/

section Rounds

variable (σ : R → R) (i₀ : ι) (M P : Matrix ι ι R) (n N : ℕ)

/-- The first rounds of the plain permutation: `n + 1` full ones, `N` partial ones, and
    full ones again. -/
def plainRounds (c : ℕ → ι → R) : ℕ → (ι → R) → ι → R
  | 0, x => x
  | r + 1, x =>
      let y := plainRounds c r x + c r
      M *ᵥ if r < n + 1 ∨ n + 1 + N ≤ r then sboxAll σ y else sboxAt σ i₀ y

/-- Full rounds with their constants after the S-box. -/
def denseRounds (a : ℕ → ι → R) : ℕ → (ι → R) → ι → R
  | 0, y => y
  | r + 1, y => M *ᵥ (sboxAll σ (denseRounds a r y) + a r)

/-- Partial rounds with one constant, and a matrix of their own. -/
def sparseRounds (S : ℕ → Matrix ι ι R) (k : ℕ → R) : ℕ → (ι → R) → ι → R
  | 0, y => y
  | r + 1, y => S r *ᵥ (sboxAt σ i₀ (sparseRounds S k r y) + Pi.single i₀ (k r))

/-- The optimised permutation. -/
def optimised (first : ι → R) (a b : ℕ → ι → R) (S : ℕ → Matrix ι ι R) (k : ℕ → R)
    (x : ι → R) : ι → R :=
  let y := P *ᵥ (sboxAll σ (denseRounds σ M a n (x + first)) + a n)
  M *ᵥ sboxAll σ (denseRounds σ M b n (sparseRounds σ i₀ S k N y))

end Rounds

/-- A matrix that neither reads nor changes the coordinate `i₀`. -/
structure Fixes (i₀ : ι) (K : Matrix ι ι R) : Prop where
  row : ∀ j, K i₀ j = (1 : Matrix ι ι R) i₀ j
  col : ∀ i, K i i₀ = (1 : Matrix ι ι R) i i₀

/-- The equations between the plain constants and the optimised ones. -/
structure SparseForm (i₀ : ι) (M P : Matrix ι ι R) (n N : ℕ) (c : ℕ → ι → R)
    (first : ι → R) (a b : ℕ → ι → R) (S : ℕ → Matrix ι ι R) (k : ℕ → R)
    (K : ℕ → Matrix ι ι R) (d : ℕ → ι → R) : Prop where
  first : first = c 0
  before : ∀ r < n, M *ᵥ a r = c (r + 1)
  enter : K 0 * P = M
  enterConst : M *ᵥ a n + d 0 = c (n + 1)
  fixes : ∀ r < N, Fixes i₀ (K r)
  zero : ∀ r < N, d r i₀ = 0
  step : ∀ r < N, M * K r = K (r + 1) * S r
  stepConst : ∀ r < N,
    M *ᵥ d r + c (n + 1 + r + 1) = M *ᵥ Pi.single i₀ (k r) + d (r + 1)
  leave : K N = 1
  leaveConst : d N = 0
  after : ∀ r < n, M *ᵥ b r = c (n + 1 + N + r + 1)

section Agreement

variable {σ : R → R} {i₀ : ι} {M P : Matrix ι ι R} {n N : ℕ} {c : ℕ → ι → R}
  {first : ι → R} {a b : ℕ → ι → R} {S : ℕ → Matrix ι ι R} {k : ℕ → R}
  {K : ℕ → Matrix ι ι R} {d : ℕ → ι → R}

theorem plainRounds_full {r : ℕ} (h : r < n + 1 ∨ n + 1 + N ≤ r) (x : ι → R) :
    plainRounds σ i₀ M n N c (r + 1) x
      = M *ᵥ sboxAll σ (plainRounds σ i₀ M n N c r x + c r) := by
  rw [plainRounds, if_pos h]

theorem plainRounds_partial {r : ℕ} (h : r < N) (x : ι → R) :
    plainRounds σ i₀ M n N c (n + 1 + r + 1) x
      = M *ᵥ sboxAt σ i₀ (plainRounds σ i₀ M n N c (n + 1 + r) x + c (n + 1 + r)) := by
  rw [plainRounds, if_neg (by omega)]

/-! ## What the S-box commutes with -/

theorem Fixes.apply {K' : Matrix ι ι R} (h : Fixes i₀ K') (x : ι → R) : (K' *ᵥ x) i₀ = x i₀ := by
  have hrow : K' i₀ = (1 : Matrix ι ι R) i₀ := funext h.row
  rw [mulVec, hrow]
  exact congrFun (one_mulVec x) i₀

theorem Fixes.single {K' : Matrix ι ι R} (h : Fixes i₀ K') (v : R) :
    K' *ᵥ Pi.single i₀ v = Pi.single i₀ v := by
  have hcol : K'.col i₀ = (1 : Matrix ι ι R).col i₀ := funext h.col
  rw [mulVec_single, hcol, ← mulVec_single, one_mulVec]

omit [Fintype ι] in
theorem sboxAt_eq_add (x : ι → R) :
    sboxAt σ i₀ x = x + Pi.single i₀ (σ (x i₀) - x i₀) := by
  funext i
  by_cases h : i = i₀
  · subst h
    rw [sboxAt, Function.update_self, Pi.add_apply, Pi.single_eq_same, add_sub_cancel]
  · rw [sboxAt, Function.update_of_ne h, Pi.add_apply, Pi.single_eq_of_ne h, add_zero]

/-- What leaves the coordinate alone can be moved across its S-box. -/
theorem sboxAt_fixes {K' : Matrix ι ι R} (h : Fixes i₀ K') {e : ι → R} (he : e i₀ = 0)
    (y : ι → R) : sboxAt σ i₀ (K' *ᵥ y + e) = K' *ᵥ sboxAt σ i₀ y + e := by
  have hi : (K' *ᵥ y + e) i₀ = y i₀ := by
    rw [Pi.add_apply, h.apply, he, add_zero]
  rw [sboxAt_eq_add, hi, sboxAt_eq_add y, mulVec_add, h.single]
  abel

/-! ## Round by round -/

/-- Full rounds: the constants are those of the plain round after. -/
theorem denseRounds_eq (σ : R → R) (i₀ : ι) (N : ℕ) {s : ℕ} (x : ι → R)
    (hfull : ∀ r < n, s + r < n + 1 ∨ n + 1 + N ≤ s + r)
    (ha : ∀ r < n, M *ᵥ a r = c (s + r + 1)) : ∀ r ≤ n,
    denseRounds σ M a r (plainRounds σ i₀ M n N c s x + c s)
      = plainRounds σ i₀ M n N c (s + r) x + c (s + r) := by
  intro r
  induction r with
  | zero => exact fun _ => rfl
  | succ r ih =>
      intro hr
      rw [denseRounds, ih (Nat.le_of_succ_le hr), mulVec_add, ha r hr, ← Nat.add_assoc,
        plainRounds_full (hfull r hr)]

/-- One partial round. -/
theorem SparseForm.step_eq (h : SparseForm i₀ M P n N c first a b S k K d) {r : ℕ}
    (hr : r < N) {x y : ι → R} (heq : x + c (n + 1 + r) = K r *ᵥ y + d r) :
    M *ᵥ sboxAt σ i₀ (x + c (n + 1 + r)) + c (n + 1 + r + 1)
      = K (r + 1) *ᵥ (S r *ᵥ (sboxAt σ i₀ y + Pi.single i₀ (k r))) + d (r + 1) := by
  have hmix : ∀ z, K (r + 1) *ᵥ (S r *ᵥ z) = M *ᵥ (K r *ᵥ z) := by
    intro z
    rw [mulVec_mulVec, mulVec_mulVec, h.step r hr]
  rw [heq, sboxAt_fixes (h.fixes r hr) (h.zero r hr), hmix, mulVec_add, mulVec_add (K r),
    (h.fixes r hr).single, mulVec_add, add_assoc, h.stepConst r hr, add_assoc]

/-- **THE PARTIAL ROUNDS**: the plain state is `K r` times the sparse one, plus `d r`. -/
theorem SparseForm.sparse_eq (h : SparseForm i₀ M P n N c first a b S k K d) {x y : ι → R}
    (heq : plainRounds σ i₀ M n N c (n + 1) x + c (n + 1) = K 0 *ᵥ y + d 0) : ∀ r ≤ N,
    plainRounds σ i₀ M n N c (n + 1 + r) x + c (n + 1 + r)
      = K r *ᵥ sparseRounds σ i₀ S k r y + d r := by
  intro r
  induction r with
  | zero => exact fun _ => heq
  | succ r ih =>
      intro hr
      rw [← Nat.add_assoc, plainRounds_partial hr, sparseRounds]
      exact h.step_eq hr (ih (Nat.le_of_succ_le hr))

/-- **THE OPTIMISED PERMUTATION IS THE PLAIN ONE.** -/
theorem SparseForm.optimised_eq_plain (h : SparseForm i₀ M P n N c first a b S k K d)
    (x : ι → R) :
    optimised σ i₀ M P n N first a b S k x
      = plainRounds σ i₀ M n N c (n + 1 + N + n + 1) x := by
  have hfull : ∀ r < n, M *ᵥ a r = c (0 + r + 1) := by
    intro r hr
    rw [Nat.zero_add]
    exact h.before r hr
  have hbefore := denseRounds_eq σ i₀ N x
    (fun r hr => Or.inl (by omega)) hfull n (Nat.le_refl n)
  rw [Nat.zero_add] at hbefore
  -- the last full round of the first half mixes with `P`
  have henter : plainRounds σ i₀ M n N c (n + 1) x + c (n + 1)
      = K 0 *ᵥ (P *ᵥ (sboxAll σ (denseRounds σ M a n (x + first)) + a n)) + d 0 := by
    rw [h.first, show x + c 0 = plainRounds σ i₀ M n N c 0 x + c 0 from rfl, hbefore,
      mulVec_mulVec, h.enter, mulVec_add, add_assoc, h.enterConst,
      plainRounds_full (Or.inl (Nat.lt_succ_self n))]
  have hmiddle := h.sparse_eq henter N (Nat.le_refl N)
  rw [h.leave, one_mulVec, h.leaveConst, add_zero] at hmiddle
  have hafter := denseRounds_eq σ i₀ N x
    (fun r hr => Or.inr (by omega)) h.after n (Nat.le_refl n)
  rw [hmiddle] at hafter
  show M *ᵥ sboxAll σ (denseRounds σ M b n (sparseRounds σ i₀ S k N _)) = _
  rw [hafter, plainRounds_full (Or.inr (by omega))]

end Agreement

/-! ## What a permutation is for -/

/-- Nothing is lost: the rounds can be undone where the S-box and the mix can. -/
theorem plainRounds_injective {σ : R → R} {i₀ : ι} {M : Matrix ι ι R} {n N : ℕ}
    {c : ℕ → ι → R} (hσ : Function.Injective σ) (hM : Function.Injective fun x : ι → R => M *ᵥ x) :
    ∀ r, Function.Injective (plainRounds σ i₀ M n N c r) := by
  intro r
  induction r with
  | zero => exact fun _ _ h => h
  | succ r ih =>
      intro x y h
      rw [plainRounds, plainRounds] at h
      have hmix := hM h
      refine ih (add_right_cancel (b := c r) ?_)
      by_cases hfull : r < n + 1 ∨ n + 1 + N ≤ r
      · rw [if_pos hfull, if_pos hfull] at hmix
        exact funext fun i => hσ (congrFun hmix i)
      · rw [if_neg hfull, if_neg hfull] at hmix
        funext i
        have hi := congrFun hmix i
        by_cases h0 : i = i₀
        · subst h0
          rw [sboxAt, sboxAt, Function.update_self, Function.update_self] at hi
          exact hσ hi
        · rwa [sboxAt, sboxAt, Function.update_of_ne h0, Function.update_of_ne h0] at hi

end Albus.Lib
