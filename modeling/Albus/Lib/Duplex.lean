import Mathlib.Algebra.Group.Defs
import Mathlib.Logic.Function.Basic

/-! # Encryption with a sponge

    A state has one element of capacity and three of rate.  A permutation runs before
    every block; the block is added to the rate, which is released and stays in the
    state.  `Duplex` says so of a whole message without saying how the state is kept:
    the ciphertext and the outputs of the permutation are determined
    (`Duplex.unique`), and there is one (`duplex_exists`), as there is a message for
    any ciphertext but for its last element (`duplex_undo`). -/

namespace Albus.Lib

universe u v

@[ext] structure SpongeState (α : Type u) where
  s0 : α
  s1 : α
  s2 : α
  s3 : α
  deriving DecidableEq

namespace SpongeState

variable {α : Type u} {β : Type v}

def map (f : α → β) (s : SpongeState α) : SpongeState β := ⟨f s.s0, f s.s1, f s.s2, f s.s3⟩

def toList (s : SpongeState α) : List α := [s.s0, s.s1, s.s2, s.s3]

theorem toList_inj {s t : SpongeState α} (h : s.toList = t.toList) : s = t := by
  obtain ⟨h0, h1, h2, h3⟩ : s.s0 = t.s0 ∧ s.s1 = t.s1 ∧ s.s2 = t.s2 ∧ s.s3 = t.s3 := by
    simpa [toList] using h
  exact SpongeState.ext h0 h1 h2 h3

end SpongeState

section Duplex

variable {K : Type u} [AddGroup K] {permute : SpongeState K → SpongeState K}
  {start : SpongeState K} {n : ℕ} {message cipher : ℕ → K} {out : ℕ → SpongeState K}

/-- `n` blocks: `out i` is what the permutation gives before block `i`, `cipher` the
    released elements, then one of the last output. -/
structure Duplex (permute : SpongeState K → SpongeState K) (start : SpongeState K)
    (n : ℕ) (message cipher : ℕ → K) (out : ℕ → SpongeState K) : Prop where
  first : out 0 = permute start
  release1 : ∀ i < n, cipher (i * 3) = message (i * 3) + (out i).s1
  release2 : ∀ i < n, cipher (i * 3 + 1) = message (i * 3 + 1) + (out i).s2
  release3 : ∀ i < n, cipher (i * 3 + 2) = message (i * 3 + 2) + (out i).s3
  next : ∀ i < n, out (i + 1)
    = permute ⟨(out i).s0, cipher (i * 3), cipher (i * 3 + 1), cipher (i * 3 + 2)⟩
  last : cipher (n * 3) = (out n).s1

/-- The state that the permutation is applied to before block `i`. -/
def duplexEntry (start : SpongeState K) (cipher : ℕ → K) (out : ℕ → SpongeState K) :
    ℕ → SpongeState K
  | 0 => start
  | i + 1 => ⟨(out i).s0, cipher (i * 3), cipher (i * 3 + 1), cipher (i * 3 + 2)⟩

theorem Duplex.permute_entry (h : Duplex permute start n message cipher out) {i : ℕ}
    (hi : i ≤ n) : permute (duplexEntry start cipher out i) = out i := by
  cases i with
  | zero => exact h.first.symm
  | succ i => exact (h.next i hi).symm

theorem Duplex.out_unique {cipher' : ℕ → K} {out' : ℕ → SpongeState K}
    (h : Duplex permute start n message cipher out)
    (h' : Duplex permute start n message cipher' out') : ∀ i ≤ n, out i = out' i := by
  intro i
  induction i with
  | zero =>
      intro _
      rw [h.first, h'.first]
  | succ i ih =>
      intro hi
      have heq := ih (Nat.le_of_succ_le hi)
      rw [h.next i hi, h'.next i hi, h.release1 i hi, h.release2 i hi, h.release3 i hi,
        h'.release1 i hi, h'.release2 i hi, h'.release3 i hi, heq]

/-- **THE CIPHERTEXT IS DETERMINED.** -/
theorem Duplex.unique {cipher' : ℕ → K} {out' : ℕ → SpongeState K}
    (h : Duplex permute start n message cipher out)
    (h' : Duplex permute start n message cipher' out') :
    ∀ j ≤ n * 3, cipher j = cipher' j := by
  intro j hj
  have hout := h.out_unique h'
  by_cases hlast : j = n * 3
  · rw [hlast, h.last, h'.last, hout n (Nat.le_refl n)]
  · have hi : j / 3 < n := by omega
    have heq := hout (j / 3) (Nat.le_of_lt hi)
    obtain hr | hr | hr : j = j / 3 * 3 ∨ j = j / 3 * 3 + 1 ∨ j = j / 3 * 3 + 2 := by omega
    · rw [hr, h.release1 _ hi, h'.release1 _ hi, heq]
    · rw [hr, h.release2 _ hi, h'.release2 _ hi, heq]
    · rw [hr, h.release3 _ hi, h'.release3 _ hi, heq]

/-! ## Encrypting -/

variable (permute start message)

def duplexOut : ℕ → SpongeState K
  | 0 => permute start
  | i + 1 =>
    let o := duplexOut i
    permute ⟨o.s0, message (i * 3) + o.s1, message (i * 3 + 1) + o.s2,
      message (i * 3 + 2) + o.s3⟩

def duplexCipher (n j : ℕ) : K :=
  let o := duplexOut permute start message (j / 3)
  if j = n * 3 then o.s1
  else if j % 3 = 0 then message j + o.s1
  else if j % 3 = 1 then message j + o.s2
  else message j + o.s3

theorem duplex_exists (n : ℕ) :
    Duplex permute start n message (duplexCipher permute start message n)
      (duplexOut permute start message) := by
  have hrelease1 : ∀ i < n, duplexCipher permute start message n (i * 3)
      = message (i * 3) + (duplexOut permute start message i).s1 := by
    intro i hi
    rw [duplexCipher, if_neg (by omega), if_pos (by omega),
      Nat.mul_div_cancel i (by omega)]
  have hrelease2 : ∀ i < n, duplexCipher permute start message n (i * 3 + 1)
      = message (i * 3 + 1) + (duplexOut permute start message i).s2 := by
    intro i hi
    rw [duplexCipher, if_neg (by omega), if_neg (by omega), if_pos (by omega),
      show (i * 3 + 1) / 3 = i by omega]
  have hrelease3 : ∀ i < n, duplexCipher permute start message n (i * 3 + 2)
      = message (i * 3 + 2) + (duplexOut permute start message i).s3 := by
    intro i hi
    rw [duplexCipher, if_neg (by omega), if_neg (by omega), if_neg (by omega),
      show (i * 3 + 2) / 3 = i by omega]
  refine ⟨rfl, hrelease1, hrelease2, hrelease3, ?_, ?_⟩
  · intro i hi
    rw [hrelease1 i hi, hrelease2 i hi, hrelease3 i hi]
    rfl
  · rw [duplexCipher, if_pos rfl, Nat.mul_div_cancel n (by omega)]

/-! ## Decrypting

    Any ciphertext is taken apart, whether it was made by encrypting or not: all but
    its last element belong to some message. -/

variable (cipher : ℕ → K)

def undoOut : ℕ → SpongeState K
  | 0 => permute start
  | i + 1 =>
    permute ⟨(undoOut i).s0, cipher (i * 3), cipher (i * 3 + 1), cipher (i * 3 + 2)⟩

def undoMessage (j : ℕ) : K :=
  let o := undoOut permute start cipher (j / 3)
  cipher j - if j % 3 = 0 then o.s1 else if j % 3 = 1 then o.s2 else o.s3

/-- The ciphertext with the last element that belongs to it. -/
def sealed (n j : ℕ) : K :=
  if j = n * 3 then (undoOut permute start cipher n).s1 else cipher j

/-- **A CIPHERTEXT ENCRYPTS WHAT IT IS TAKEN APART INTO**, sealed anew. -/
theorem duplex_undo (n : ℕ) :
    Duplex permute start n (undoMessage permute start cipher)
      (sealed permute start cipher n) (undoOut permute start cipher) := by
  have hsealed : ∀ i < n, ∀ j < 3,
      sealed permute start cipher n (i * 3 + j) = cipher (i * 3 + j) :=
    fun i hi j hj => if_neg (by omega)
  refine ⟨rfl, ?_, ?_, ?_, ?_, if_pos rfl⟩
  · intro i hi
    have hcipher := hsealed i hi 0 (by omega)
    rw [Nat.add_zero] at hcipher
    rw [hcipher, undoMessage, if_pos (by omega), Nat.mul_div_cancel i (by omega),
      sub_add_cancel]
  · intro i hi
    rw [hsealed i hi 1 (by omega), undoMessage, if_neg (by omega), if_pos (by omega),
      show (i * 3 + 1) / 3 = i by omega, sub_add_cancel]
  · intro i hi
    rw [hsealed i hi 2 (by omega), undoMessage, if_neg (by omega), if_neg (by omega),
      show (i * 3 + 2) / 3 = i by omega, sub_add_cancel]
  · intro i hi
    have hcipher := hsealed i hi 0 (by omega)
    rw [Nat.add_zero] at hcipher
    rw [hcipher, hsealed i hi 1 (by omega), hsealed i hi 2 (by omega)]
    rfl

omit [AddGroup K] in
theorem sealed_eq_self {n : ℕ}
    (h : cipher (n * 3) = (undoOut permute start cipher n).s1) :
    sealed permute start cipher n = cipher := by
  funext j
  rw [sealed]
  by_cases hj : j = n * 3
  · rw [if_pos hj, hj, h]
  · rw [if_neg hj]

end Duplex

end Albus.Lib
