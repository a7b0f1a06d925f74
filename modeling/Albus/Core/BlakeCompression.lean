import Albus.Core.Blake512
import Mathlib.Logic.Function.Basic

/-! # The compression of BLAKE-512

    On words of 64 bits the compression is the one that the comments of `g` write down
    (`compress`).  Two halves that stand for a word stand for what it becomes, through
    every sum, every rotation, every round (`word_round`), so `_compress` is `compress`
    (`pairs_compressed`). -/

namespace Albus.Core

open Albus.Lib

/-- A word of 64 bits. -/
abbrev Word := BitVec (32 + 32)

namespace Blake512

/-! ## The compression on words -/

/-- The word in two halves. -/
def word {n : ℕ} (v : Vector Half n) (i : ℕ) : Word := get v (i * 2) ++ get v (i * 2 + 1)

section Words

variable (m : ℕ → Word)

/-- What the comments of `g` say it does to the words. -/
def wordG (v : ℕ → Word) (i a b c d e : ℕ) : ℕ → Word :=
  let v := Function.update v a (v a + (m (sigmaAt i e) ^^^ word u512 (sigmaAt i (e + 1))) + v b)
  let v := Function.update v d ((v d ^^^ v a).rotateRight 32)
  let v := Function.update v c (v c + v d)
  let v := Function.update v b ((v b ^^^ v c).rotateRight 25)
  let v := Function.update v a (v a + (m (sigmaAt i (e + 1)) ^^^ word u512 (sigmaAt i e)) + v b)
  let v := Function.update v d ((v d ^^^ v a).rotateRight 16)
  let v := Function.update v c (v c + v d)
  Function.update v b ((v b ^^^ v c).rotateRight 11)

/-- The columns and the diagonals. -/
def wordRound (v : ℕ → Word) (i : ℕ) : ℕ → Word :=
  let v := wordG m v i 0 4 8 12 0
  let v := wordG m v i 1 5 9 13 2
  let v := wordG m v i 2 6 10 14 4
  let v := wordG m v i 3 7 11 15 6
  let v := wordG m v i 0 5 10 15 8
  let v := wordG m v i 1 6 11 12 10
  let v := wordG m v i 2 7 8 13 12
  wordG m v i 3 4 9 14 14

/-- The sixteen words before the rounds, with `t` bits counted and no salt. -/
def wordStart (h : Vector Word 8) (t : ℕ) (i : ℕ) : Word :=
  if i < 8 then h[i]?.getD 0
  else if i < 12 then word u512 (i - 8)
  else if i < 14 then word u512 (i - 8) ^^^ BitVec.ofNat (32 + 32) t
  else if i < 16 then word u512 (i - 8) ^^^ BitVec.ofNat (32 + 32) (t / 2 ^ 64)
  else 0

/-- **THE COMPRESSION.** -/
def compress (h : Vector Word 8) (t : ℕ) : Vector Word 8 :=
  let v := (List.range 16).foldl (wordRound m) (wordStart h t)
  Vector.ofFn fun i : Fin 8 => h.get i ^^^ v i ^^^ v (i + 8)

end Words

/-! ## One word -/

section Pairs

variable {n : ℕ}

theorem get_set (v : Vector Half n) {i : ℕ} (hi : i < n) (x : Half) (j : ℕ) :
    get (v.setIfInBounds i x) j = if i = j then x else get v j := by
  rw [get, get, Vector.getElem?_setIfInBounds, if_pos hi]
  by_cases h : i = j
  · rw [if_pos h, if_pos h]
    rfl
  · rw [if_neg h, if_neg h]

theorem word_set (v : Vector Half n) {i : ℕ} (hi : i * 2 + 1 < n) (x y : Half) :
    word ((v.setIfInBounds (i * 2) x).setIfInBounds (i * 2 + 1) y)
      = Function.update (word v) i (x ++ y) := by
  have hi0 : i * 2 < n := Nat.lt_of_succ_lt hi
  funext j
  rw [word, get_set _ hi, get_set _ hi, get_set _ hi0, get_set _ hi0]
  by_cases h : j = i
  · subst h
    rw [Function.update_self, if_neg (Nat.succ_ne_self _), if_pos rfl, if_pos rfl]
  · rw [Function.update_of_ne h, if_neg (by omega), if_neg (by omega), if_neg (by omega),
      if_neg (by omega), word]

theorem word_xorWord (v : Vector Half n) {i : ℕ} (hi : i * 2 + 1 < n) (x y : Half) :
    word (xorWord v i x y) = Function.update (word v) i (word v i ^^^ (x ++ y)) := by
  have hget : get (v.setIfInBounds (i * 2) (get v (i * 2) ^^^ x)) (i * 2 + 1)
      = get v (i * 2 + 1) := by
    rw [get_set _ (Nat.lt_of_succ_lt hi), if_neg (by omega)]
  rw [xorWord, hget, word_set v hi, word, BitVec.xor_append]

end Pairs

variable (v m : Vector Half 32)

theorem word_addMessage {a : ℕ} (ha : a < 16) (b x y : ℕ) :
    word (addMessage v m a b x y)
      = Function.update (word v) a (word v a + (word m x ^^^ word u512 y) + word v b) := by
  rw [addMessage, setSum, word_set v (by omega), halves_add_three, word, word, word, word,
    BitVec.xor_append]

theorem word_addWord {c : ℕ} (hc : c < 16) (d : ℕ) :
    word (addWord v c d) = Function.update (word v) c (word v c + word v d) := by
  rw [addWord, setSum, word_set v (by omega), halves_add, word, word]

theorem swapped_eq (hi lo : Half) : swapped hi lo = (lo, hi) := by
  rw [swapped, BitVec.xor_assoc, BitVec.xor_self, BitVec.xor_zero, BitVec.xor_comm lo hi,
    BitVec.xor_assoc, BitVec.xor_self, BitVec.xor_zero]

theorem word_rot {i : ℕ} (hi : i < 16) (j : ℕ) {n : ℕ} (hn : 0 < n) (h32 : n ≤ 32) :
    word (rot v i j n) = Function.update (word v) i ((word v i ^^^ word v j).rotateRight n) := by
  rw [rot, word_set v (by omega), word, word, BitVec.xor_append]
  by_cases h : n = 32
  · subst h
    rw [if_pos (Nat.le_refl 32), swapped_eq, Nat.sub_self, rotHalves, if_pos rfl, halves_swap]
  · have hlt : n < 32 := Nat.lt_of_le_of_ne h32 h
    rw [if_neg (Nat.not_le_of_lt hlt), rotHalves, if_neg (Nat.pos_iff_ne_zero.mp hn),
      halves_rotateRight _ _ hn hlt]

theorem word_g (i : ℕ) {a b c d : ℕ} (ha : a < 16) (hb : b < 16) (hc : c < 16) (hd : d < 16)
    (e : ℕ) : word (g m v i a b c d e) = wordG (word m) (word v) i a b c d e := by
  rw [g, word_rot _ hb _ (by omega) (by omega), word_addWord _ hc,
    word_rot _ hd _ (by omega) (by omega), word_addMessage _ _ ha,
    word_rot _ hb _ (by omega) (by omega), word_addWord _ hc,
    word_rot _ hd _ (by omega) (by omega), word_addMessage _ _ ha]
  rfl

/-- **A ROUND** on halves is one on words. -/
theorem word_round (i : ℕ) : word (round m v i) = wordRound (word m) (word v) i := by
  rw [round, word_g, word_g, word_g, word_g, word_g, word_g, word_g, word_g, wordRound]
  all_goals decide

/-! ## The whole -/

theorem word_foldl_round (n : ℕ) (v : Vector Half 32) :
    word ((List.range n).foldl (round m) v)
      = (List.range n).foldl (wordRound (word m)) (word v) := by
  induction n with
  | zero => rfl
  | succ n ih =>
      rw [List.range_succ, List.foldl_append, List.foldl_append, List.foldl_cons, List.foldl_nil,
        word_round, ih, List.foldl_cons, List.foldl_nil]

/-- The eight words of a state. -/
def pairs (h : Vector Half 16) : Vector Word 8 := Vector.ofFn fun i : Fin 8 => word h i

theorem get_pairs (h : Vector Half 16) (i : Fin 8) : (pairs h).get i = word h i :=
  Vector.getElem_ofFn i.isLt

theorem get_ofFn {n : ℕ} (f : Fin n → Half) {i : ℕ} (hi : i < n) :
    get (Vector.ofFn f) i = f ⟨i, hi⟩ := by
  rw [get, Vector.getElem?_ofFn, dif_pos hi]
  rfl

/-- What the entries of `_length` count. -/
def Counts (length : List ℤ) (t : ℕ) : Prop :=
  BitVec.ofInt 32 (length.getD 1 0) ++ BitVec.ofInt 32 (length.getD 0 0)
      = BitVec.ofNat (32 + 32) t ∧
    BitVec.ofInt 32 (length.getD 3 0) ++ BitVec.ofInt 32 (length.getD 2 0)
      = BitVec.ofNat (32 + 32) (t / 2 ^ 64)

/-- No salt. -/
def noSalt : Vector Half 8 := Vector.replicate 8 0

theorem get_noSalt (i : ℕ) : get noSalt i = 0 := by
  rw [get, noSalt, Vector.getElem?_replicate]
  split <;> rfl

/-- The constants behind the state, before the bit count enters. -/
theorem word_base (h : Vector Half 16) (k : ℕ) :
    word (Vector.ofFn fun i : Fin 32 =>
        if (i : ℕ) < 16 then get h i
        else if (i : ℕ) < 24 then get noSalt (i - 16) ^^^ get u512 (i - 16)
        else get u512 (i - 16)) k
      = if k < 8 then word h k else if k < 16 then word u512 (k - 8) else 0 := by
  by_cases h16 : k < 16
  · rw [word, get_ofFn _ (show k * 2 < 32 by omega), get_ofFn _ (show k * 2 + 1 < 32 by omega)]
    by_cases h8 : k < 8
    · rw [if_pos h8]
      simp only [show k * 2 < 16 by omega, show k * 2 + 1 < 16 by omega, if_true, word]
    · rw [if_neg h8, if_pos h16]
      simp only [show ¬ k * 2 < 16 by omega, show ¬ k * 2 + 1 < 16 by omega, if_false, get_noSalt,
        BitVec.ofNat_eq_ofNat, BitVec.zero_xor, ite_self, word,
        show k * 2 - 16 = (k - 8) * 2 by omega,
        show k * 2 + 1 - 16 = (k - 8) * 2 + 1 by omega]
  · rw [if_neg (by omega), if_neg h16, word, get, get,
      Vector.getElem?_eq_none (by omega), Vector.getElem?_eq_none (by omega)]
    rfl

/-- The words before the rounds. -/
theorem word_start {h : Vector Half 16} {length : List ℤ} {nullt : Bool} {t : ℕ}
    (hnull : nullt = true → t = 0) (hcount : nullt = false → Counts length t) :
    word (start h noSalt length nullt) = wordStart (pairs h) t := by
  have hpairs : ∀ k < 8, (pairs h)[k]?.getD 0 = word h k := by
    intro k hk
    rw [pairs, Vector.getElem?_ofFn, dif_pos hk]
    rfl
  -- the words that the bit count leaves alone
  have hbase : ∀ k, k < 12 ∨ 16 ≤ k → wordStart (pairs h) t k
      = if k < 8 then word h k else if k < 16 then word u512 (k - 8) else 0 := by
    intro k hk
    rw [wordStart]
    by_cases h8 : k < 8
    · rw [if_pos h8, if_pos h8, hpairs k h8]
    · rw [if_neg h8, if_neg h8]
      by_cases h12 : k < 12
      · rw [if_pos h12, if_pos (by omega)]
      · rw [if_neg h12, if_neg (by omega), if_neg (by omega), if_neg (by omega)]
  funext k
  have hk : (k < 12 ∨ 16 ≤ k) ∨ k = 12 ∨ k = 13 ∨ k = 14 ∨ k = 15 := by omega
  cases nullt with
  | true =>
      rw [start, if_pos rfl, word_base]
      rcases hk with hk | rfl | rfl | rfl | rfl
      · exact (hbase k hk).symm
      all_goals
        rw [hnull rfl, wordStart, Nat.zero_div]
        exact BitVec.xor_zero.symm
  | false =>
      obtain ⟨hlow, hhigh⟩ := hcount rfl
      rw [start, if_neg (by decide), word_xorWord _ (by omega), word_xorWord _ (by omega),
        word_xorWord _ (by omega), word_xorWord _ (by omega), hlow, hhigh]
      rcases hk with hk | rfl | rfl | rfl | rfl
      · rw [Function.update_of_ne (by omega), Function.update_of_ne (by omega),
          Function.update_of_ne (by omega), Function.update_of_ne (by omega), word_base, hbase k hk]
      all_goals
        simp only [Function.update_apply, word_base, wordStart]
        rfl

/-- The sixteen words of a block. -/
def messageWord (block : List UInt8) (i : ℕ) : Word :=
  BitVec.ofNat (32 + 32) (beNat ((block.drop (i * 8)).take 8))

theorem word_message {block : List UInt8} (hblock : block.length = 128) :
    word (Vector.ofFn fun i : Fin 32 => getUint32 block i) = messageWord block := by
  funext k
  by_cases hk : k < 16
  · have hsplit : (block.drop (k * 8)).take 8
        = (block.drop (k * 2 * 4)).take 4 ++ (block.drop ((k * 2 + 1) * 4)).take 4 := by
      rw [show k * 8 = k * 2 * 4 by omega, show (k * 2 + 1) * 4 = k * 2 * 4 + 4 by omega,
        ← List.drop_drop, ← List.take_add]
    have hlen : ((block.drop ((k * 2 + 1) * 4)).take 4).length = 4 := by
      rw [List.length_take, List.length_drop, hblock]
      omega
    have hlow := beNat_lt ((block.drop ((k * 2 + 1) * 4)).take 4)
    rw [hlen] at hlow
    have hzero := Nat.div_eq_of_lt hlow
    rw [show 256 ^ 4 = 2 ^ 32 by decide] at hzero
    rw [word, get_ofFn _ (show k * 2 < 32 by omega), get_ofFn _ (show k * 2 + 1 < 32 by omega),
      getUint32, getUint32, messageWord, hsplit, beNat_append, hlen,
      show 256 ^ 4 = 2 ^ 32 by decide, ← halves_ofNat, hzero, Nat.add_zero (beNat _)]
  · rw [word, get, get, Vector.getElem?_eq_none (by omega), Vector.getElem?_eq_none (by omega),
      messageWord, List.drop_eq_nil_of_le (by omega), List.take_nil, beNat_nil]
    rfl

/-- The words of the rounds enter the state. -/
theorem word_foldl_xorWord (h : Vector Half 16) {k : ℕ} (hk : k < 8) : ∀ n ≤ 16,
    word ((List.range n).foldl
        (fun h i => xorWord h (i % 8) (get v (i * 2)) (get v (i * 2 + 1))) h) k
      = word h k ^^^ (if k < n then word v k else 0)
        ^^^ (if k + 8 < n then word v (k + 8) else 0) := by
  intro n
  induction n with
  | zero =>
      intro _
      simp
  | succ n ih =>
      intro hn
      have hmod : n % 8 * 2 + 1 < 16 := by omega
      rw [List.range_succ, List.foldl_append, List.foldl_cons, List.foldl_nil,
        word_xorWord _ hmod, Function.update_apply]
      by_cases heq : k = n % 8
      · rw [if_pos heq, ← heq, ih (Nat.le_of_succ_le hn)]
        by_cases hlt : n < 8
        · -- the first words
          have hkn : k = n := by omega
          subst hkn
          simp [word, show ¬ k + 8 < k by omega, show ¬ k + 8 < k + 1 by omega]
        · have hkn : n = k + 8 := by omega
          subst hkn
          simp [word, show k < k + 8 by omega, show k < k + 8 + 1 by omega]
      · rw [if_neg heq, ih (Nat.le_of_succ_le hn)]
        have h1 : (k < n) = (k < n + 1) := propext (by omega)
        have h2 : (k + 8 < n) = (k + 8 < n + 1) := propext (by omega)
        simp only [h1, h2]

theorem word_foldl_noSalt (h : Vector Half 16) (n : ℕ) (hn : n ≤ 8) :
    word ((List.range n).foldl
        (fun h i => xorWord h i (get noSalt (i % 4 * 2)) (get noSalt (i % 4 * 2 + 1))) h)
      = word h := by
  induction n with
  | zero => rfl
  | succ n ih =>
      rw [List.range_succ, List.foldl_append, List.foldl_cons, List.foldl_nil,
        word_xorWord _ (by omega), ih (Nat.le_of_succ_le hn), get_noSalt, get_noSalt]
      exact Function.update_eq_self_iff.mpr (BitVec.xor_zero)

/-- **`_compress`** on halves is the compression on words. -/
theorem pairs_compressed {h : Vector Half 16} {length : List ℤ} {nullt : Bool} {t : ℕ}
    {block : List UInt8} (hblock : block.length = 128) (hnull : nullt = true → t = 0)
    (hcount : nullt = false → Counts length t) :
    pairs (compressed h noSalt length nullt block)
      = compress (messageWord block) (pairs h) t := by
  obtain ⟨w, hw⟩ : ∃ w, w = (List.range 16).foldl
      (round (Vector.ofFn fun i : Fin 32 => getUint32 block i)) (start h noSalt length nullt) :=
    ⟨_, rfl⟩
  have hword : word w
      = (List.range 16).foldl (wordRound (messageWord block)) (wordStart (pairs h) t) := by
    rw [hw, word_foldl_round, word_message hblock, word_start hnull hcount]
  apply Vector.ext
  intro k hk
  rw [compressed, ← hw, pairs, compress, ← hword, Vector.getElem_ofFn, Vector.getElem_ofFn,
    word_foldl_noSalt _ 8 (Nat.le_refl 8), word_foldl_xorWord w h hk 16 (Nat.le_refl 16),
    if_pos (by omega), if_pos (by omega), get_pairs]

end Blake512

end Albus.Core
