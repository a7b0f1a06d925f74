import Albus.Core.F1Field
import Albus.Lib.Duplex
import Mathlib.Data.List.GetD

/-! # Poseidon encryption in `poseidon/poseidon-opt.ts`

    Encryption adds a block to the state; decryption subtracts the state from a block
    of ciphertext, and puts the ciphertext into the state.  Both follow the one sponge
    of `Duplex` (`encrypt_eq`, `decrypt_eq`).

    The rounds of `poseidonStrategy` on four elements, with the constants they read
    from a table, are the parameter `permute`.  A failed assertion is `none`. -/

namespace Albus.Core

open Albus.Lib

def two128 : ℕ := 2 ^ 128

/-- `poseidonStrategy`. -/
def poseidonStrategy (permute : SpongeState ℕ → SpongeState ℕ) (state : SpongeState ℕ) :
    SpongeState ℕ :=
  (permute (state.map fun x : ℕ => F1Field.e x)).map fun x : ℕ => F1Field.normalize x

/-- The `while` loop that pads the message. -/
def padMessage (message : List ℕ) : List ℕ :=
  if message.length % 3 = 0 then message else padMessage (message ++ [0])
termination_by (3 - message.length % 3) % 3
decreasing_by
  rw [List.length_append, List.length_singleton]
  omega

/-- The initial state of both functions. -/
def initialState (sharedKey : ℕ × ℕ) (length nonce : ℕ) : SpongeState ℕ where
  s0 := 0
  s1 := F1Field.e sharedKey.1
  s2 := F1Field.e sharedKey.2
  s3 := F1Field.add (F1Field.e nonce) (F1Field.mul (F1Field.e length) two128)

section Cipher

variable (permute : SpongeState ℕ → SpongeState ℕ)

/-- The body of the loop of `poseidonEncrypt`. -/
def encryptBlock (message : List ℕ) (acc : SpongeState ℕ × List ℕ) (i : ℕ) :
    SpongeState ℕ × List ℕ :=
  let state := poseidonStrategy permute acc.1
  let s1 := F1Field.add state.s1 (message.getD (i * 3) 0)
  let s2 := F1Field.add state.s2 (message.getD (i * 3 + 1) 0)
  let s3 := F1Field.add state.s3 (message.getD (i * 3 + 2) 0)
  (⟨state.s0, s1, s2, s3⟩, acc.2 ++ [s1, s2, s3])

def poseidonEncrypt (msg : List ℕ) (sharedKey : ℕ × ℕ) (nonce : ℕ) : Option (List ℕ) :=
  let msg := msg.map fun x : ℕ => F1Field.e x
  if nonce < two128 then
    let message := padMessage msg
    let (state, ciphertext) := (List.range (message.length / 3)).foldl
      (encryptBlock permute message) (initialState sharedKey msg.length nonce, [])
    -- the last ciphertext element comes from one more iteration
    some (ciphertext ++ [(poseidonStrategy permute state).s1])
  else none

/-- The body of the loop of `poseidonDecrypt`. -/
def decryptBlock (ciphertext : List ℕ) (acc : SpongeState ℕ × List ℕ) (i : ℕ) :
    SpongeState ℕ × List ℕ :=
  let state := poseidonStrategy permute acc.1
  let c1 := ciphertext.getD (i * 3) 0
  let c2 := ciphertext.getD (i * 3 + 1) 0
  let c3 := ciphertext.getD (i * 3 + 2) 0
  (⟨state.s0, c1, c2, c3⟩,
    acc.2 ++ [F1Field.sub c1 state.s1, F1Field.sub c2 state.s2, F1Field.sub c3 state.s3])

/-- The assertions on the padding. -/
def PaddingZero (message : List ℕ) (length : ℕ) : Prop :=
  (3 < length → length % 3 = 2 → message[message.length - 1]? = some 0) ∧
    (3 < length → length % 3 = 1 →
      message[message.length - 1]? = some 0 ∧ message[message.length - 2]? = some 0)

instance (message : List ℕ) (length : ℕ) : Decidable (PaddingZero message length) :=
  inferInstanceAs (Decidable (_ ∧ _))

def poseidonDecrypt (ciphertext : List ℕ) (sharedKey : ℕ × ℕ) (length nonce : ℕ) :
    Option (List ℕ) :=
  if nonce < two128 then
    let (state, message) := (List.range (ciphertext.length / 3)).foldl
      (decryptBlock permute ciphertext) (initialState sharedKey length nonce, [])
    if PaddingZero message length then
      if ciphertext.getLast? = some (poseidonStrategy permute state).s1 then
        some (message.take length)
      else none
    else none
  else none

end Cipher

/-! ## Padding -/

theorem padMessage_eq (message : List ℕ) :
    padMessage message = message ++ List.replicate ((3 - message.length % 3) % 3) 0 := by
  fun_induction padMessage message with
  | case1 message h =>
      rw [h, Nat.sub_zero, Nat.mod_self, List.replicate_zero, List.append_nil]
  | case2 message h ih =>
      rw [ih, List.append_assoc, List.length_append, List.length_singleton,
        ← List.replicate_one, List.replicate_append_replicate]
      congr 2
      omega

theorem length_padMessage (message : List ℕ) :
    (padMessage message).length = (message.length + 2) / 3 * 3 := by
  rw [padMessage_eq, List.length_append, List.length_replicate]
  omega

theorem getD_padMessage (message : List ℕ) (i : ℕ) :
    (padMessage message).getD i 0 = message.getD i 0 := by
  rw [padMessage_eq]
  by_cases h : i < message.length
  · rw [List.getD_append _ _ _ _ h]
  · have hle := Nat.le_of_not_lt h
    rw [List.getD_append_right _ _ _ _ hle, List.getD_eq_getElem?_getD,
      List.getElem?_getD_replicate_default_eq, List.getD_eq_default _ _ hle]

/-! ## The sponge of field elements -/

section Sponge

/-- The permutation of field elements. -/
def permutation (permute : SpongeState ℕ → SpongeState ℕ) (state : SpongeState F) :
    SpongeState F :=
  (poseidonStrategy permute (state.map ZMod.val)).map fun x : ℕ => (x : F)

variable {permute : SpongeState ℕ → SpongeState ℕ}

theorem strategy_val (state : SpongeState F) :
    poseidonStrategy permute (state.map ZMod.val)
      = (permutation permute state).map ZMod.val := by
  have hval : ∀ x : ℕ, ((F1Field.e x : ℕ) : F).val = F1Field.e x := by
    intro x
    rw [F1Field.e_eq_val, ZMod.natCast_zmod_val]
  rw [permutation, poseidonStrategy]
  simp only [SpongeState.map, F1Field.normalize, hval]

/-- One more block at the end of a list. -/
theorem map_range_block {α : Type} (f : ℕ → α) (i : ℕ) :
    (List.range ((i + 1) * 3)).map f
      = (List.range (i * 3)).map f ++ [f (i * 3), f (i * 3 + 1), f (i * 3 + 2)] := by
  rw [show (i + 1) * 3 = i * 3 + 1 + 1 + 1 by omega, List.range_succ, List.range_succ,
    List.range_succ]
  simp

variable {start : SpongeState F} {n : ℕ} {m c : ℕ → F} {out : ℕ → SpongeState F}

theorem strategy_entry (h : Duplex (permutation permute) start n m c out) {i : ℕ}
    (hi : i ≤ n) : poseidonStrategy permute ((duplexEntry start c out i).map ZMod.val)
      = (out i).map ZMod.val := by
  rw [strategy_val, h.permute_entry hi]

/-- **THE BLOCKS OF AN ENCRYPTION.** -/
theorem encrypt_blocks (h : Duplex (permutation permute) start n m c out)
    {message : List ℕ} (hm : ∀ j < n * 3, message.getD j 0 = (m j).val) :
    ∀ i ≤ n, (List.range i).foldl (encryptBlock permute message) (start.map ZMod.val, [])
      = ((duplexEntry start c out i).map ZMod.val,
          (List.range (i * 3)).map fun j => (c j).val) := by
  intro i
  induction i with
  | zero => exact fun _ => rfl
  | succ i ih =>
      intro hi
      have hlt : i < n := hi
      rw [List.range_succ, List.foldl_append, ih (Nat.le_of_lt hlt), List.foldl_cons,
        List.foldl_nil, encryptBlock]
      simp only [strategy_entry h (Nat.le_of_lt hlt), hm (i * 3) (by omega),
        hm (i * 3 + 1) (by omega), hm (i * 3 + 2) (by omega), map_range_block]
      simp only [SpongeState.map, F1Field.add_val, duplexEntry, h.release1 i hlt,
        h.release2 i hlt, h.release3 i hlt, add_comm (m _)]

/-- **THE BLOCKS OF A DECRYPTION.** -/
theorem decrypt_blocks (h : Duplex (permutation permute) start n m c out)
    {ciphertext : List ℕ} (hc : ∀ j < n * 3, ciphertext.getD j 0 = (c j).val) :
    ∀ i ≤ n, (List.range i).foldl (decryptBlock permute ciphertext)
        (start.map ZMod.val, [])
      = ((duplexEntry start c out i).map ZMod.val,
          (List.range (i * 3)).map fun j => (m j).val) := by
  intro i
  induction i with
  | zero => exact fun _ => rfl
  | succ i ih =>
      intro hi
      have hlt : i < n := hi
      rw [List.range_succ, List.foldl_append, ih (Nat.le_of_lt hlt), List.foldl_cons,
        List.foldl_nil, decryptBlock]
      simp only [strategy_entry h (Nat.le_of_lt hlt), hc (i * 3) (by omega),
        hc (i * 3 + 1) (by omega), hc (i * 3 + 2) (by omega), map_range_block]
      simp only [SpongeState.map, F1Field.sub_val, duplexEntry]
      rw [h.release1 i hlt, h.release2 i hlt, h.release3 i hlt, add_sub_cancel_right,
        add_sub_cancel_right, add_sub_cancel_right]

/-- The initial state as field elements. -/
def startState (key : F × F) (l : ℕ) (nonce : F) : SpongeState F :=
  ⟨0, key.1, key.2, nonce + l * (two128 : ℕ)⟩

theorem initialState_eq (key : F × F) (l nonce : ℕ) :
    initialState (key.1.val, key.2.val) l nonce
      = (startState key l nonce).map ZMod.val := by
  have hmul : F1Field.mul (l : F).val two128 = ((l : F) * (two128 : ℕ)).val := by
    rw [← F1Field.mul_val, ZMod.val_cast_of_lt (by decide : two128 < bn254r)]
  rw [initialState, startState]
  simp only [SpongeState.map, ZMod.val_zero, F1Field.e_eq_val, ZMod.natCast_zmod_val, hmul,
    F1Field.add_val]

/-- The elements of a list of values. -/
def elements (l : ℕ) (m : ℕ → F) : List ℕ := (List.range l).map fun i => (m i).val

theorem length_elements (l : ℕ) (m : ℕ → F) : (elements l m).length = l := by
  rw [elements, List.length_map, List.length_range]

theorem getElem?_elements {l i : ℕ} (h : i < l) (m : ℕ → F) :
    (elements l m)[i]? = some (m i).val := by
  rw [elements, List.getElem?_map, List.getElem?_range h]
  rfl

theorem getD_elements {l i : ℕ} (h : i < l) (m : ℕ → F) :
    (elements l m).getD i 0 = (m i).val := by
  rw [List.getD_eq_getElem?_getD, getElem?_elements h]
  rfl

theorem elements_succ (l : ℕ) (m : ℕ → F) :
    elements (l + 1) m = elements l m ++ [(m l).val] := by
  rw [elements, elements, List.range_succ, List.map_append]
  rfl

theorem take_elements {l n : ℕ} (h : l ≤ n) (m : ℕ → F) :
    (elements n m).take l = elements l m := by
  rw [elements, ← List.map_take, List.take_range, Nat.min_eq_left h, elements]

/-- What an encryption of `l` elements follows: the blocks hold the message, padded. -/
structure Encrypts (permute : SpongeState ℕ → SpongeState ℕ) (key : F × F) (nonce : F)
    (l : ℕ) (m c : ℕ → F) (out : ℕ → SpongeState F) : Prop where
  duplex : Duplex (permutation permute) (startState key l nonce) ((l + 2) / 3) m c out
  padded : ∀ j, l ≤ j → j < (l + 2) / 3 * 3 → m j = 0

variable {key : F × F} {l nonce : ℕ}

/-- **ENCRYPTION FOLLOWS THE SPONGE.** -/
theorem encrypt_eq (h : Encrypts permute key nonce l m c out) (hnonce : nonce < two128) :
    poseidonEncrypt permute (elements l m) (key.1.val, key.2.val) nonce
      = some (elements ((l + 2) / 3 * 3 + 1) c) := by
  have hmap : (elements l m).map (fun x : ℕ => F1Field.e x) = elements l m := by
    rw [elements, List.map_map]
    exact List.map_congr_left fun i _ => F1Field.e_val (m i)
  have hlen : (padMessage (elements l m)).length = (l + 2) / 3 * 3 := by
    rw [length_padMessage, length_elements]
  have hm : ∀ j < (l + 2) / 3 * 3, (padMessage (elements l m)).getD j 0 = (m j).val := by
    intro j hj
    rw [getD_padMessage]
    by_cases hjl : j < l
    · exact getD_elements hjl m
    · have hle := Nat.le_of_not_lt hjl
      rw [h.padded j hle hj, ZMod.val_zero]
      exact List.getD_eq_default _ _ (by rw [length_elements]; exact hle)
  have hblocks := encrypt_blocks h.duplex hm _ (Nat.le_refl _)
  have hthree : 0 < 3 := by omega
  simp only [poseidonEncrypt, hmap, if_pos hnonce, hlen, length_elements, initialState_eq,
    Nat.mul_div_cancel _ hthree, hblocks]
  rw [strategy_entry h.duplex (Nat.le_refl _), elements_succ, h.duplex.last]
  rfl

/-- **DECRYPTION FOLLOWS THE SPONGE**, and its assertions hold. -/
theorem decrypt_eq (h : Encrypts permute key nonce l m c out) (hnonce : nonce < two128) :
    poseidonDecrypt permute (elements ((l + 2) / 3 * 3 + 1) c) (key.1.val, key.2.val) l
      nonce = some (elements l m) := by
  have hc : ∀ j < (l + 2) / 3 * 3,
      (elements ((l + 2) / 3 * 3 + 1) c).getD j 0 = (c j).val :=
    fun j hj => getD_elements (Nat.lt_succ_of_lt hj) c
  have hblocks := decrypt_blocks h.duplex hc _ (Nat.le_refl _)
  have hlast : (elements ((l + 2) / 3 * 3 + 1) c).getLast?
      = some ((out ((l + 2) / 3)).map ZMod.val).s1 := by
    rw [elements_succ, List.getLast?_concat, h.duplex.last]
    rfl
  have hzero : ∀ j, l ≤ j → j < (l + 2) / 3 * 3 →
      (elements ((l + 2) / 3 * 3) m)[j]? = some 0 := by
    intro j hle hlt
    rw [getElem?_elements hlt, h.padded j hle hlt, ZMod.val_zero]
  have hpadding : PaddingZero (elements ((l + 2) / 3 * 3) m) l := by
    rw [PaddingZero, length_elements]
    refine ⟨?_, ?_⟩
    · exact fun _ hmod => hzero _ (by omega) (by omega)
    · exact fun _ hmod => ⟨hzero _ (by omega) (by omega), hzero _ (by omega) (by omega)⟩
  rw [poseidonDecrypt, if_pos hnonce, length_elements, initialState_eq,
    show ((l + 2) / 3 * 3 + 1) / 3 = (l + 2) / 3 by omega, hblocks]
  show (if PaddingZero (elements _ m) l then
    if _ = some (poseidonStrategy permute (SpongeState.map _ _)).s1 then
      some ((elements _ m).take l) else none else none) = _
  rw [if_pos hpadding, strategy_entry h.duplex (Nat.le_refl _), if_pos hlast,
    take_elements (by omega)]

/-! ## Any ciphertext -/

/-- The message that a ciphertext is taken apart into. -/
def plaintext (permute : SpongeState ℕ → SpongeState ℕ) (key : F × F) (l nonce : ℕ)
    (c : ℕ → F) : ℕ → F :=
  undoMessage (permutation permute) (startState key l nonce) c

/-- The last element that belongs to it. -/
def tag (permute : SpongeState ℕ → SpongeState ℕ) (key : F × F) (l nonce : ℕ)
    (c : ℕ → F) : F :=
  (undoOut (permutation permute) (startState key l nonce) c ((l + 2) / 3)).s1

/-- The assertions on the padding, about the last `3 - l % 3` elements. -/
theorem paddingZero_iff {l : ℕ} {m : ℕ → F} :
    PaddingZero (elements ((l + 2) / 3 * 3) m) l ↔
      (3 < l → ∀ j, l ≤ j → j < (l + 2) / 3 * 3 → m j = 0) := by
  have hget : ∀ j < (l + 2) / 3 * 3,
      (elements ((l + 2) / 3 * 3) m)[j]? = some 0 ↔ m j = 0 := by
    intro j hj
    rw [getElem?_elements hj, Option.some.injEq, ZMod.val_eq_zero]
  rw [PaddingZero, length_elements]
  constructor
  · rintro ⟨htwo, hone⟩ hl j hle hlt
    have hmod : l % 3 = 2 ∨ l % 3 = 1 := by omega
    rcases hmod with hmod | hmod
    · have hlast := (hget _ (by omega)).mp (htwo hl hmod)
      rwa [show j = (l + 2) / 3 * 3 - 1 by omega]
    · obtain ⟨hlast, hbefore⟩ := hone hl hmod
      have hj : j = (l + 2) / 3 * 3 - 1 ∨ j = (l + 2) / 3 * 3 - 2 := by omega
      rcases hj with rfl | rfl
      · exact (hget _ hlt).mp hlast
      · exact (hget _ hlt).mp hbefore
  · intro hzero
    refine ⟨?_, ?_⟩
    · intro hl hmod
      exact (hget _ (by omega)).mpr (hzero hl _ (by omega) (by omega))
    · intro hl hmod
      exact ⟨(hget _ (by omega)).mpr (hzero hl _ (by omega) (by omega)),
        (hget _ (by omega)).mpr (hzero hl _ (by omega) (by omega))⟩

/-- **WHAT DECRYPTION ACCEPTS**, forged or not. -/
theorem decrypt_eq_some_iff (permute : SpongeState ℕ → SpongeState ℕ) (key : F × F) (l : ℕ)
    {nonce : ℕ} (hnonce : nonce < two128) (c : ℕ → F) (message : List ℕ) :
    poseidonDecrypt permute (elements ((l + 2) / 3 * 3 + 1) c) (key.1.val, key.2.val) l nonce
        = some message ↔
      ((3 < l → ∀ j, l ≤ j → j < (l + 2) / 3 * 3 → plaintext permute key l nonce c j = 0) ∧
        c ((l + 2) / 3 * 3) = tag permute key l nonce c) ∧
      message = elements l (plaintext permute key l nonce c) := by
  have h := duplex_undo (permutation permute) (startState key l nonce) c ((l + 2) / 3)
  have hc : ∀ j < (l + 2) / 3 * 3, (elements ((l + 2) / 3 * 3 + 1) c).getD j 0
      = (sealed (permutation permute) (startState key l nonce) c ((l + 2) / 3) j).val := by
    intro j hj
    rw [getD_elements (Nat.lt_succ_of_lt hj), sealed, if_neg (Nat.ne_of_lt hj)]
  have hblocks := decrypt_blocks h hc _ (Nat.le_refl _)
  have hlast : (elements ((l + 2) / 3 * 3 + 1) c).getLast?
        = some (poseidonStrategy permute ((duplexEntry (startState key l nonce)
          (sealed (permutation permute) (startState key l nonce) c ((l + 2) / 3))
          (undoOut (permutation permute) (startState key l nonce) c)
          ((l + 2) / 3)).map ZMod.val)).s1 ↔
      c ((l + 2) / 3 * 3) = tag permute key l nonce c := by
    rw [elements_succ, List.getLast?_concat, strategy_entry h (Nat.le_refl _),
      Option.some.injEq]
    exact (ZMod.val_injective bn254r).eq_iff
  rw [poseidonDecrypt, if_pos hnonce, length_elements, initialState_eq,
    show ((l + 2) / 3 * 3 + 1) / 3 = (l + 2) / 3 by omega, hblocks]
  show (if PaddingZero (elements _ (plaintext permute key l nonce c)) l then
    if _ = some (poseidonStrategy permute (SpongeState.map _ _)).s1 then
      some ((elements _ (plaintext permute key l nonce c)).take l) else none else none)
      = _ ↔ _
  rw [take_elements (by omega), ← paddingZero_iff, ← hlast]
  split
  · split
    · simp_all [eq_comm]
    · simp_all
  · simp_all

end Sponge

end Albus.Core
