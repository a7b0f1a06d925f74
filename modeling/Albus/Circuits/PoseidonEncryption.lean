import Albus.Circuits.Encryption
import Albus.Core.PoseidonCipher

/-! # The circuit's cipher and the client's

    `PoseidonEncrypt(l)` feeds the ciphertext back as inputs of the next permutation,
    with the capacity as initial state; the client adds to its state.  Both are the
    sponge of `Duplex`: the client's ciphertext is the one that the constraints force,
    and decrypting it gives the message back (`poseidon_cipher`). -/

namespace Albus.Circuits

open Albus.Lib Albus.Core

/-- **WHAT `PoseidonEx(3, 4)` IS RELIED ON FOR.**  It is the permutation that the
    client computes. -/
structure Circomlib.SamePermutation (lib : Circomlib)
    (permute : SpongeState ℕ → SpongeState ℕ) : Prop where
  poseidonEx : ∀ a b c d out, lib.poseidonEx [a, b, c] d out ↔
    out = (permutation permute ⟨d, a, b, c⟩).toList

/-- `PoseidonEx(3, 4)` constrained to be the client's permutation. -/
def Circomlib.withPermutation (lib : Circomlib)
    (permute : SpongeState ℕ → SpongeState ℕ) : Circomlib :=
  { lib with
    poseidonEx := fun inputs d out =>
      match inputs with
      | [a, b, c] => out = (permutation permute ⟨d, a, b, c⟩).toList
      | _ => False }

theorem Circomlib.withPermutation_same (lib : Circomlib)
    (permute : SpongeState ℕ → SpongeState ℕ) :
    (lib.withPermutation permute).SamePermutation permute where
  poseidonEx _ _ _ _ _ := Iff.rfl

theorem adjustToMultiple_three (l : ℕ) : adjustToMultiple l 3 = (l + 2) / 3 * 3 := by
  rw [adjustToMultiple]
  omega

theorem cast_two128 : ((two128 : ℕ) : F) = 2 ^ 128 := by
  rw [two128, Nat.cast_pow, Nat.cast_ofNat]

namespace PoseidonEncrypt

section Cipher

variable {lib : Circomlib} {permute : SpongeState ℕ → SpongeState ℕ} {l : ℕ}
  {message : ℕ → F} {nonce : F} {key : F × F}

/-- The outputs of permutation `i`. -/
def state (s : Signals) (i : ℕ) : SpongeState F where
  s0 := s.strategies i 0
  s1 := s.strategies i 1
  s2 := s.strategies i 2
  s3 := s.strategies i 3

/-- **THE CONSTRAINTS FOLLOW THE SPONGE.** -/
theorem encrypts_of_constraints (hlib : lib.SamePermutation permute) {s : Signals}
    (h : Constraints lib l message nonce key s) :
    Encrypts permute key nonce l (decrypted l message) s.ciphertext (state s) where
  duplex := by
    have hn : adjustToMultiple l 3 / 3 = (l + 2) / 3 := by
      rw [adjustToMultiple_three, Nat.mul_div_cancel _ (by omega)]
    have hinit := h.init
    rw [← cast_two128] at hinit
    have hrelease := h.release
    have hiterate := h.iterate
    have hlast := h.last
    rw [hn] at hrelease hiterate hlast
    rw [adjustToMultiple_three] at hlast
    exact
      { first := SpongeState.toList_inj ((hlib.poseidonEx _ _ _ _ _).mp hinit)
        release1 := fun i hi => hrelease i hi 0 (by omega)
        release2 := fun i hi => hrelease i hi 1 (by omega)
        release3 := fun i hi => hrelease i hi 2 (by omega)
        next := fun i hi =>
          SpongeState.toList_inj ((hlib.poseidonEx _ _ _ _ _).mp (hiterate i hi))
        last := hlast }
  padded := by
    intro j hj _
    rw [decrypted, if_neg (Nat.not_lt.mpr hj)]

/-- The signals of the sponge's run on a message. -/
def signalsOf (permute : SpongeState ℕ → SpongeState ℕ) (l : ℕ) (message : ℕ → F)
    (nonce : F) (key : F × F) : Signals where
  strategies i j := (duplexOut (permutation permute) (startState key l nonce)
    (decrypted l message) i).toList.getD j 0
  ciphertext := duplexCipher (permutation permute) (startState key l nonce)
    (decrypted l message) ((l + 2) / 3)

theorem encrypts_signalsOf (permute : SpongeState ℕ → SpongeState ℕ) (l : ℕ)
    (message : ℕ → F) (nonce : F) (key : F × F) :
    Encrypts permute key nonce l (decrypted l message)
      (signalsOf permute l message nonce key).ciphertext
      (state (signalsOf permute l message nonce key)) where
  duplex := duplex_exists _ _ _ _
  padded := by
    intro j hj _
    rw [decrypted, if_neg (Nat.not_lt.mpr hj)]

theorem constraints_signalsOf (hlib : lib.SamePermutation permute) (l : ℕ)
    (message : ℕ → F) (nonce : F) (key : F × F) :
    Constraints lib l message nonce key (signalsOf permute l message nonce key) := by
  have h := encrypts_signalsOf permute l message nonce key
  have hn : adjustToMultiple l 3 / 3 = (l + 2) / 3 := by
    rw [adjustToMultiple_three, Nat.mul_div_cancel _ (by omega)]
  refine ⟨?_, ?_, ?_, ?_⟩
  · rw [← cast_two128]
    exact (hlib.poseidonEx _ _ _ _ _).mpr (congrArg SpongeState.toList h.duplex.first)
  · rw [hn]
    intro i hi j hj
    interval_cases j
    · exact h.duplex.release1 i hi
    · exact h.duplex.release2 i hi
    · exact h.duplex.release3 i hi
  · rw [hn]
    intro i hi
    exact (hlib.poseidonEx _ _ _ _ _).mpr
      (congrArg SpongeState.toList (h.duplex.next i hi))
  · rw [hn, adjustToMultiple_three]
    exact h.duplex.last

/-- The padded message starts with the message. -/
theorem elements_decrypted (l : ℕ) (message : ℕ → F) :
    elements l (decrypted l message) = elements l message := by
  refine List.map_congr_left ?_
  intro i hi
  rw [decrypted, if_pos (List.mem_range.mp hi)]

/-- What the client gets back from any ciphertext that satisfies the constraints. -/
theorem decrypt_constraints (hlib : lib.SamePermutation permute) {nonce : ℕ}
    (hnonce : nonce < two128) {s : Signals}
    (h : Constraints lib l message nonce key s) :
    poseidonDecrypt permute (elements (adjustToMultiple l 3 + 1) s.ciphertext)
      (key.1.val, key.2.val) l nonce = some (elements l message) := by
  rw [adjustToMultiple_three, decrypt_eq (encrypts_of_constraints hlib h) hnonce,
    elements_decrypted]

/-- **THE TWO CIPHERS AGREE, AND DECRYPTION INVERTS THEM.** -/
theorem poseidon_cipher (hlib : lib.SamePermutation permute) (l : ℕ) (message : ℕ → F)
    (key : F × F) {nonce : ℕ} (hnonce : nonce < 2 ^ 128) :
    ∃ ciphertext,
      poseidonEncrypt permute (elements l message) (key.1.val, key.2.val) nonce
        = some ciphertext ∧
      (∃ s, Constraints lib l message nonce key s) ∧
      (∀ s, Constraints lib l message nonce key s →
        ciphertext = elements (adjustToMultiple l 3 + 1) s.ciphertext) ∧
      poseidonDecrypt permute ciphertext (key.1.val, key.2.val) l nonce
        = some (elements l message) := by
  have h := encrypts_signalsOf permute l message nonce key
  have hs := constraints_signalsOf hlib l message nonce key
  have hencrypt := encrypt_eq h hnonce
  rw [elements_decrypted] at hencrypt
  refine ⟨_, hencrypt, ⟨_, hs⟩, ?_, ?_⟩
  · intro s hs'
    rw [adjustToMultiple_three]
    refine List.map_congr_left ?_
    intro j hj
    rw [h.duplex.unique (encrypts_of_constraints hlib hs').duplex j
      (Nat.lt_succ_iff.mp (List.mem_range.mp hj))]
  · rw [← adjustToMultiple_three]
    exact decrypt_constraints hlib hnonce hs

end Cipher

/-! ## Two blocks -/

namespace Sample

def out0 : SpongeState ℕ where
  s0 := 2272386498284650295199724939131855856029459609898637207803554790533761630074
  s1 := 20348524200486480406837620896859326667806660912843865939652048233808998340618
  s2 := 8881774029085865172765749937727053989645228844333361436073209016178772949155
  s3 := 423356562291411417236069032629884455045492175582507858336601654170387532262

def out1 : SpongeState ℕ where
  s0 := 3665923932282400960089048112611810229764488517059852274215432435452175250189
  s1 := 20895679808143374648877131884254128356962553398208768294358521931679924860863
  s2 := 12262790068556021790609521511030364026958482328718081848916144522378619106250
  s3 := 14915830652765378812170282644449992541328331384959955949954669838950709896538

def out2 : SpongeState ℕ where
  s0 := 21207487528823461359336954017952272864481635402244839133026898397215445601013
  s1 := 10371509538106389331234884550579594426744624094245695514908446913472605322210
  s2 := 18982924904443621015802682993712655686172970086935543823745354419214928248407
  s3 := 10048785417322311126133052312328385251062405283126517378910548943744928794301

/-- Poseidon on the states of an encryption of 10, 11, 12, 13 under the key 3, 4 with
    the nonce 5. -/
def table : List (SpongeState ℕ × SpongeState ℕ) :=
  [(⟨0, 3, 4, 5 + 4 * 2 ^ 128⟩, out0),
    (⟨out0.s0, out0.s1 + 10, out0.s2 + 11, out0.s3 + 12⟩, out1),
    (⟨out1.s0, out1.s1 + 13, out1.s2, out1.s3⟩, out2)]

def permute (state : SpongeState ℕ) : SpongeState ℕ :=
  (table.lookup state).getD ⟨0, 0, 0, 0⟩

def key : F × F := ((3 : ℕ), (4 : ℕ))

def message (i : ℕ) : F := (i + 10 : ℕ)

def lib : Circomlib := (Circomlib.reference .empty).withPermutation permute

theorem lib_same : lib.SamePermutation permute := Circomlib.withPermutation_same _ _

/-- The ciphertext that the client computes. -/
example : poseidonEncrypt permute (elements 4 message) (3, 4) 5 = some
    [out0.s1 + 10, out0.s2 + 11, out0.s3 + 12, out1.s1 + 13, out1.s2, out1.s3,
      out2.s1] := by
  decide +kernel

theorem poseidon_cipher_sample :
    ∃ ciphertext, poseidonEncrypt permute (elements 4 message)
        (key.1.val, key.2.val) 5 = some ciphertext ∧
      (∃ s, Constraints lib 4 message (5 : ℕ) key s) ∧
      (∀ s, Constraints lib 4 message (5 : ℕ) key s →
        ciphertext = elements (adjustToMultiple 4 3 + 1) s.ciphertext) ∧
      poseidonDecrypt permute ciphertext (key.1.val, key.2.val) 4 5
        = some (elements 4 message) :=
  poseidon_cipher lib_same 4 message key (by norm_num)

end Sample

end PoseidonEncrypt

end Albus.Circuits
