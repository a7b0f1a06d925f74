import Albus.Circuits.PoseidonEncryption

/-! # The circuit's decryption and the client's

    Both take a ciphertext apart with the same sponge, and compare its last element
    with the sponge's output.  They differ in the padding: the circuit asks for zeros
    whenever the length is no multiple of three, the client only above three.  One
    block that hides something behind a message of one or two elements is accepted by
    the client, and is no encryption (`same_decryption_iff`). -/

namespace Albus.Circuits

open Albus.Lib Albus.Core

namespace PoseidonDecrypt

structure Signals where
  /-- `lt.out`. -/
  lt : F
  /-- `strategies[i].out[j]`. -/
  strategies : ℕ → ℕ → F
  decrypted : ℕ → F

/-- The four outputs of `PoseidonEx(3, 4)`. -/
def outs (s : Signals) (i : ℕ) : List F := (List.range 4).map (s.strategies i)

/-- `decryptedLength`. -/
def decryptedLength (l : ℕ) : ℕ := adjustToMultiple l 3

/-- `PoseidonDecrypt(l)`. -/
structure Constraints (lib : Circomlib) (l : ℕ) (ciphertext : ℕ → F) (nonce : F)
    (key : F × F) (s : Signals) : Prop where
  lt : lib.lessThan 252 nonce (2 ^ 128) s.lt
  ltOut : s.lt = 1
  init : lib.poseidonEx [key.1, key.2, nonce + l * 2 ^ 128] 0 (outs s 0)
  release : ∀ i < (decryptedLength l + 1) / 3, ∀ j < 3,
    s.decrypted (i * 3 + j) = ciphertext (i * 3 + j) - s.strategies i (j + 1)
  iterate : ∀ i < (decryptedLength l + 1) / 3,
    lib.poseidonEx [ciphertext (i * 3), ciphertext (i * 3 + 1), ciphertext (i * 3 + 2)]
      (s.strategies i 0) (outs s (i + 1))
  last : ciphertext (decryptedLength l) = s.strategies ((decryptedLength l + 1) / 3) 1
  padding2 : l % 3 = 2 → s.decrypted (decryptedLength l - 1) = 0
  padding1 : l % 3 = 1 →
    s.decrypted (decryptedLength l - 1) = 0 ∧ s.decrypted (decryptedLength l - 2) = 0

theorem decryptedLength_eq (l : ℕ) : decryptedLength l = (l + 2) / 3 * 3 :=
  adjustToMultiple_three l

theorem blocks_eq (l : ℕ) : (decryptedLength l + 1) / 3 = (l + 2) / 3 := by
  rw [decryptedLength_eq]
  omega

section Decryption

variable {lib : Circomlib} {permute : SpongeState ℕ → SpongeState ℕ} {l : ℕ}
  {ciphertext : ℕ → F} {key : F × F} {nonce : ℕ}

/-- The outputs of permutation `i`. -/
def state (s : Signals) (i : ℕ) : SpongeState F where
  s0 := s.strategies i 0
  s1 := s.strategies i 1
  s2 := s.strategies i 2
  s3 := s.strategies i 3

/-- `LessThan(252)` lets the nonce through. -/
theorem lessThan_two128 (harith : lib.Arithmetic) (hnonce : nonce < two128) :
    lib.lessThan 252 nonce (2 ^ 128) 1 := by
  have hn : (nonce : F).val = nonce :=
    ZMod.val_cast_of_lt (Nat.lt_trans hnonce (by decide))
  have htwo : (2 ^ 128 : F).val = two128 := by
    rw [← cast_two128]
    exact ZMod.val_cast_of_lt (by decide)
  rw [harith.lessThan 252 _ _ _ (Nat.le_refl _) (by rw [hn]; exact Nat.lt_trans hnonce (by decide))
    (by rw [htwo]; decide), hn, htwo, eq_comm, ofProp_eq_one_iff]
  exact hnonce

/-- **THE CONSTRAINTS TAKE THE CIPHERTEXT APART.** -/
theorem Constraints.undo (hlib : lib.SamePermutation permute) {s : Signals}
    (h : Constraints lib l ciphertext nonce key s) :
    (∀ i ≤ (l + 2) / 3, state s i
      = undoOut (permutation permute) (startState key l nonce) ciphertext i) ∧
    ∀ j < (l + 2) / 3 * 3, s.decrypted j = plaintext permute key l nonce ciphertext j := by
  have hinit := h.init
  have hrelease := h.release
  have hiterate := h.iterate
  rw [← cast_two128] at hinit
  rw [blocks_eq] at hrelease hiterate
  have hout : ∀ i ≤ (l + 2) / 3, state s i
      = undoOut (permutation permute) (startState key l nonce) ciphertext i := by
    intro i
    induction i with
    | zero =>
        intro _
        exact SpongeState.toList_inj ((hlib.poseidonEx _ _ _ _ _).mp hinit)
    | succ i ih =>
        intro hi
        have hnext := SpongeState.toList_inj (s := state s (i + 1))
          ((hlib.poseidonEx _ _ _ _ _).mp (hiterate i hi))
        rw [hnext, undoOut, ← ih (Nat.le_of_succ_le hi)]
        rfl
  refine ⟨hout, ?_⟩
  intro j hj
  have hi : j / 3 < (l + 2) / 3 := by omega
  have hstate := hout (j / 3) (Nat.le_of_lt hi)
  rw [plaintext, undoMessage, ← hstate]
  obtain hr | hr | hr : j = j / 3 * 3 + 0 ∨ j = j / 3 * 3 + 1 ∨ j = j / 3 * 3 + 2 := by omega
  · rw [if_pos (by omega)]
    have hblock := hrelease (j / 3) hi 0 (by omega)
    rwa [← hr] at hblock
  · rw [if_neg (by omega), if_pos (by omega)]
    have hblock := hrelease (j / 3) hi 1 (by omega)
    rwa [← hr] at hblock
  · rw [if_neg (by omega), if_neg (by omega)]
    have hblock := hrelease (j / 3) hi 2 (by omega)
    rwa [← hr] at hblock

/-- **WHICH CIPHERTEXTS THE CIRCUIT ACCEPTS.** -/
theorem exists_constraints_iff (hlib : lib.SamePermutation permute) (harith : lib.Arithmetic)
    (hl : 1 ≤ l) (hnonce : nonce < two128) :
    (∃ s, Constraints lib l ciphertext nonce key s) ↔
      (∀ j, l ≤ j → j < (l + 2) / 3 * 3 → plaintext permute key l nonce ciphertext j = 0) ∧
        ciphertext ((l + 2) / 3 * 3) = tag permute key l nonce ciphertext := by
  constructor
  · rintro ⟨s, h⟩
    obtain ⟨hout, hdecrypted⟩ := h.undo hlib
    refine ⟨?_, ?_⟩
    · intro j hle hlt
      rw [← hdecrypted j hlt]
      have hmod : l % 3 = 2 ∨ l % 3 = 1 := by omega
      have hlength := decryptedLength_eq l
      rcases hmod with hmod | hmod
      · have hlast := h.padding2 hmod
        rwa [show j = decryptedLength l - 1 by omega]
      · obtain ⟨hlast, hbefore⟩ := h.padding1 hmod
        have hj : j = decryptedLength l - 1 ∨ j = decryptedLength l - 2 := by omega
        rcases hj with rfl | rfl
        · exact hlast
        · exact hbefore
    · have hlast := h.last
      rw [blocks_eq, decryptedLength_eq] at hlast
      rw [hlast, tag, ← hout _ (Nat.le_refl _)]
      rfl
  · rintro ⟨hzero, htag⟩
    let out := undoOut (permutation permute) (startState key l nonce) ciphertext
    have hlength := decryptedLength_eq l
    refine ⟨{ lt := 1, strategies := fun i j => (out i).toList.getD j 0,
              decrypted := plaintext permute key l nonce ciphertext }, ?_⟩
    refine
      { lt := lessThan_two128 harith hnonce
        ltOut := rfl
        init := ?_
        release := ?_
        iterate := ?_
        last := ?_
        padding2 := fun hmod => hzero _ (by omega) (by omega)
        padding1 := fun hmod => ⟨hzero _ (by omega) (by omega), hzero _ (by omega) (by omega)⟩ }
    · rw [← cast_two128]
      exact (hlib.poseidonEx _ _ _ _ _).mpr rfl
    · intro i _ j hj
      show plaintext permute key l nonce ciphertext (i * 3 + j) = _
      rw [plaintext, undoMessage, show (i * 3 + j) / 3 = i by omega,
        show (i * 3 + j) % 3 = j by omega]
      interval_cases j <;> rfl
    · intro i _
      exact (hlib.poseidonEx _ _ _ _ _).mpr rfl
    · rw [blocks_eq, hlength]
      exact htag

/-! ## The two decryptors -/

/-- Client and circuit accept alike, read alike, and accept encryptions only. -/
structure SameDecryption (lib : Circomlib) (permute : SpongeState ℕ → SpongeState ℕ)
    (key : F × F) (l nonce : ℕ) (ciphertext : ℕ → F) : Prop where
  accepts : (∃ message, poseidonDecrypt permute
      (elements (adjustToMultiple l 3 + 1) ciphertext) (key.1.val, key.2.val) l nonce
        = some message) ↔
    ∃ s, Constraints lib l ciphertext nonce key s
  reads : ∀ message s, poseidonDecrypt permute
      (elements (adjustToMultiple l 3 + 1) ciphertext) (key.1.val, key.2.val) l nonce
        = some message →
    Constraints lib l ciphertext nonce key s → message = elements l s.decrypted
  encrypted : ∀ message, poseidonDecrypt permute
      (elements (adjustToMultiple l 3 + 1) ciphertext) (key.1.val, key.2.val) l nonce
        = some message →
    poseidonEncrypt permute message (key.1.val, key.2.val) nonce
      = some (elements (adjustToMultiple l 3 + 1) ciphertext)

/-- Behind a message of one or two elements the ciphertext is what the permutation
    gives, unless its last element is wrong anyway. -/
def NothingBehind (permute : SpongeState ℕ → SpongeState ℕ) (key : F × F) (l nonce : ℕ)
    (ciphertext : ℕ → F) : Prop :=
  let first := permutation permute (startState key l nonce)
  l < 3 →
    ciphertext 3
      = (permutation permute ⟨first.s0, ciphertext 0, ciphertext 1, ciphertext 2⟩).s1 →
    (l = 1 → ciphertext 1 = first.s2) ∧ ciphertext 2 = first.s3

theorem nothingBehind_iff (hl : 1 ≤ l) :
    NothingBehind permute key l nonce ciphertext ↔
      (l < 3 → ciphertext 3 = tag permute key l nonce ciphertext →
        ∀ j, l ≤ j → j < 3 → plaintext permute key l nonce ciphertext j = 0) := by
  have hone : plaintext permute key l nonce ciphertext 1
      = ciphertext 1 - (permutation permute (startState key l nonce)).s2 := rfl
  have htwo : plaintext permute key l nonce ciphertext 2
      = ciphertext 2 - (permutation permute (startState key l nonce)).s3 := rfl
  rw [NothingBehind]
  refine imp_congr_right fun hlt => ?_
  rw [tag, show (l + 2) / 3 = 1 by omega]
  refine imp_congr Iff.rfl ?_
  constructor
  · rintro ⟨h1, h2⟩ j hle hj
    obtain rfl | rfl : j = 1 ∨ j = 2 := by omega
    · rw [hone, h1 (by omega), sub_self]
    · rw [htwo, h2, sub_self]
  · intro h
    refine ⟨fun hl1 => ?_, ?_⟩
    · exact sub_eq_zero.mp (hone.symm.trans (h 1 (by omega) (by omega)))
    · exact sub_eq_zero.mp (htwo.symm.trans (h 2 (by omega) (by omega)))

/-- A ciphertext whose message is padded with zeros encrypts it. -/
theorem encrypts_plaintext (htag : ciphertext ((l + 2) / 3 * 3)
      = tag permute key l nonce ciphertext)
    (hzero : ∀ j, l ≤ j → j < (l + 2) / 3 * 3 →
      plaintext permute key l nonce ciphertext j = 0) :
    Encrypts permute key nonce l (Core.plaintext permute key l nonce ciphertext) ciphertext
      (undoOut (permutation permute) (startState key l nonce) ciphertext) where
  duplex := by
    have h := duplex_undo (permutation permute) (startState key l nonce) ciphertext
      ((l + 2) / 3)
    rwa [sealed_eq_self _ _ _ htag] at h
  padded := hzero

/-- **WHEN THE TWO DECRYPTORS AGREE.** -/
theorem same_decryption_iff (hlib : lib.SamePermutation permute) (harith : lib.Arithmetic)
    (hl : 1 ≤ l) (hnonce : nonce < 2 ^ 128) :
    SameDecryption lib permute key l nonce ciphertext ↔
      NothingBehind permute key l nonce ciphertext := by
  rw [nothingBehind_iff hl]
  have hclient := decrypt_eq_some_iff permute key l hnonce ciphertext
  have hcircuit : (∃ s, Constraints lib l ciphertext nonce key s) ↔ _ :=
    exists_constraints_iff hlib harith hl hnonce
  rw [← adjustToMultiple_three] at hclient
  constructor
  · intro h hlt htag j hle hj
    have hthree : (l + 2) / 3 * 3 = 3 := by omega
    -- the client accepts: it asks for no zeros
    have haccepts := h.accepts.mp ⟨_, (hclient _).mpr
      ⟨⟨fun hgt => absurd hgt (by omega), by
        rw [adjustToMultiple_three, hthree]; exact htag⟩, rfl⟩⟩
    exact (hcircuit.mp haccepts).1 j hle (by omega)
  · intro h
    have hpadded : ∀ {message}, poseidonDecrypt permute
        (elements (adjustToMultiple l 3 + 1) ciphertext) (key.1.val, key.2.val) l nonce
          = some message →
        ((∀ j, l ≤ j → j < (l + 2) / 3 * 3 →
            Core.plaintext permute key l nonce ciphertext j = 0) ∧
          ciphertext ((l + 2) / 3 * 3) = tag permute key l nonce ciphertext) ∧
        message = elements l (Core.plaintext permute key l nonce ciphertext) := by
      intro message hmessage
      obtain ⟨⟨hzero, htag⟩, heq⟩ := (hclient message).mp hmessage
      rw [adjustToMultiple_three] at hzero htag
      refine ⟨⟨?_, htag⟩, heq⟩
      intro j hle hlt
      rcases Nat.lt_or_ge 3 l with hgt | hge
      · exact hzero hgt j hle hlt
      · have hthree : (l + 2) / 3 * 3 = 3 := by omega
        rw [hthree] at htag hlt
        exact h (by omega) htag j hle hlt
    refine ⟨⟨?_, ?_⟩, ?_, ?_⟩
    · rintro ⟨message, hmessage⟩
      exact hcircuit.mpr (hpadded hmessage).1
    · intro hs
      obtain ⟨hzero, htag⟩ := hcircuit.mp hs
      rw [← adjustToMultiple_three] at hzero htag
      exact ⟨_, (hclient _).mpr ⟨⟨fun _ => hzero, htag⟩, rfl⟩⟩
    · intro message s hmessage hs
      rw [(hpadded hmessage).2]
      refine List.map_congr_left ?_
      intro j hj
      have hj' := List.mem_range.mp hj
      rw [(hs.undo hlib).2 j (by omega)]
    · intro message hmessage
      obtain ⟨⟨hzero, htag⟩, rfl⟩ := hpadded hmessage
      rw [adjustToMultiple_three]
      exact encrypt_eq (encrypts_plaintext htag hzero) hnonce

end Decryption

/-! ## Something behind one element -/

namespace Sample

def out0 : SpongeState ℕ where
  s0 := 8417265382979256481780897482278861816067103137441927915479064909160896562353
  s1 := 6343958499720677554819997271059080298997952409636690374825451770431745777820
  s2 := 20510280776467404874800018428742313360567340584625295725304851253313396709740
  s3 := 4888223833291862112372739166777131875601686915689116922118165224644848911032

def out1 : SpongeState ℕ where
  s0 := 15869325176743038498517152364889659565745913400954984026479605712050739553196
  s1 := 2316080860065120353311372089830446284188889347840458153230382376805679916354
  s2 := 8726129244209052322275336278810857013093811275428967821912094995980209887974
  s3 := 10307970634101121094201967232746078872607595259759184111273156783175561073446

def out2 : SpongeState ℕ where
  s0 := 18186085243795995726324477699007826226074344211986638466348716229533990951514
  s1 := 5133899412014309454566125691193377140076971326601405822585862964830518266620
  s2 := 2380486872096631225242407420882466341719916066491319034522665840323820736342
  s3 := 19763618958151155701701375733465794675489058372368280058860827615514997554638

/-- Poseidon on the states of decrypting one element under the key 3, 4 with the
    nonce 5, with something behind it and with nothing. -/
def table : List (SpongeState ℕ × SpongeState ℕ) :=
  [(⟨0, 3, 4, 5 + 2 ^ 128⟩, out0),
    (⟨out0.s0, out0.s1 + 10, out0.s2 + 7, out0.s3⟩, out1),
    (⟨out0.s0, out0.s1 + 10, out0.s2, out0.s3⟩, out2)]

def permute (state : SpongeState ℕ) : SpongeState ℕ :=
  (table.lookup state).getD ⟨0, 0, 0, 0⟩

def key : F × F := ((3 : ℕ), (4 : ℕ))

def lib : Circomlib := (Circomlib.reference .empty).withPermutation permute

theorem lib_same : lib.SamePermutation permute := Circomlib.withPermutation_same _ _

theorem lib_arithmetic : lib.Arithmetic where
  num2Bits := (Circomlib.reference_arithmetic .empty).num2Bits
  bits2Num := (Circomlib.reference_arithmetic .empty).bits2Num
  isEqual := (Circomlib.reference_arithmetic .empty).isEqual
  and := (Circomlib.reference_arithmetic .empty).and
  lessThan := (Circomlib.reference_arithmetic .empty).lessThan
  lessEqThan := (Circomlib.reference_arithmetic .empty).lessEqThan
  greaterThan := (Circomlib.reference_arithmetic .empty).greaterThan
  greaterEqThan := (Circomlib.reference_arithmetic .empty).greaterEqThan

/-- 10, with a 7 where the padding belongs. -/
def ciphertext : ℕ → F
  | 0 => (out0.s1 + 10 : ℕ)
  | 1 => (out0.s2 + 7 : ℕ)
  | 2 => (out0.s3 : ℕ)
  | _ => (out1.s1 : ℕ)

/-- 10, with nothing behind it. -/
def encryption : ℕ → F
  | 0 => (out0.s1 + 10 : ℕ)
  | 1 => (out0.s2 : ℕ)
  | 2 => (out0.s3 : ℕ)
  | _ => (out2.s1 : ℕ)

theorem nothingBehind_encryption : NothingBehind permute key 1 5 encryption := by
  have hrest : encryption 1 = (permutation permute (startState key 1 5)).s2 ∧
      encryption 2 = (permutation permute (startState key 1 5)).s3 := by
    decide +kernel
  exact fun _ _ => ⟨fun _ => hrest.1, hrest.2⟩

theorem decrypt_ciphertext :
    poseidonDecrypt permute (elements (adjustToMultiple 1 3 + 1) ciphertext)
      (key.1.val, key.2.val) 1 5 = some [10] := by
  decide +kernel

theorem plaintext_one : Core.plaintext permute key 1 5 ciphertext 1 = 7 := by
  decide +kernel

/-- With a 7 behind the element both sides are false; with nothing, the two decrypt the
    same. -/
theorem same_decryption_iff_one :
    (SameDecryption lib permute key 1 5 ciphertext ↔
      NothingBehind permute key 1 5 ciphertext) ∧
    SameDecryption lib permute key 1 5 encryption :=
  ⟨same_decryption_iff lib_same lib_arithmetic (Nat.le_refl 1) (by norm_num),
    (same_decryption_iff lib_same lib_arithmetic (Nat.le_refl 1) (by norm_num)).mpr
      nothingBehind_encryption⟩

/-- The client reads 10; no signals satisfy the circuit. -/
theorem decryptions_differ :
    poseidonDecrypt permute (elements (adjustToMultiple 1 3 + 1) ciphertext)
        (key.1.val, key.2.val) 1 5 = some [10] ∧
      ¬ ∃ s, Constraints lib 1 ciphertext (5 : ℕ) key s := by
  refine ⟨decrypt_ciphertext, ?_⟩
  intro h
  obtain ⟨hzero, -⟩ := (exists_constraints_iff lib_same lib_arithmetic (Nat.le_refl 1)
    (show 5 < two128 by decide)).mp h
  have hone := hzero 1 (Nat.le_refl 1) (by decide)
  rw [plaintext_one] at hone
  exact absurd hone (by decide)

end Sample

end PoseidonDecrypt

end Albus.Circuits
