import Albus.Circuits.Binary

/-! # Country selection

    `utils/country.circom`.  A lookup word packs sixteen two-byte codes.
    `CountryLookup` unpacks it through `Num2Bits(256)`, and 256 bits hold up to six
    numbers with the residue of one field element: the word, and the word raised by
    multiples of the modulus.  Nothing asks for the smallest, so the prover picks
    which sixteen codes a lookup word stands for. -/

namespace Albus.Circuits

open Albus.Lib

/-! ## CountryLookup and CountryProof -/

namespace CountryLookup

structure Signals where
  bits : ℕ → ℕ → F
  out : ℕ → F

/-- `CountryLookup(n)`. -/
structure Constraints (lib : Circomlib) (n : ℕ) (lookup : ℕ → F)
    (s : Signals) : Prop where
  bits : ∀ i < n, lib.num2Bits 256 (lookup i) (s.bits i)
  out : ∀ i < n, ∀ j < 16, s.out (i * 16 + j) = bin2Num 16 (j * 16) (s.bits i)

end CountryLookup

namespace CountryProof

structure Signals where
  lookup : CountryLookup.Signals
  res : IN.Signals

/-- `CountryProof(n)`. -/
structure Constraints (lib : Circomlib) (n : ℕ) (lookup : ℕ → F)
    (country selectionMode : F) (s : Signals) : Prop where
  lookup : CountryLookup.Constraints lib n lookup s.lookup
  res : IN.Constraints lib (n * 16) country s.lookup.out s.res
  out : s.res.out = 1 * selectionMode

end CountryProof

/-! ## What the codes of a lookup are -/

/-- The `j`-th digit of a word in base `2 ^ 16`. -/
def codeOf (word j : ℕ) : F := ((word / 2 ^ (j * 16) % 2 ^ 16 : ℕ) : F)

/-- The country is one of the sixteen codes of a word. -/
def InWord (country : F) (word : ℕ) : Prop := ∃ j < 16, country = codeOf word j

instance (country : F) (word : ℕ) : Decidable (InWord country word) :=
  inferInstanceAs (Decidable (∃ j < 16, country = codeOf word j))

/-- The country is one of the codes of `n` words. -/
def InWords (country : F) (n : ℕ) (words : ℕ → ℕ) : Prop :=
  ∃ i < n, InWord country (words i)

/-- A 256-bit word with the residue `x`. -/
def Alias (x : F) (word : ℕ) : Prop := word < 2 ^ 256 ∧ (word : F) = x

theorem alias_val (x : F) : Alias x x.val := by
  constructor
  · exact lt_trans (ZMod.val_lt x) (lt_trans bn254r_lt_two_pow (by norm_num))
  · exact ZMod.natCast_zmod_val x

namespace CountryProof

/-- The words the prover's bits stand for are aliases of the lookup, and they
    decide the outcome. -/
theorem Constraints.words {lib : Circomlib} (hlib : lib.Arithmetic) {n : ℕ}
    (hn : n * 16 < 2 ^ 252) {lookup : ℕ → F} {country selectionMode : F} {s : Signals}
    (h : Constraints lib n lookup country selectionMode s) :
    ∃ words : ℕ → ℕ, (∀ i < n, Alias (lookup i) (words i)) ∧
      ((selectionMode = 1 → InWords country n words) ∧
        (selectionMode = 0 → ¬ InWords country n words)) := by
  refine ⟨fun i => bitsNat 256 (s.lookup.bits i), ?_, ?_⟩
  · intro i hi
    obtain ⟨hbits, hsum⟩ := (hlib.num2Bits _ _ _).mp (h.lookup.bits i hi)
    exact ⟨bitsNat_lt _ _, by rw [← weighted_eq hbits, hsum]⟩
  · have hcode : ∀ i < n, ∀ j < 16, s.lookup.out (i * 16 + j)
        = codeOf (bitsNat 256 (s.lookup.bits i)) j := by
      intro i hi j hj
      obtain ⟨hbits, -⟩ := (hlib.num2Bits _ _ _).mp (h.lookup.bits i hi)
      rw [h.lookup.out i hi j hj]
      exact weighted_window hbits (by omega)
    have hin : (∃ k < n * 16, country = s.lookup.out k) ↔
        InWords country n (fun i => bitsNat 256 (s.lookup.bits i)) := by
      constructor
      · rintro ⟨k, hk, heq⟩
        have hk' := hcode (k / 16) (by omega) (k % 16) (by omega)
        rw [Nat.div_add_mod' k 16] at hk'
        exact ⟨k / 16, by omega, k % 16, by omega, heq.trans hk'⟩
      · rintro ⟨i, hi, j, hj, heq⟩
        exact ⟨i * 16 + j, by omega, by rw [hcode i hi j hj, heq]⟩
    have hout : selectionMode
        = ofProp (0 < IN.hits country s.lookup.out (n * 16)) := by
      rw [← h.res.out_eq hlib hn, h.out, one_mul]
    rw [hout, ofProp_eq_one_iff, ofProp_eq_zero_iff, IN.hits_pos_iff, hin]
    exact ⟨id, id⟩

/-- Any choice of aliases is open to the prover. -/
theorem exists_constraints {lib : Circomlib} (hlib : lib.Arithmetic) {n : ℕ}
    (hn : n * 16 < 2 ^ 252) {lookup : ℕ → F} (country : F) {words : ℕ → ℕ}
    (hwords : ∀ i < n, Alias (lookup i) (words i)) :
    (InWords country n words → ∃ s, Constraints lib n lookup country 1 s) ∧
      (¬ InWords country n words → ∃ s, Constraints lib n lookup country 0 s) := by
  have hout : ∀ i j, j < 16 → codeOf (words ((i * 16 + j) / 16)) ((i * 16 + j) % 16)
      = codeOf (words i) j := by
    intro i j hj
    congr 2 <;> omega
  obtain ⟨res, hres, hresOut⟩ := IN.exists_constraints hlib hn country
    (fun k => codeOf (words (k / 16)) (k % 16))
  have hlookup : CountryLookup.Constraints lib n lookup
      ⟨fun i => natBits (words i), fun k => codeOf (words (k / 16)) (k % 16)⟩ := by
    constructor
    · intro i hi
      obtain ⟨hlt, hres⟩ := hwords i hi
      refine (hlib.num2Bits _ _ _).mpr ⟨isBits_natBits _ _, ?_⟩
      rw [weighted_eq (isBits_natBits _ _), bitsNat_natBits hlt, hres]
    · intro i hi j hj
      show codeOf _ _ = bin2Num 16 (j * 16) (natBits (words i))
      rw [hout i j hj]
      rw [bin2Num]
      rw [weighted_window (isBits_natBits 256 _) (by omega),
        bitsNat_natBits (hwords i hi).1]
      rfl
  have hin : (∃ k < n * 16, country = codeOf (words (k / 16)) (k % 16)) ↔
      InWords country n words := by
    constructor
    · rintro ⟨k, hk, heq⟩
      exact ⟨k / 16, by omega, k % 16, by omega, heq⟩
    · rintro ⟨i, hi, j, hj, heq⟩
      exact ⟨i * 16 + j, by omega, by rw [hout i j hj, heq]⟩
  rw [← hin, ← IN.hits_pos_iff]
  constructor
  · intro h
    refine ⟨⟨_, res⟩, hlookup, hres, ?_⟩
    show res.out = 1 * 1
    rw [hresOut, one_mul, ofProp_eq_one_iff]
    exact h
  · intro h
    refine ⟨⟨_, res⟩, hlookup, hres, ?_⟩
    show res.out = 1 * 0
    rw [hresOut, mul_zero, ofProp_eq_zero_iff]
    exact h

end CountryProof

/-! ## Soundness -/

/-- The claim of the template on one input: every satisfying assignment has the
    country among the codes of the lookup's representatives (mode 1), or not among
    them (mode 0). -/
def SelectionSound (lib : Circomlib) (n : ℕ) (lookup : ℕ → F)
    (country selectionMode : F) : Prop :=
  ∀ s, CountryProof.Constraints lib n lookup country selectionMode s →
    (selectionMode = 1 → InWords country n (fun i => (lookup i).val)) ∧
    (selectionMode = 0 → ¬ InWords country n (fun i => (lookup i).val))

/-- No alias of a lookup word has a country the representatives lack (mode 1);
    a country the representatives have, stays in all aliases of some word
    (mode 0). -/
def AliasSafe (n : ℕ) (lookup : ℕ → F) (country selectionMode : F) : Prop :=
  (selectionMode = 1 → ∀ i < n, ∀ word, Alias (lookup i) word → InWord country word →
    InWords country n (fun i => (lookup i).val)) ∧
  (selectionMode = 0 → InWords country n (fun i => (lookup i).val) →
    ∃ i < n, ∀ word, Alias (lookup i) word → InWord country word)

/-- **COUNTRY SELECTION IS SOUND EXACTLY WHEN NO ALIAS DECIDES OTHERWISE.** -/
theorem selection_sound_iff (lib : Circomlib) (hlib : lib.Arithmetic) (n : ℕ)
    (hn : n * 16 < 2 ^ 252) (lookup : ℕ → F) (country selectionMode : F) :
    SelectionSound lib n lookup country selectionMode ↔
      AliasSafe n lookup country selectionMode := by
  constructor
  · intro hsound
    refine ⟨?_, ?_⟩
    · -- one word replaced by the alias, the others canonical
      rintro rfl i hi word halias hword
      have hwords : ∀ k < n,
          Alias (lookup k) (Function.update (fun i => (lookup i).val) i word k) := by
        intro k _
        by_cases hk : k = i
        · subst hk
          rw [Function.update_self]
          exact halias
        · rw [Function.update_of_ne hk]
          exact alias_val _
      obtain ⟨s, hs⟩ := (CountryProof.exists_constraints hlib hn country hwords).1
        ⟨i, hi, by rw [Function.update_self]; exact hword⟩
      exact (hsound s hs).1 rfl
    · -- if every word had an alias without the country, those would be chosen
      rintro rfl hin
      by_contra hnone
      push Not at hnone
      choose! words hwords using hnone
      have halias : ∀ i < n, Alias (lookup i) (words i) := fun i hi => (hwords i hi).1
      obtain ⟨s, hs⟩ := (CountryProof.exists_constraints hlib hn country halias).2 (by
        rintro ⟨i, hi, hword⟩
        exact (hwords i hi).2 hword)
      exact (hsound s hs).2 rfl hin
  · rintro ⟨hincl, hexcl⟩ s hs
    obtain ⟨words, halias, h1, h0⟩ := hs.words hlib hn
    constructor
    · intro hmode
      obtain ⟨i, hi, hword⟩ := h1 hmode
      exact hincl hmode i hi _ (halias i hi) hword
    · intro hmode hin
      obtain ⟨i, hi, hall⟩ := hexcl hmode hin
      exact h0 hmode ⟨i, hi, hall _ (halias i hi)⟩

namespace LookupSample

/-- `KP`, as a claim and as the only code of a lookup word. -/
def kp : F := 0x4b50

/-- The word raised by the modulus. -/
def raised : ℕ := 0x4b50 + bn254r

end LookupSample

/-- A listed country is soundly included. -/
theorem selection_sound_sample :
    SelectionSound (.reference .empty) 1 (fun _ => LookupSample.kp) LookupSample.kp 1 := by
  refine (selection_sound_iff _ (Circomlib.reference_arithmetic _) 1 (by norm_num) _ _
    _).mpr ⟨?_, ?_⟩
  · intro _ i _ word _ _
    exact ⟨0, by norm_num, by decide +kernel⟩
  · intro h
    exact absurd h (by decide +kernel)

/-- **AN EXCLUDED COUNTRY IS PROVED NOT EXCLUDED**: the bits of the lookup word
    raised by the modulus have no digit `KP`. -/
theorem selection_sound_fails :
    (∃ s, CountryProof.Constraints (.reference .empty) 1 (fun _ => LookupSample.kp)
      LookupSample.kp 0 s) ∧
    InWords LookupSample.kp 1 (fun _ => LookupSample.kp.val) := by
  have hraised : Alias LookupSample.kp LookupSample.raised :=
    ⟨by decide +kernel, by decide +kernel⟩
  have halias : ∀ i < 1, Alias LookupSample.kp ((fun _ => LookupSample.raised) i) :=
    fun _ _ => hraised
  have hnone : ¬ InWord LookupSample.kp LookupSample.raised := by decide +kernel
  constructor
  · refine (CountryProof.exists_constraints (Circomlib.reference_arithmetic _)
      (by norm_num) LookupSample.kp halias).2 ?_
    rintro ⟨_, -, hword⟩
    exact hnone hword
  · exact ⟨0, by norm_num, by decide +kernel⟩

end Albus.Circuits
