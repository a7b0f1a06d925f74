import Albus.Circuits.Templates

/-! # Does a proof of a credential mean that it has not expired?

    For an honest prover it does, in all four templates.  The constraints alone do
    not: the parsed expiry is a bare hint, so the check excludes no timestamp, and
    a credential with an expiry that can be proved at one timestamp can be proved
    at every one where the timestamp enters nothing else. -/

namespace Albus.Circuits

open Albus.Lib

/-- The expiry the digits denote is zero, or after the timestamp. -/
def ExpiryHolds (timestamp : F) (digits : List UInt8) : Prop :=
  decimal digits = 0 ∨ timestamp.val < decimal digits

/-- A circuit on which nothing depends but the expiry check: whatever it proves at
    one timestamp, it proves at every other. -/
theorem expiry_never {digits : List UInt8}
    (hpos : 0 < decimal digits) (hlt : decimal digits < 2 ^ 32)
    {Signals : Type} {C : F → Signals → Prop}
    (hfree : ∀ t t' s, t'.val < 2 ^ 32 → C t s → ∃ s', C t' s') :
    (∀ t s, t.val < 2 ^ 32 → C t s → ExpiryHolds t digits) ↔
      ∀ t s, t.val < 2 ^ 32 → ¬ C t s := by
  constructor
  · intro hsound t s _ hs
    -- prove it again, at the expiry itself
    have hval : ((decimal digits : ℕ) : F).val = decimal digits :=
      ZMod.val_natCast_of_lt (lt_trans hlt (lt_trans (by norm_num) two_pow_252_lt))
    obtain ⟨s', hs'⟩ := hfree t (decimal digits : F) s (by rw [hval]; exact hlt) hs
    rcases hsound _ s' (by rw [hval]; exact hlt) hs' with h | h
    · omega
    · rw [hval] at h
      exact lt_irrefl _ h
  · intro hnone t s ht hs
    exact absurd hs (hnone t s ht)

theorem ResidenceProof.Constraints.retime {lib : Circomlib} (hlib : lib.Arithmetic)
    {credentialDepth lookupN : ℕ} {x : Inputs} {s : Signals}
    (h : Constraints lib credentialDepth lookupN x s) {timestamp : F}
    (hts : timestamp.val < 2 ^ 32) :
    ∃ s', Constraints lib credentialDepth lookupN { x with timestamp := timestamp } s' := by
  obtain ⟨e, he⟩ := ExpiryCheck.exists_constraints hlib hts x.metaValidUntil.value
  exact ⟨{ s with expiry := e }, he, h.mtp, h.eddsa, h.countryCheck⟩

theorem CredentialTypeProof.Constraints.retime {lib : Circomlib} (hlib : lib.Arithmetic)
    {credentialDepth typesN : ℕ} {x : Inputs} {s : Signals}
    (h : Constraints lib credentialDepth typesN x s) {timestamp : F}
    (hts : timestamp.val < 2 ^ 32) :
    ∃ s', Constraints lib credentialDepth typesN { x with timestamp := timestamp } s' := by
  obtain ⟨e, he⟩ := ExpiryCheck.exists_constraints hlib hts x.metaValidUntil.value
  exact ⟨{ s with expiry := e }, h.res, h.isType, he, h.eddsa, h.mtp⟩

/-- **EXPIRY IS SOUND UNDER HONEST HINTS, AND UNDER NOTHING LESS.**  With the hints
    of the expiry check honest, every assignment of the four templates has an
    expiry of zero or after the timestamp.  Without, the check is satisfiable for
    every timestamp and claim; `ResidenceProof` and `CredentialTypeProof` are sound
    at all timestamps only for a credential nothing can be proved about. -/
theorem expiry_sound_honest (lib : Circomlib) (hlib : lib.Arithmetic)
    (digits : List UInt8) (hlen : digits.length ≤ 10)
    (hdigits : ∀ b ∈ digits, IsDigit b) :
    (∀ credentialDepth shamirN shamirK x s,
      AgeProof.Constraints lib credentialDepth shamirN shamirK x s →
      x.timestamp.val < 2 ^ 32 → x.metaValidUntil.value = (beNat digits : F) →
      ExpiryCheck.Hints x.metaValidUntil.value s.expiry →
      ExpiryHolds x.timestamp digits) ∧
    (∀ credentialDepth countryLookupSize shamirN shamirK x s,
      Kyc.Constraints lib credentialDepth countryLookupSize shamirN shamirK x s →
      x.timestamp.val < 2 ^ 32 → x.metaValidUntil.value = (beNat digits : F) →
      ExpiryCheck.Hints x.metaValidUntil.value s.expiry →
      ExpiryHolds x.timestamp digits) ∧
    (∀ credentialDepth lookupN x s,
      ResidenceProof.Constraints lib credentialDepth lookupN x s →
      x.timestamp.val < 2 ^ 32 → x.metaValidUntil.value = (beNat digits : F) →
      ExpiryCheck.Hints x.metaValidUntil.value s.expiry →
      ExpiryHolds x.timestamp digits) ∧
    (∀ credentialDepth typesN x s,
      CredentialTypeProof.Constraints lib credentialDepth typesN x s →
      x.timestamp.val < 2 ^ 32 → x.metaValidUntil.value = (beNat digits : F) →
      ExpiryCheck.Hints x.metaValidUntil.value s.expiry →
      ExpiryHolds x.timestamp digits) ∧
    (∀ timestamp metaValidUntil : F, timestamp.val < 2 ^ 32 →
      ∃ s, ExpiryCheck.Constraints lib timestamp metaValidUntil s) ∧
    (0 < decimal digits → decimal digits < 2 ^ 32 →
      ∀ credentialDepth lookupN (x : ResidenceProof.Inputs),
      (∀ t s, t.val < 2 ^ 32 →
        ResidenceProof.Constraints lib credentialDepth lookupN
          { x with timestamp := t } s → ExpiryHolds t digits) ↔
      ∀ t s, t.val < 2 ^ 32 →
        ¬ ResidenceProof.Constraints lib credentialDepth lookupN
          { x with timestamp := t } s) ∧
    (0 < decimal digits → decimal digits < 2 ^ 32 →
      ∀ credentialDepth typesN (x : CredentialTypeProof.Inputs),
      (∀ t s, t.val < 2 ^ 32 →
        CredentialTypeProof.Constraints lib credentialDepth typesN
          { x with timestamp := t } s → ExpiryHolds t digits) ↔
      ∀ t s, t.val < 2 ^ 32 →
        ¬ CredentialTypeProof.Constraints lib credentialDepth typesN
          { x with timestamp := t } s) := by
  -- one argument for the four templates
  have hcheck : ∀ (timestamp value : F) (e : ExpiryCheck.Signals),
      ExpiryCheck.Constraints lib timestamp value e → timestamp.val < 2 ^ 32 →
      value = (beNat digits : F) → ExpiryCheck.Hints value e →
      ExpiryHolds timestamp digits := by
    rintro timestamp value e h hts rfl hh
    exact h.sound hlib hts hlen hdigits hh
  refine ⟨?_, ?_, ?_, ?_, ?_, ?_, ?_⟩
  · intro _ _ _ x s h hts hv hh
    exact hcheck _ _ _ h.expiry hts hv hh
  · intro _ _ _ _ x s h hts hv hh
    exact hcheck _ _ _ h.expiry hts hv hh
  · intro _ _ x s h hts hv hh
    exact hcheck _ _ _ h.expiry hts hv hh
  · intro _ _ x s h hts hv hh
    exact hcheck _ _ _ h.expiry hts hv hh
  · intro timestamp value hts
    exact ExpiryCheck.exists_constraints hlib hts value
  · intro hpos hlt credentialDepth lookupN x
    refine expiry_never hpos hlt
      (C := fun t s => ResidenceProof.Constraints lib credentialDepth lookupN
        { x with timestamp := t } s) ?_
    intro t t' s ht' hs
    exact hs.retime hlib ht'
  · intro hpos hlt credentialDepth typesN x
    refine expiry_never hpos hlt
      (C := fun t s => CredentialTypeProof.Constraints lib credentialDepth typesN
        { x with timestamp := t } s) ?_
    intro t t' s ht' hs
    exact hs.retime hlib ht'

namespace ExpirySample

/-- `1690000000`. -/
def digits : List UInt8 := [49, 54, 57, 48, 48, 48, 48, 48, 48, 48]

/-- The credential at a timestamp, against a lookup of `US`. -/
def inputs (timestamp : F) : ResidenceProof.Inputs where
  timestamp := timestamp
  selectionMode := 1
  countryLookup _ := (0x5553 : ℕ)
  country := SampleCredential.country
  metaValidUntil := SampleCredential.metaValidUntil
  credentialRoot := SampleCredential.root
  issuer := SampleCredential.issuer

/-- The proof is satisfiable, given the expiry check. -/
theorem exists_of_expiry {timestamp : F} {e : ExpiryCheck.Signals}
    (he : ExpiryCheck.Constraints (.reference SampleCredential.table) timestamp
      SampleCredential.metaValidUntil.value e) :
    ∃ s, ResidenceProof.Constraints (.reference SampleCredential.table) 6 2
      (inputs timestamp) s ∧ s.expiry = e := by
  have halias : ∀ i < 2, Alias (0x5553 : F) ((fun _ => (0x5553 : F).val) i) :=
    fun _ _ => alias_val _
  obtain ⟨c, hc⟩ := (CountryProof.exists_constraints
    (Circomlib.reference_arithmetic SampleCredential.table) (by norm_num)
    SampleCredential.country.value halias).1
    ⟨0, by norm_num, 0, by norm_num, by decide +kernel⟩
  refine ⟨⟨e, c⟩, ⟨he, SampleCredential.mtp rfl (Or.inr rfl) ?_,
    List.mem_cons_self, hc⟩, rfl⟩
  intro d hd
  rcases List.mem_cons.mp hd with rfl | hd
  · simp [inputs, SampleCredential.claims]
  · simp [inputs, SampleCredential.claims, List.mem_singleton.mp hd]

end ExpirySample

/-- Before the expiry an honest prover has a proof, and the claim. -/
theorem expiry_sound_honest_sample :
    ∃ s, ResidenceProof.Constraints (.reference SampleCredential.table) 6 2
        (ExpirySample.inputs 1680000000) s ∧
      ExpiryHolds 1680000000 ExpirySample.digits := by
  have hlib := Circomlib.reference_arithmetic SampleCredential.table
  have hdigits : ∀ b ∈ ExpirySample.digits, IsDigit b := by
    simp [ExpirySample.digits, IsDigit]
  have hvalue : SampleCredential.metaValidUntil.value
      = (beNat ExpirySample.digits : F) := by decide +kernel
  obtain ⟨e, he, hh⟩ := ExpiryCheck.exists_honest hlib (by decide) hdigits
    (by decide +kernel)
    (by decide +kernel : (1680000000 : F).val < decimal ExpirySample.digits)
  rw [← hvalue] at he hh
  obtain ⟨s, hs, rfl⟩ := ExpirySample.exists_of_expiry he
  obtain ⟨-, -, hres, -⟩ := expiry_sound_honest _ hlib ExpirySample.digits (by decide)
    hdigits
  exact ⟨s, hs, hres 6 2 _ s hs (by decide +kernel) hvalue hh⟩

/-- **AN EXPIRED CREDENTIAL IS PROVED**, ten million seconds after its expiry. -/
theorem expiry_sound_fails :
    (∃ s, ResidenceProof.Constraints (.reference SampleCredential.table) 6 2
      (ExpirySample.inputs 1700000000) s) ∧
    (ExpirySample.inputs 1700000000).timestamp.val < 2 ^ 32 ∧
    (ExpirySample.inputs 1700000000).metaValidUntil.value
      = (beNat ExpirySample.digits : F) ∧
    ExpirySample.digits.length ≤ 10 ∧ (∀ b ∈ ExpirySample.digits, IsDigit b) ∧
    ¬ ExpiryHolds 1700000000 ExpirySample.digits := by
  have hdigits : ∀ b ∈ ExpirySample.digits, IsDigit b := by
    simp [ExpirySample.digits, IsDigit]
  refine ⟨?_, by decide +kernel, by decide +kernel, by decide, hdigits, ?_⟩
  · obtain ⟨e, he⟩ := ExpiryCheck.exists_constraints
      (Circomlib.reference_arithmetic SampleCredential.table)
      (by decide +kernel : (1700000000 : F).val < 2 ^ 32)
      SampleCredential.metaValidUntil.value
    obtain ⟨s, hs, -⟩ := ExpirySample.exists_of_expiry he
    exact ⟨s, hs⟩
  · unfold ExpiryHolds
    decide +kernel

end Albus.Circuits
