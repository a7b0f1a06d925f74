import Albus.Circuits.Templates

/-! # Does a proof of age mean that the holder is of that age?

    For an honest prover it does, in `AgeProof` and in `Kyc`, up to the days on
    which `timestampToDate` runs past February.  The constraints alone constrain
    nothing about age: whoever can prove a credential under one range can prove it
    under every other, the range from 255 to 1 years included. -/

namespace Albus.Circuits

open Albus.Lib

/-- No one is both 255 years old and not yet older than one. -/
theorem not_ageHolds (timestamp : ℕ) (birth : DateString) :
    ¬ AgeHolds timestamp birth 255 1 := by
  rintro ⟨hmin, hmax⟩
  have h1 := hmin (by norm_num)
  have h2 := hmax (by norm_num)
  have hlt := birthday_lt birth (by norm_num : 1 < 255)
  omega

/-- The range 255 to 1, with a third byte. -/
def voidRange (c : ℕ) : ℕ := 511 + 65536 * c

theorem val_voidRange {c : ℕ} (hc : c < 256) : ((voidRange c : ℕ) : F).val = voidRange c := by
  refine ZMod.val_natCast_of_lt (lt_trans ?_ two_pow_252_lt)
  rw [voidRange]
  omega

theorem ageOf_voidRange {c : ℕ} (hc : c < 256) :
    minAgeOf (voidRange c : F) = 255 ∧ maxAgeOf (voidRange c : F) = 1 := by
  rw [minAgeOf, maxAgeOf]
  rw [val_voidRange hc]
  rw [voidRange]
  omega

/-- **ANY RANGE WILL DO** for `AgeProof`. -/
theorem AgeProof.Constraints.rerange {lib : Circomlib} (hlib : lib.Arithmetic)
    {credentialDepth shamirN shamirK : ℕ} {x : Inputs} {s : Signals}
    (h : Constraints lib credentialDepth shamirN shamirK x s) (r : F) :
    ∃ s', Constraints lib credentialDepth shamirN shamirK { x with ageRange := r } s' := by
  obtain ⟨range, hrange, -⟩ := AgeRange.exists_constraints hlib r
  obtain ⟨age, hage⟩ := AgeCheck.exists_constraints hlib x.birthDate.value
  exact ⟨{ s with range, age }, h.upk, h.expiry, h.eddsa, h.mtp, h.secret, h.enc,
    h.encryptedData, h.encryptedShare, hrange, hage⟩

/-- **ANY RANGE WILL DO** for `Kyc`, the selection mode kept. -/
theorem Kyc.Constraints.reconfigure {lib : Circomlib} (hlib : lib.Arithmetic)
    {credentialDepth countryLookupSize shamirN shamirK : ℕ} {x : Inputs} {s : Signals}
    (h : Constraints lib credentialDepth countryLookupSize shamirN shamirK x s) :
    ∃ c < 256, ∃ s', Constraints lib credentialDepth countryLookupSize shamirN shamirK
      { x with config := (voidRange c : F) } s' := by
  obtain ⟨hbits, -⟩ := (hlib.num2Bits _ _ _).mp h.cfg.bits
  have hmode : s.countrySelectionMode
      = ((bitsNat 256 s.cfg.bits / 2 ^ 16 % 2 ^ 8 : ℕ) : F) := by
    rw [h.mode]
    exact weighted_window hbits (by norm_num)
  have hc : bitsNat 256 s.cfg.bits / 2 ^ 16 % 2 ^ 8 < 256 := Nat.mod_lt _ (by norm_num)
  generalize bitsNat 256 s.cfg.bits / 2 ^ 16 % 2 ^ 8 = c at hmode hc
  obtain ⟨cfg, hcfg, hcanon⟩ := AgeRange.exists_constraints hlib (voidRange c : F)
  obtain ⟨age, hage⟩ := AgeCheck.exists_constraints hlib x.birthDate.value
  refine ⟨c, hc, { s with cfg, age }, hcfg, ?_, h.upk, h.eddsa, h.mtp, h.expiry, h.secret,
    h.enc, h.encryptedData, h.encryptedShare, hage, h.countryCheck⟩
  show s.countrySelectionMode = bin2Num 8 16 cfg.bits
  rw [bin2Num_canonical hcanon (by norm_num), val_voidRange hc, hmode]
  congr 1
  rw [voidRange]
  omega

/-- **AGE IS SOUND UNDER HONEST HINTS, AND UNDER NOTHING LESS.**  With the hints of
    the age part honest, a 32-bit timestamp and, for a maximal age, a date that
    does not run past February, every assignment of `AgeProof` and `Kyc` has the
    age in the range.  Without, a credential is sound under every range only if
    nothing can be proved about it. -/
theorem age_sound_honest (lib : Circomlib) (hlib : lib.Arithmetic) (birth : DateString) :
    (∀ credentialDepth shamirN shamirK x s,
      AgeProof.Constraints lib credentialDepth shamirN shamirK x s →
      x.birthDate.value = (beNat birth.bytes : F) → x.timestamp.val < 4294967295 →
      (0 < maxAgeOf x.ageRange → KeepsFebruary x.timestamp.val) →
      AgeProof.AgeHints x s →
      AgeHolds x.timestamp.val birth (minAgeOf x.ageRange) (maxAgeOf x.ageRange)) ∧
    (∀ credentialDepth countryLookupSize shamirN shamirK x s,
      Kyc.Constraints lib credentialDepth countryLookupSize shamirN shamirK x s →
      x.birthDate.value = (beNat birth.bytes : F) → x.timestamp.val < 4294967295 →
      (0 < maxAgeOf x.config → KeepsFebruary x.timestamp.val) →
      Kyc.AgeHints x s →
      AgeHolds x.timestamp.val birth (minAgeOf x.config) (maxAgeOf x.config)) ∧
    (∀ credentialDepth shamirN shamirK (x : AgeProof.Inputs),
      (∀ r s, AgeProof.Constraints lib credentialDepth shamirN shamirK
        { x with ageRange := r } s →
        AgeHolds x.timestamp.val birth (minAgeOf r) (maxAgeOf r)) ↔
      ∀ r s, ¬ AgeProof.Constraints lib credentialDepth shamirN shamirK
        { x with ageRange := r } s) ∧
    (∀ credentialDepth countryLookupSize shamirN shamirK (x : Kyc.Inputs),
      (∀ r s, Kyc.Constraints lib credentialDepth countryLookupSize shamirN shamirK
        { x with config := r } s →
        AgeHolds x.timestamp.val birth (minAgeOf r) (maxAgeOf r)) ↔
      ∀ r s, ¬ Kyc.Constraints lib credentialDepth countryLookupSize shamirN shamirK
        { x with config := r } s) := by
  refine ⟨?_, ?_, ?_, ?_⟩
  · intro _ _ _ x s h hbirth hts hfeb hh
    obtain ⟨hmin, hmax⟩ := h.range.bytes hh.range
    have hage := h.age
    have hhints := hh.age
    rw [hbirth] at hage hhints
    rw [hmin, hmax] at hhints
    exact hage.sound hlib hts (Nat.mod_lt _ (by norm_num)) (Nat.mod_lt _ (by norm_num))
      hfeb hhints
  · intro _ _ _ _ x s h hbirth hts hfeb hh
    obtain ⟨hmin, hmax⟩ := h.cfg.bytes hh.cfg
    have hage := h.age
    have hhints := hh.age
    rw [hbirth] at hage hhints
    rw [hmin, hmax] at hhints
    exact hage.sound hlib hts (Nat.mod_lt _ (by norm_num)) (Nat.mod_lt _ (by norm_num))
      hfeb hhints
  · intro _ _ _ x
    constructor
    · -- the same witness passes under an empty range, where no age holds
      intro hsound r s hs
      obtain ⟨s', hs'⟩ := hs.rerange hlib (voidRange 0 : F)
      have hholds := hsound _ s' hs'
      rw [(ageOf_voidRange (by norm_num)).1, (ageOf_voidRange (by norm_num)).2] at hholds
      exact not_ageHolds _ birth hholds
    · intro hnone r s hs
      exact absurd hs (hnone r s)
  · intro _ _ _ _ x
    constructor
    · intro hsound r s hs
      obtain ⟨c, hc, s', hs'⟩ := hs.reconfigure hlib
      have hholds := hsound _ s' hs'
      rw [(ageOf_voidRange hc).1, (ageOf_voidRange hc).2] at hholds
      exact not_ageHolds _ birth hholds
    · intro hnone r s hs
      exact absurd hs (hnone r s)

namespace AgeSample

/-! The credential disclosed to one trustee, at 1680000000. -/

def userPrivateKey : F := 424242424242424242424242

def userPublicKey : F × F :=
  (3883345574086778423382136191047781915434133647837746920974033956538081214035,
    3726480073064349964478915743576620564427443353964718905625052468251345407391)

def trusteePublicKey : F × F :=
  (4580408367964285453858057335196214460706765887587160248393543630417612108390,
    8531502816954714029587565321034372722264714346261977589901160346263474469930)

def sharedKey : F × F :=
  (5550699414321319125776381402752824689315571303166409354417244515973127711860,
    9808786983765412674503275692836598388788625985510737190137168757105370274239)

def secret : F :=
  13479827696065518159985239438198280969703231182077215485719530243183450069862

def salt : F :=
  3861384686407683123162831509965293626916880281022890438973557089695089580585

/-- The encryption of the date of birth under the secret. -/
def dataEnc : PoseidonEncrypt.Signals where
  strategies i j := [
    [6045454339715218784320339819472981071284716998451275973414701505298553030343,
    20400616534962649869364795967363716014506955789763955782571967060585768815970,
    4336096343346511089830570597406587008137289137358211339362680673247677553207,
    14480767094991987477981193690734602850637649075093910378149957797578127729604],
    [6303202790230584815299061562315904414942885547444788116043015506712667808373,
    6311632576480405331332358703533528283952414134990372385920127349902186653120,
    19875314641437655750561219836317581276010902766169645502767991781532008819195,
    3473371910953891561587688655506858577788066553445332597602615606080503868894]].getD i []
    |>.getD j 0
  ciphertext i := [20400616534962649869364795967363716014506955789763956019579279302197902392723,
    4336096343346511089830570597406587008137289137358211339362680673247677553207,
    14480767094991987477981193690734602850637649075093910378149957797578127729604,
    6311632576480405331332358703533528283952414134990372385920127349902186653120].getD i 0

/-- The encryption of the secret for the trustee. -/
def share : PoseidonEncrypt.Signals where
  strategies i j := [
    [13079508709598973666181929254558183509510890471281440439745990498327405536161,
    19758148863679650312364227961759691839614117195185443300184885939724701767650,
    15515873470216427448934419892854193974538404175396474825656274292297704670092,
    14246197021662794329404815295622362948607653082868236311640154071213716505695],
    [2468063572186039452204443819323671625431100961659708772143185885733866807447,
    18041778322570961958082419572292587943613176122264946807939973229136867567066,
    8527007589205585575144202755010311334334909020371300658184282965732124687789,
    6843994894738543233395955068854077766430440479526444523893507468891189260770]].getD i []
    |>.getD j 0
  ciphertext i := [11349733687905893250103061654700697720768983976846624442206211996332343341895,
    15515873470216427448934419892854193974538404175396474825656274292297704670092,
    14246197021662794329404815295622362948607653082868236311640154071213716505695,
    18041778322570961958082419572292587943613176122264946807939973229136867567066].getD i 0

def enc : EncryptionProof.Signals where
  salt := salt
  shamir := ⟨fun _ => 0, fun _ _ => secret, fun _ => secret⟩
  dataEnc := dataEnc
  ecdh _ := ⟨natBits userPrivateKey.val, sharedKey⟩
  share _ := share
  encryptedData := dataEnc.ciphertext
  encryptedShare _ := share.ciphertext

/-- The hashes and curve points of the disclosure. -/
def table : CryptoTable :=
  { SampleCredential.table with
    poseidon := [([userPrivateKey, SampleCredential.root, 1680000000], secret),
      ([userPrivateKey, 1680000000], salt)]
    poseidonEx := [
      ([secret, secret, 1680000000 + 1 * (2 ^ 128 : ℕ)], 0, PoseidonEncrypt.outs dataEnc 0),
      ([dataEnc.ciphertext 0, dataEnc.ciphertext 1, dataEnc.ciphertext 2],
        dataEnc.strategies 0 0, PoseidonEncrypt.outs dataEnc 1),
      ([sharedKey.1, sharedKey.2, 1680000000 + 1 * (2 ^ 128 : ℕ)], 0,
        PoseidonEncrypt.outs share 0),
      ([share.ciphertext 0, share.ciphertext 1, share.ciphertext 2],
        share.strategies 0 0, PoseidonEncrypt.outs share 1)]
    babyPbk := [(userPrivateKey, userPublicKey.1, userPublicKey.2)]
    escalarMulAny := [((List.range 253).map (natBits userPrivateKey.val),
      trusteePublicKey, sharedKey)] }

/-- The proof at the credential, for a range. -/
def inputs (ageRange : F) : AgeProof.Inputs where
  timestamp := 1680000000
  ageRange := ageRange
  birthDate := SampleCredential.birthDate
  metaValidUntil := SampleCredential.metaValidUntil
  credentialRoot := SampleCredential.root
  issuer := SampleCredential.issuer
  userPrivateKey := userPrivateKey
  trusteePublicKey _ := trusteePublicKey

/-- `2010-05-01`. -/
def birth : DateString where
  yyyy := [50, 48, 49, 48]
  mm := [48, 53]
  dd := [48, 49]
  yyyy_length := rfl
  mm_length := rfl
  dd_length := rfl
  yyyy_digits := by simp [IsDigit]
  mm_digits := by simp [IsDigit]
  dd_digits := by simp [IsDigit]
  valid := ⟨by decide, by decide, by decide, by decide⟩

theorem dataEnc_constraints : PoseidonEncrypt.Constraints (.reference table) 1
    (fun _ => SampleCredential.birthDate.value) 1680000000 (secret, secret) dataEnc where
  init := by
    show (_, _, _) ∈ table.poseidonEx
    decide +kernel
  release := by decide +kernel
  iterate := by
    show ∀ i < adjustToMultiple 1 3 / 3, (_, _, _) ∈ table.poseidonEx
    decide +kernel
  last := by decide +kernel

theorem share_constraints : PoseidonEncrypt.Constraints (.reference table) 1
    (fun _ => secret) 1680000000 sharedKey share where
  init := by
    show (_, _, _) ∈ table.poseidonEx
    decide +kernel
  release := by decide +kernel
  iterate := by
    show ∀ i < adjustToMultiple 1 3 / 3, (_, _, _) ∈ table.poseidonEx
    decide +kernel
  last := by decide +kernel

theorem enc_constraints : EncryptionProof.Constraints (.reference table) 1 1 1
    userPrivateKey (fun _ => trusteePublicKey) 1680000000 secret
    (fun _ => SampleCredential.birthDate.value) enc where
  salt := List.mem_cons_of_mem _ List.mem_cons_self
  shamir :=
    { parameterValidity := ⟨by decide +kernel, by decide +kernel⟩
      coefGen := fun i hi => absurd hi (Nat.not_lt_zero i)
      polynomial :=
        { head := fun _ _ => rfl
          step := fun _ _ i hi h1 => absurd hi (by omega)
          y := fun _ _ => rfl } }
  dataEnc := dataEnc_constraints
  encryptedData _ _ := rfl
  ecdh _ _ :=
    { privBits := ⟨isBits_natBits _ _, by
        show weighted 253 (natBits userPrivateKey.val) = userPrivateKey
        rw [weighted_eq (isBits_natBits _ _), bitsNat_natBits (by decide +kernel)]
        exact ZMod.natCast_zmod_val _⟩
      mulFix := List.mem_cons_self }
  share _ _ := share_constraints
  encryptedShare _ _ _ _ := rfl

/-- The proof is satisfiable, given its age part. -/
theorem exists_of_age {ageRange : F} {range : AgeRange.Signals} {age : AgeCheck.Signals}
    (hrange : AgeRange.Constraints (.reference table) ageRange range)
    (hage : AgeCheck.Constraints (.reference table)
      SampleCredential.birthDate.value age) :
    ∃ s, AgeProof.Constraints (.reference table) 5 1 1 (inputs ageRange) s ∧
      s.range = range ∧ s.age = age := by
  have hlib := Circomlib.reference_arithmetic table
  obtain ⟨e, he⟩ := ExpiryCheck.exists_constraints hlib
    (by decide +kernel : (1680000000 : F).val < 2 ^ 32)
    SampleCredential.metaValidUntil.value
  refine ⟨⟨enc.encryptedData, enc.encryptedShare, userPublicKey, e, secret, enc, range, age⟩,
    ⟨List.mem_cons_self, he, List.mem_cons_self,
      SampleCredential.mtp rfl (Or.inl rfl) ?_, List.mem_cons_self, enc_constraints, fun _ _ => rfl,
      fun _ _ _ _ => rfl, hrange,
      hage⟩, rfl, rfl⟩
  intro c hc
  rcases List.mem_cons.mp hc with rfl | hc
  · simp [inputs, SampleCredential.claims]
  · simp [inputs, SampleCredential.claims, List.mem_singleton.mp hc]

theorem birthDate_value : SampleCredential.birthDate.value = (beNat birth.bytes : F) := by
  decide +kernel

end AgeSample

/-- An honest prover of twelve proves an age of at least ten, and is. -/
theorem age_sound_honest_sample :
    ∃ s, AgeProof.Constraints (.reference AgeSample.table) 5 1 1 (AgeSample.inputs 10) s ∧
      AgeHolds 1680000000 AgeSample.birth 10 0 := by
  have hlib := Circomlib.reference_arithmetic AgeSample.table
  obtain ⟨range, hrange, hbits⟩ := AgeRange.exists_constraints hlib (10 : F)
  obtain ⟨hmin, hmax⟩ := hrange.bytes hbits
  have hmin10 : minAgeOf (10 : F) = 10 := by decide +kernel
  have hmax0 : maxAgeOf (10 : F) = 0 := by decide +kernel
  have hdate : timestampToDate (signed (1680000000 : F)) = some (2023, 3, 28) := by
    decide +kernel
  have hle : 0 < 10 → Calendar.dateNum (AgeSample.birth.year + 10) AgeSample.birth.month
      AgeSample.birth.day ≤ Calendar.dateNum 2023 3 28 := by decide +kernel
  obtain ⟨age, hage, hhints⟩ := AgeCheck.exists_honest hlib hdate (by norm_num)
    (by norm_num) (by norm_num) (by norm_num) (by norm_num : 0 < 256) hle
    (fun h => absurd h (lt_irrefl 0))
  rw [← AgeSample.birthDate_value] at hage hhints
  obtain ⟨s, hs, rfl, rfl⟩ := AgeSample.exists_of_age hrange hage
  rw [hmin10] at hmin
  rw [hmax0] at hmax
  have hsound := (age_sound_honest _ hlib AgeSample.birth).1 5 1 1 _ s hs
    AgeSample.birthDate_value (by decide +kernel)
    (fun h => absurd (hmax0 ▸ h) (lt_irrefl 0))
    ⟨hbits, by rw [hmin, hmax]; exact hhints⟩
  have hts : (AgeSample.inputs 10).timestamp.val = 1680000000 := by decide +kernel
  have hrange10 : (AgeSample.inputs 10).ageRange = 10 := rfl
  rw [hts, hrange10, hmin10, hmax0] at hsound
  exact ⟨s, hs, hsound⟩

/-- **A CHILD OF TWELVE PROVES AN AGE OF EIGHTEEN.** -/
theorem age_sound_fails :
    (∃ s, AgeProof.Constraints (.reference AgeSample.table) 5 1 1 (AgeSample.inputs 18) s) ∧
    (AgeSample.inputs 18).birthDate.value = (beNat AgeSample.birth.bytes : F) ∧
    minAgeOf (AgeSample.inputs 18).ageRange = 18 ∧
    maxAgeOf (AgeSample.inputs 18).ageRange = 0 ∧
    ¬ AgeHolds (AgeSample.inputs 18).timestamp.val AgeSample.birth 18 0 := by
  have hlib := Circomlib.reference_arithmetic AgeSample.table
  obtain ⟨range, hrange, -⟩ := AgeRange.exists_constraints hlib (18 : F)
  obtain ⟨age, hage⟩ := AgeCheck.exists_constraints hlib SampleCredential.birthDate.value
  obtain ⟨s, hs, -⟩ := AgeSample.exists_of_age hrange hage
  exact ⟨⟨s, hs⟩, AgeSample.birthDate_value, by decide +kernel, by decide +kernel,
    by decide +kernel⟩

end Albus.Circuits
