import Albus.Circuits.Country
import Albus.Core.ByteCodecs
import Albus.Prime

/-! # Country codes on their way into the circuit

    `countryLookup` of `circuits/src/utils.ts` writes up to sixteen two-letter codes
    into 32 bytes.  They become one public input, through the value of a policy rule
    or through `bytesToBigInt`, and `CountryLookup(1)` takes the field element apart
    again, last code first.

    Sixteen codes fill all 256 bits.  The first letter then alone puts the number
    past the modulus, whatever the codes are, and what the circuit takes apart is the
    number less the modulus: its first digit is no code at all. -/

namespace Albus.Sdk

open Albus.Lib
open Albus.Circuits (Circomlib CanonicalBits bin2Num codeOf)
open Albus.Core.FfUtils (beBuff2int beBuff2int_eq)
open Albus.Core.Utils (bytesToBigInt bytesToBigInt_eq)

/-! ## Packing -/

/-- `TextEncoder.encode`. -/
def encode (code : String) : List UInt8 := code.toUTF8.data.toList

/-- `countryLookup`. -/
def countryLookup (iso2Codes : List String) : Except String (List UInt8) :=
  if 16 < iso2Codes.length then .error "countryLookup cannot have more than 16 codes"
  else .ok (iso2Codes.foldl (fun acc code => acc ++ encode code) [])

/-- The raw bytes of a rule, in `preparePolicyRules`: written into 32 bytes, and
    those turned round. -/
def rawRuleValue (value : List UInt8) : Except String (List UInt8) :=
  if 32 < value.length then .error "offset is out of bounds"
  else .ok (value ++ List.replicate (32 - value.length) 0).reverse

/-- The input from a policy rule that is given the codes last byte first. -/
def ruleInput (iso2Codes : List String) : Except String ℤ := do
  let bytes ← countryLookup iso2Codes
  let value ← rawRuleValue bytes.reverse
  return beBuff2int value

/-- The input as `bytesToBigInt` packs it. -/
def bigIntInput (iso2Codes : List String) : Except String ℤ := do
  let bytes ← countryLookup iso2Codes
  bytesToBigInt bytes

/-- Two upper-case letters. -/
def IsIso2 (code : String) : Prop :=
  ∃ a b : Char, code = String.ofList [a, b] ∧ a.isUpper ∧ b.isUpper

/-- A code as a number, two bytes big-endian. -/
def codeNum (code : String) : ℕ := beNat (encode code)

/-- What `CountryLookup(1)` makes of an input with its canonical bits: the outputs
    that are not zero are the codes. -/
def UnpacksTo (lib : Circomlib) (input : F) (iso2Codes : List String) : Prop :=
  (∃ s, Circuits.CountryLookup.Constraints lib 1 (fun _ => input) s ∧
    CanonicalBits input (s.bits 0)) ∧
  ∀ s, Circuits.CountryLookup.Constraints lib 1 (fun _ => input) s →
    CanonicalBits input (s.bits 0) →
    List.Perm (((List.range 16).map s.out).filter (· ≠ 0))
      (iso2Codes.map fun code => (codeNum code : F))

/-- A packing that succeeds, and the field element unpacks to the codes. -/
def Lossless (lib : Circomlib) (packed : Except String ℤ) (iso2Codes : List String) : Prop :=
  ∃ n : ℤ, packed = .ok n ∧ UnpacksTo lib (n : F) iso2Codes

/-! ## The bytes of the codes -/

/-- An upper-case letter is one byte. -/
theorem utf8EncodeChar_upper {c : Char} (h : c.isUpper) :
    ∃ x : UInt8, String.utf8EncodeChar c = [x] ∧ 65 ≤ x.toNat ∧ x.toNat ≤ 90 := by
  have hlo : 65 ≤ c.val.toNat ∧ c.val.toNat ≤ 90 := by
    obtain ⟨hA, hZ⟩ : 'A'.val ≤ c.val ∧ c.val ≤ 'Z'.val := of_decide_eq_true h
    exact ⟨UInt32.le_iff_toNat_le.mp hA, UInt32.le_iff_toNat_le.mp hZ⟩
  refine ⟨UInt8.ofNat c.val.toNat, ?_, ?_⟩
  · show (if c.val.toNat ≤ 127 then _ else _) = _
    rw [if_pos (by omega)]
  · rw [UInt8.toNat_ofNat']
    omega

/-- A code is two bytes, and its number that of two letters. -/
theorem encode_iso2 {code : String} (h : IsIso2 code) :
    (encode code).length = 2 ∧ 0x4141 ≤ codeNum code ∧ codeNum code ≤ 0x5a5a := by
  obtain ⟨a, b, rfl, ha, hb⟩ := h
  obtain ⟨x, hx, hxlo, hxhi⟩ := utf8EncodeChar_upper ha
  obtain ⟨y, hy, hylo, hyhi⟩ := utf8EncodeChar_upper hb
  have hbytes : encode (String.ofList [a, b]) = [x, y] := by
    have hraw : encode (String.ofList [a, b])
        = String.utf8EncodeChar a ++ (String.utf8EncodeChar b ++ []) := by
      unfold encode
      rw [String.toUTF8, String.toByteArray_ofList, List.utf8Encode,
        List.toList_data_toByteArray]
      rfl
    rw [hraw, hx, hy]
    rfl
  have hnum : codeNum (String.ofList [a, b]) = x.toNat * 256 + y.toNat := by
    rw [codeNum, hbytes, show [x, y] = [x] ++ [y] from rfl, beNat_concat]
    simp [beNat]
  rw [hbytes, hnum]
  exact ⟨rfl, by omega, by omega⟩

/-- The bytes `countryLookup` collects. -/
def lookupBytes (iso2Codes : List String) : List UInt8 := iso2Codes.flatMap encode

theorem countryLookup_of_le {iso2Codes : List String} (h : iso2Codes.length ≤ 16) :
    countryLookup iso2Codes = .ok (lookupBytes iso2Codes) := by
  rw [countryLookup, if_neg (by omega)]
  refine congrArg Except.ok ?_
  unfold lookupBytes
  rw [List.flatMap_eq_foldl]

theorem length_lookupBytes {iso2Codes : List String} (h : ∀ code ∈ iso2Codes, IsIso2 code) :
    (lookupBytes iso2Codes).length = 2 * iso2Codes.length := by
  induction iso2Codes with
  | nil => rfl
  | cons code rest ih =>
      have hcode := (encode_iso2 (h code List.mem_cons_self)).1
      have hrest := ih (fun c hc => h c (List.mem_cons_of_mem _ hc))
      show (encode code ++ lookupBytes rest).length = 2 * (rest.length + 1)
      rw [List.length_append, hcode, hrest]
      omega

/-- The number of the bytes has the codes for its digits in base `2 ^ 16`, the last
    code least significant. -/
theorem beNat_lookupBytes {iso2Codes : List String} (h : ∀ code ∈ iso2Codes, IsIso2 code) :
    beNat (lookupBytes iso2Codes) = Nat.ofDigits (2 ^ 16) (iso2Codes.map codeNum).reverse := by
  induction iso2Codes using List.reverseRecOn with
  | nil => rfl
  | append_singleton rest code ih =>
      have hcode := (encode_iso2 (h code (List.mem_append_right _ List.mem_cons_self))).1
      have hrest := ih (fun c hc => h c (List.mem_append_left _ hc))
      have hbytes : lookupBytes (rest ++ [code]) = lookupBytes rest ++ encode code := by
        unfold lookupBytes
        rw [List.flatMap_append, List.flatMap_singleton]
      rw [hbytes, beNat_append, hcode, hrest, List.map_append, List.reverse_append]
      show _ = Nat.ofDigits (2 ^ 16) (codeNum code :: (rest.map codeNum).reverse)
      rw [Nat.ofDigits_cons]
      show _ * 256 ^ 2 + codeNum code = codeNum code + 2 ^ 16 * _
      ring

/-- Both packings are the number of the bytes. -/
theorem ruleInput_eq {iso2Codes : List String} (h : ∀ code ∈ iso2Codes, IsIso2 code)
    (hlen : iso2Codes.length ≤ 16) :
    ruleInput iso2Codes = .ok (beNat (lookupBytes iso2Codes) : ℤ) := by
  have h32 : ¬ 32 < (lookupBytes iso2Codes).reverse.length := by
    rw [List.length_reverse, length_lookupBytes h]
    omega
  rw [ruleInput, countryLookup_of_le hlen]
  show (rawRuleValue (lookupBytes iso2Codes).reverse >>= fun value => _) = _
  rw [rawRuleValue, if_neg h32]
  show Except.ok (beBuff2int _) = _
  rw [beBuff2int_eq, ← leNat_reverse, List.reverse_reverse, leNat_append, leNat_reverse]
  have hzero : ∀ k, leNat (List.replicate k 0) = 0 := by
    intro k
    induction k with
    | zero => rfl
    | succ k ih => rw [List.replicate_succ, leNat_cons, ih]; rfl
  rw [hzero, Nat.mul_zero, Nat.add_zero]

theorem bigIntInput_eq {iso2Codes : List String} (hne : lookupBytes iso2Codes ≠ [])
    (hlen : iso2Codes.length ≤ 16) :
    bigIntInput iso2Codes = .ok (beNat (lookupBytes iso2Codes) : ℤ) := by
  rw [bigIntInput, countryLookup_of_le hlen]
  exact bytesToBigInt_eq hne

/-! ## What the circuit unpacks -/

/-- With canonical bits the outputs are the digits of the input. -/
theorem unpacksTo_iff {lib : Circomlib} (hlib : lib.Arithmetic) (input : F)
    (iso2Codes : List String) :
    UnpacksTo lib input iso2Codes ↔
      List.Perm (((List.range 16).map (codeOf input.val)).filter (· ≠ 0))
        (iso2Codes.map fun code => (codeNum code : F)) := by
  have hout : ∀ s, Circuits.CountryLookup.Constraints lib 1 (fun _ => input) s →
      CanonicalBits input (s.bits 0) →
      (List.range 16).map s.out = (List.range 16).map (codeOf input.val) := by
    intro s hs hbits
    refine List.map_congr_left ?_
    intro j hj
    have hj16 : j < 16 := List.mem_range.mp hj
    have hdigit := hs.out 0 Nat.one_pos j hj16
    rw [Nat.zero_mul, Nat.zero_add] at hdigit
    rw [hdigit]
    exact Circuits.bin2Num_canonical hbits (by omega)
  constructor
  · rintro ⟨⟨s, hs, hbits⟩, hall⟩
    rw [← hout s hs hbits]
    exact hall s hs hbits
  · intro hperm
    constructor
    · -- the honest prover's signals
      refine ⟨⟨fun _ => natBits input.val,
        fun k => bin2Num 16 (k % 16 * 16) (natBits input.val)⟩, ⟨?_, ?_⟩, ?_⟩
      · intro i _
        exact Circuits.num2Bits_natBits hlib input
      · intro i _ j hj
        show bin2Num 16 ((i * 16 + j) % 16 * 16) _ = _
        rw [show (i * 16 + j) % 16 = j by omega]
      · intro i _
        rfl
    · intro s hs hbits
      rw [hout s hs hbits]
      exact hperm

/-- A list of digits, read at its places and past them. -/
theorem map_range_getD {l : List ℕ} {n : ℕ} (h : l.length ≤ n) :
    (List.range n).map (fun j => l.getD j 0) = l ++ List.replicate (n - l.length) 0 := by
  refine List.ext_getElem ?_ ?_
  · rw [List.length_map, List.length_range, List.length_append, List.length_replicate]
    omega
  · intro j hj _
    rw [List.getElem_map, List.getElem_range, List.getElem_append, List.getD_eq_getElem?_getD]
    split
    case isTrue hlt => rw [List.getElem?_eq_getElem hlt, Option.getD_some]
    case isFalse hge =>
      rw [List.getElem?_eq_none (Nat.le_of_not_lt hge), List.getElem_replicate]
      rfl

/-- The digits of a number that is written in digits. -/
theorem codeOf_ofDigits {l : List ℕ} (hlt : ∀ c ∈ l, c < 2 ^ 16) (hpos : ∀ c ∈ l, c ≠ 0)
    (j : ℕ) : codeOf (Nat.ofDigits (2 ^ 16) l) j = (l.getD j 0 : F) := by
  have hdigits : Nat.digits (2 ^ 16) (Nat.ofDigits (2 ^ 16) l) = l :=
    Nat.digits_ofDigits _ (by norm_num) l hlt (fun hne => hpos _ (List.getLast_mem hne))
  have hget := Nat.getD_digits (Nat.ofDigits (2 ^ 16) l) j (b := 2 ^ 16) (by norm_num)
  rw [hdigits] at hget
  rw [codeOf, hget, ← pow_mul, Nat.mul_comm j 16]

/-- A code is not zero in the field. -/
theorem codeNum_ne_zero {code : String} (h : IsIso2 code) : (codeNum code : F) ≠ 0 := by
  obtain ⟨-, hlo, hhi⟩ := encode_iso2 h
  intro hzero
  have hval := ZMod.val_natCast_of_lt
    (lt_trans (show codeNum code < 2 ^ 252 by omega) two_pow_252_lt)
  rw [hzero, ZMod.val_zero] at hval
  omega

/-- **THE DIGITS THAT ARE NOT ZERO ARE THE CODES, LAST ONE FIRST**, as long as there
    are sixteen at most. -/
theorem nonzero_digits {iso2Codes : List String} (h : ∀ code ∈ iso2Codes, IsIso2 code)
    (hlen : iso2Codes.length ≤ 16) :
    ((List.range 16).map (codeOf (beNat (lookupBytes iso2Codes)))).filter (· ≠ 0)
      = (iso2Codes.map fun code => (codeNum code : F)).reverse := by
  have hmem : ∀ c ∈ (iso2Codes.map codeNum).reverse, ∃ code, IsIso2 code ∧ codeNum code = c := by
    intro c hc
    obtain ⟨code, hcode, heq⟩ := List.mem_map.mp (List.mem_reverse.mp hc)
    exact ⟨code, h code hcode, heq⟩
  have hlt : ∀ c ∈ (iso2Codes.map codeNum).reverse, c < 2 ^ 16 := by
    intro c hc
    obtain ⟨code, hcode, rfl⟩ := hmem c hc
    have := (encode_iso2 hcode).2.2
    omega
  have hpos : ∀ c ∈ (iso2Codes.map codeNum).reverse, c ≠ 0 := by
    intro c hc
    obtain ⟨code, hcode, rfl⟩ := hmem c hc
    have := (encode_iso2 hcode).2.1
    omega
  have hdigits : (List.range 16).map (codeOf (beNat (lookupBytes iso2Codes)))
      = ((List.range 16).map fun j => (iso2Codes.map codeNum).reverse.getD j 0).map
          (fun c : ℕ => (c : F)) := by
    rw [beNat_lookupBytes h, List.map_map]
    refine List.map_congr_left ?_
    intro j _
    exact codeOf_ofDigits hlt hpos j
  have hlen' : (iso2Codes.map codeNum).reverse.length ≤ 16 := by
    rw [List.length_reverse, List.length_map]
    exact hlen
  rw [hdigits, map_range_getD hlen', List.map_append, List.filter_append]
  -- the codes stay, the zeros go
  have hcodes : (((iso2Codes.map codeNum).reverse.map fun c : ℕ => (c : F)).filter (· ≠ 0))
      = (iso2Codes.map codeNum).reverse.map fun c : ℕ => (c : F) := by
    refine List.filter_eq_self.mpr ?_
    intro x hx
    obtain ⟨c, hc, rfl⟩ := List.mem_map.mp hx
    obtain ⟨code, hcode, rfl⟩ := hmem c hc
    exact decide_eq_true (codeNum_ne_zero hcode)
  have hzeros : ∀ k, (((List.replicate k 0).map fun c : ℕ => (c : F)).filter (· ≠ 0)) = [] := by
    intro k
    refine List.filter_eq_nil_iff.mpr ?_
    intro x hx
    obtain ⟨c, hc, rfl⟩ := List.mem_map.mp hx
    rw [List.eq_of_mem_replicate hc]
    simp
  rw [hcodes, hzeros, List.append_nil, List.map_reverse, List.map_map]
  rfl

/-- Fifteen codes stay below the modulus. -/
theorem unpacks_of_lt {lib : Circomlib} (hlib : lib.Arithmetic) {iso2Codes : List String}
    (h : ∀ code ∈ iso2Codes, IsIso2 code) (hlen : iso2Codes.length ≤ 15) :
    UnpacksTo lib (beNat (lookupBytes iso2Codes) : F) iso2Codes := by
  have hlt : beNat (lookupBytes iso2Codes) < 2 ^ 252 := by
    have hbytes := beNat_lt (lookupBytes iso2Codes)
    rw [length_lookupBytes h] at hbytes
    calc beNat (lookupBytes iso2Codes) < 256 ^ (2 * iso2Codes.length) := hbytes
      _ ≤ 256 ^ 30 := Nat.pow_le_pow_right (by norm_num) (by omega)
      _ ≤ 2 ^ 252 := by norm_num
  have hval := ZMod.val_natCast_of_lt (lt_trans hlt two_pow_252_lt)
  refine (unpacksTo_iff hlib _ iso2Codes).mpr ?_
  rw [hval, nonzero_digits h (by omega)]
  exact List.reverse_perm _

/-- Of sixteen codes the first leaves a digit that is neither zero nor a code. -/
theorem not_unpacks_sixteen {lib : Circomlib} (hlib : lib.Arithmetic)
    {iso2Codes : List String} (h : ∀ code ∈ iso2Codes, IsIso2 code)
    (hlen : iso2Codes.length = 16) :
    ¬ UnpacksTo lib (beNat (lookupBytes iso2Codes) : F) iso2Codes := by
  intro hunpacks
  have hperm := (unpacksTo_iff hlib _ iso2Codes).mp hunpacks
  -- the word lies between the modulus and its double
  obtain ⟨hlo, hhi⟩ : 0x4141 * 2 ^ 240 ≤ beNat (lookupBytes iso2Codes) ∧
      beNat (lookupBytes iso2Codes) < 0x5a5b * 2 ^ 240 := by
    cases iso2Codes with
    | nil => exact absurd hlen (by decide)
    | cons code rest =>
        obtain ⟨-, hclo, hchi⟩ := encode_iso2 (h code List.mem_cons_self)
        have hrest : (lookupBytes rest).length = 30 := by
          rw [length_lookupBytes (fun c hc => h c (List.mem_cons_of_mem _ hc))]
          rw [List.length_cons] at hlen
          omega
        have hword : beNat (lookupBytes (code :: rest))
            = codeNum code * 256 ^ 30 + beNat (lookupBytes rest) := by
          show beNat (encode code ++ lookupBytes rest) = _
          rw [beNat_append, hrest]
          rfl
        have hlow := beNat_lt (lookupBytes rest)
        rw [hrest] at hlow
        rw [hword]
        omega
  have hval : (beNat (lookupBytes iso2Codes) : F).val
      = beNat (lookupBytes iso2Codes) - bn254r := by
    have hmod : beNat (lookupBytes iso2Codes) % bn254r
        = beNat (lookupBytes iso2Codes) - bn254r := by
      unfold bn254r
      omega
    rw [ZMod.val_natCast, hmod]
  obtain ⟨top, htop⟩ : ∃ top, (beNat (lookupBytes iso2Codes) - bn254r) / 2 ^ (15 * 16) = top :=
    ⟨_, rfl⟩
  have htopLo : 0x10dc ≤ top := by
    rw [← htop]
    refine (Nat.le_div_iff_mul_le (by norm_num)).mpr ?_
    unfold bn254r
    omega
  have htopHi : top < 0x29f7 := by
    rw [← htop]
    refine (Nat.div_lt_iff_lt_mul (by norm_num)).mpr ?_
    unfold bn254r
    omega
  have hdigit : codeOf (beNat (lookupBytes iso2Codes) : F).val 15 = (top : F) := by
    rw [codeOf, hval, htop, Nat.mod_eq_of_lt (by omega)]
  have hcast : ∀ n : ℕ, n < 2 ^ 16 → (n : F).val = n := fun n hn =>
    ZMod.val_natCast_of_lt (lt_trans (lt_trans hn (by norm_num)) two_pow_252_lt)
  have hmem : (top : F) ∈ ((List.range 16).map
      (codeOf (beNat (lookupBytes iso2Codes) : F).val)).filter (· ≠ 0) := by
    refine List.mem_filter.mpr ⟨?_, ?_⟩
    · rw [← hdigit]
      exact List.mem_map_of_mem (List.mem_range.mpr (by norm_num))
    · refine decide_eq_true ?_
      intro hzero
      have hval0 := hcast top (by omega)
      rw [hzero, ZMod.val_zero] at hval0
      omega
  obtain ⟨code, hcode, heq⟩ := List.mem_map.mp (hperm.mem_iff.mp hmem)
  obtain ⟨-, hclo, hchi⟩ := encode_iso2 (h code hcode)
  have hsame := congrArg ZMod.val heq
  rw [hcast _ (by omega), hcast _ (by omega)] at hsame
  omega

/-! ## Which lists survive -/

/-- A packed number is the field element of its residue. -/
theorem lossless_ok_iff (lib : Circomlib) (n : ℕ) (iso2Codes : List String) :
    Lossless lib (.ok (n : ℤ)) iso2Codes ↔ UnpacksTo lib (n : F) iso2Codes := by
  constructor
  · rintro ⟨m, hm, hunpacks⟩
    have heq : (n : ℤ) = m := Except.ok.inj hm
    rw [← heq, Int.cast_natCast] at hunpacks
    exact hunpacks
  · intro hunpacks
    refine ⟨n, rfl, ?_⟩
    rw [Int.cast_natCast]
    exact hunpacks

theorem unpacks_iff_lt {lib : Circomlib} (hlib : lib.Arithmetic) {iso2Codes : List String}
    (h : ∀ code ∈ iso2Codes, IsIso2 code) (hlen : iso2Codes.length ≤ 16) :
    UnpacksTo lib (beNat (lookupBytes iso2Codes) : F) iso2Codes ↔ iso2Codes.length < 16 := by
  constructor
  · intro hunpacks
    by_contra hge
    exact not_unpacks_sixteen hlib h (by omega) hunpacks
  · intro hlt
    exact unpacks_of_lt hlib h (by omega)

/-- **THE LOOKUP IS LOSSLESS UP TO FIFTEEN CODES.**  Both packings lose every list of
    sixteen, and `bytesToBigInt` does not take the empty one. -/
theorem lookup_lossless_iff (lib : Circomlib) (hlib : lib.Arithmetic)
    (iso2Codes : List String) (h : ∀ code ∈ iso2Codes, IsIso2 code)
    (hlen : iso2Codes.length ≤ 16) :
    (Lossless lib (ruleInput iso2Codes) iso2Codes ↔ iso2Codes.length < 16) ∧
    (Lossless lib (bigIntInput iso2Codes) iso2Codes ↔
      iso2Codes ≠ [] ∧ iso2Codes.length < 16) := by
  constructor
  · rw [ruleInput_eq h hlen, lossless_ok_iff]
    exact unpacks_iff_lt hlib h hlen
  · by_cases hnil : iso2Codes = []
    · subst hnil
      constructor
      · rintro ⟨n, hn, -⟩
        exact nomatch hn
      · rintro ⟨hne, -⟩
        exact absurd rfl hne
    · have hne : lookupBytes iso2Codes ≠ [] := by
        intro hbytes
        have hbytesLen := length_lookupBytes h
        have hpos := List.length_pos_iff.mpr hnil
        rw [hbytes, List.length_nil] at hbytesLen
        omega
      rw [bigIntInput_eq hne hlen, lossless_ok_iff, unpacks_iff_lt hlib h hlen]
      exact ⟨fun hlt => ⟨hnil, hlt⟩, fun hlt => hlt.2⟩

theorem isIso2_ua : IsIso2 "UA" := ⟨'U', 'A', rfl, rfl, rfl⟩

/-- One code goes through. -/
theorem lookup_lossless_ua :
    Lossless (.reference .empty) (ruleInput ["UA"]) ["UA"] ∧
      Lossless (.reference .empty) (bigIntInput ["UA"]) ["UA"] := by
  have h : ∀ code ∈ ["UA"], IsIso2 code := by
    intro code hcode
    rw [List.mem_singleton.mp hcode]
    exact isIso2_ua
  obtain ⟨hrule, hbig⟩ := lookup_lossless_iff (.reference .empty)
    (Circomlib.reference_arithmetic _) ["UA"] h (by decide)
  exact ⟨hrule.mpr (by decide), hbig.mpr ⟨by decide, by decide⟩⟩

/-- Sixteen codes are lost on both ways in. -/
theorem lookup_sixteen_fails :
    (∀ code ∈ List.replicate 16 "UA", IsIso2 code) ∧
    ¬ Lossless (.reference .empty) (ruleInput (List.replicate 16 "UA"))
      (List.replicate 16 "UA") ∧
    ¬ Lossless (.reference .empty) (bigIntInput (List.replicate 16 "UA"))
      (List.replicate 16 "UA") := by
  have h : ∀ code ∈ List.replicate 16 "UA", IsIso2 code := by
    intro code hcode
    rw [List.eq_of_mem_replicate hcode]
    exact isIso2_ua
  have hlost := not_unpacks_sixteen (Circomlib.reference_arithmetic .empty) h rfl
  have hne : lookupBytes (List.replicate 16 "UA") ≠ [] := by
    intro hbytes
    have hlen := length_lookupBytes h
    rw [hbytes] at hlen
    exact absurd hlen (by decide)
  refine ⟨h, ?_, ?_⟩
  · rw [ruleInput_eq h (by decide), lossless_ok_iff]
    exact hlost
  · rw [bigIntInput_eq hne (by decide), lossless_ok_iff]
    exact hlost

end Albus.Sdk
