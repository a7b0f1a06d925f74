import Albus.Core.ClaimEncoding

/-! # Reading claim values back

    `ClaimsTree.decodeValue` writes the value in as few bytes as it takes and reads
    these as UTF-8.  A NUL at the front of a text is not among them, unless the text
    is that NUL; a value that was reduced is another number, and what is read of it
    another text. -/

namespace Albus.Core

open Albus.Lib
open ClaimsTree (element)

/-! ## decodeValue -/

/-- `decodeValue`; `decode` is `bytesToString`, the characters that bytes are read
    as. -/
def ClaimsTree.decodeValue (decode : List UInt8 → List Char) (value : ℕ) :
    Except String String :=
  (Utils.bigintToBytes value 0).map fun bytes => String.ofList (decode bytes)

/-- The characters without the NULs they begin with, one character at least. -/
def canonChars : List Char → List Char
  | c :: d :: rest => if c = '\x00' then canonChars (d :: rest) else c :: d :: rest
  | cs => cs

/-- Only NUL is written with a zero. -/
theorem eq_nul_of_encode {c : Char} {rest : List UInt8}
    (h : String.utf8EncodeChar c = 0 :: rest) : c = '\x00' := by
  have hnul : String.utf8EncodeChar '\x00' = [0] := rfl
  have hfirst := firstChar_append_self c []
  rw [List.append_nil, h, show (0 : UInt8) :: rest = [0] ++ rest from rfl, ← hnul,
    firstChar_append_self] at hfirst
  exact (Option.some.inj hfirst).symm

theorem canon_cons_zero {bytes : List UInt8} (h : bytes ≠ []) :
    canon (0 :: bytes) = canon bytes := by
  obtain ⟨y, rest, rfl⟩ := List.exists_cons_of_ne_nil h
  rw [canon, if_pos rfl]

/-- The canonical bytes of a text are a text. -/
theorem canon_utf8Bytes (cs : List Char) : canon (utf8Bytes cs) = utf8Bytes (canonChars cs) := by
  fun_induction canonChars cs with
  | case1 d rest ih =>
      have hne : utf8Bytes (d :: rest) ≠ [] := fun h =>
        List.cons_ne_nil d rest (utf8Bytes_eq_nil.mp h)
      rw [← ih]
      exact canon_cons_zero hne
  | case2 c d rest hc =>
      obtain ⟨x, tail, hx⟩ := List.exists_cons_of_ne_nil (utf8EncodeChar_ne_nil c)
      refine canon_of_isCanonical (Or.inr ⟨x, ?_, ?_⟩)
      · rw [utf8Bytes_cons, hx]
        rfl
      · rintro rfl
        exact hc (eq_nul_of_encode hx)
  | case3 cs hne =>
      cases cs with
      | nil => rfl
      | cons c rest =>
          cases rest with
          | nil =>
              obtain ⟨x, tail, hx⟩ := List.exists_cons_of_ne_nil (utf8EncodeChar_ne_nil c)
              refine canon_of_isCanonical ?_
              rw [utf8Bytes_cons, utf8Bytes_nil, List.append_nil, hx]
              by_cases h0 : x = 0
              · -- the text is one NUL
                subst h0
                have hc := eq_nul_of_encode hx
                subst hc
                have hnul : String.utf8EncodeChar '\x00' = [0] := rfl
                rw [hnul] at hx
                exact Or.inl (by rw [← hx]; rfl)
              · exact Or.inr ⟨x, rfl, h0⟩
          | cons d rest => exact absurd rfl (hne c d rest)

/-- A text that does not begin with a NUL, or is one. -/
def Leads (text : String) : Prop := text = "\x00" ∨ text.toList.head? ≠ some '\x00'

theorem canonChars_eq_iff (text : String) : canonChars text.toList = text.toList ↔ Leads text := by
  have hlen : ∀ cs : List Char, (canonChars cs).length ≤ cs.length := by
    intro cs
    fun_induction canonChars cs with
    | case1 d rest ih => exact Nat.le_succ_of_le ih
    | case2 c d rest hc => exact Nat.le_refl _
    | case3 cs hne => exact Nat.le_refl _
  have hone : text = "\x00" ↔ text.toList = ['\x00'] := by
    constructor
    · rintro rfl
      rfl
    · intro h
      exact String.toList_inj.mp h
  unfold Leads
  rw [hone]
  cases text.toList with
  | nil => simp [canonChars]
  | cons c rest =>
      cases rest with
      | nil =>
          -- one character is kept, whichever it is
          by_cases hc : c = '\x00'
          · simp [canonChars, hc]
          · simp [canonChars, hc]
      | cons d rest =>
          by_cases hc : c = '\x00'
          · subst hc
            have hle := hlen (d :: rest)
            rw [canonChars, if_pos rfl]
            constructor
            · intro heq
              rw [heq] at hle
              exact absurd hle (Nat.not_succ_le_self _)
            · rintro (heq | hne)
              · exact nomatch heq
              · exact absurd rfl hne
          · rw [canonChars, if_neg hc]
            simp [hc]

/-- The end of bytes is a remainder of their number. -/
theorem beNat_mod_of_suffix {e b : List UInt8} (h : e <:+ b) :
    beNat b % 256 ^ e.length = beNat e := by
  obtain ⟨pre, rfl⟩ := h
  rw [beNat_append, Nat.add_comm, Nat.mul_comm, Nat.add_mul_mod_self_left,
    Nat.mod_eq_of_lt (beNat_lt e)]

/-- The replacement character and the few before it are three bytes that differ in
    the last one. -/
theorem replacement_bytes {k : ℕ} (h : k ≤ 5) : ∃ c : Char,
    (0 < k → c ≠ '\uFFFD') ∧ String.utf8EncodeChar c = [0xef, 0xbf, UInt8.ofNat (0xbd - k)] := by
  interval_cases k
  · exact ⟨'\uFFFD', fun h => absurd h (Nat.lt_irrefl 0), rfl⟩
  · exact ⟨'\uFFFC', fun _ => by decide, rfl⟩
  · exact ⟨'\uFFFB', fun _ => by decide, rfl⟩
  · exact ⟨'\uFFFA', fun _ => by decide, rfl⟩
  · exact ⟨'\uFFF9', fun _ => by decide, rfl⟩
  · exact ⟨'\uFFF8', fun _ => by decide, rfl⟩

theorem bn254r_mod_byte : bn254r % 256 = 1 := by decide

theorem bn254r_mod_three_bytes : bn254r % 256 ^ 3 = 1 := by decide

/-- **A REDUCED NUMBER IS NOT READ AS ITS TEXT**: the modulus ends in the byte 1, so
    the last byte is another, and no replacement makes up for it. -/
theorem decode_ne_of_reduced {decode : List UInt8 → List Char} (hdec : Utf8Decoder decode)
    {text : String} (hshort : IsShort text) {bytes : List UInt8} {k : ℕ} (hk : 0 < k)
    (hnum : beNat (textBytes text) = beNat bytes + k * bn254r) :
    decode bytes ≠ text.toList := by
  intro heq
  have hlt : beNat (textBytes text) < 2 ^ 256 := by
    have hb := beNat_lt (textBytes text)
    exact lt_of_lt_of_le hb (le_trans (Nat.pow_le_pow_right (by norm_num) hshort)
      (by norm_num))
  have hk5 : k ≤ 5 := by
    unfold bn254r at hnum
    omega
  have hne : text.toList ≠ [] := by
    intro hnil
    rw [textBytes, hnil, utf8Bytes_nil, beNat_nil] at hnum
    unfold bn254r at hnum
    omega
  obtain ⟨init, c, hlist⟩ : ∃ init c, text.toList = init ++ [c] :=
    ⟨_, _, (List.dropLast_append_getLast hne).symm⟩
  have hsuffix : String.utf8EncodeChar c <:+ textBytes text := by
    refine ⟨utf8Bytes init, ?_⟩
    rw [textBytes, hlist, utf8Bytes_append, utf8Bytes_cons, utf8Bytes_nil, List.append_nil]
  have hlast : (decode bytes).getLast? = some c := by
    rw [heq, hlist, List.getLast?_append, List.getLast?_singleton]
    rfl
  rcases hdec.last bytes c hlast with hrepl | hsuffix'
  · -- the last character is the replacement, written by a byte that is none
    subst hrepl
    have hmod := beNat_mod_of_suffix hsuffix
    have hfffd : String.utf8EncodeChar '\uFFFD' = [0xef, 0xbf, 0xbd] := rfl
    rw [hfffd] at hmod
    have hval : beNat [0xef, 0xbf, 0xbd] = 0xefbfbd := by decide
    rw [hval] at hmod
    have hmod' : beNat bytes % 256 ^ 3 = 0xefbfbd - k := by
      have h3 : beNat (textBytes text) % 256 ^ 3 = 0xefbfbd := hmod
      rw [hnum, Nat.add_mod, Nat.mul_mod, bn254r_mod_three_bytes] at h3
      omega
    obtain ⟨d, hd, hbytes⟩ := replacement_bytes hk5
    have hlen3 : 3 ≤ bytes.length := by
      by_contra hshort'
      have hb := beNat_lt bytes
      have hpow : 256 ^ bytes.length ≤ 256 ^ 2 := Nat.pow_le_pow_right (by norm_num) (by omega)
      omega
    have hdrop := beNat_drop bytes hlen3
    rw [hmod'] at hdrop
    have hdval : beNat (String.utf8EncodeChar d) = 0xefbfbd - k := by
      rw [hbytes]
      interval_cases k <;> decide
    have hend : bytes.drop (bytes.length - 3) = String.utf8EncodeChar d := by
      refine beNat_inj ?_ (hdrop.trans hdval.symm)
      rw [List.length_drop, hbytes]
      show _ = 3
      omega
    have hsplit := hdec.append (bytes.take (bytes.length - 3)) [d]
    rw [utf8Bytes_cons, utf8Bytes_nil, List.append_nil, ← hend, List.take_append_drop] at hsplit
    rw [hsplit, List.getLast?_append, List.getLast?_singleton] at hlast
    exact hd hk (Option.some.inj hlast)
  · have hmod := beNat_mod_of_suffix hsuffix
    have hmod' := beNat_mod_of_suffix hsuffix'
    have hpos := c.utf8Size_pos
    rw [← String.length_utf8EncodeChar] at hpos
    obtain ⟨n, hn⟩ : ∃ n, (String.utf8EncodeChar c).length = n + 1 :=
      ⟨_, (Nat.succ_pred_eq_of_pos hpos).symm⟩
    rw [hn] at hmod hmod'
    have hbyte : beNat (textBytes text) % 256 = beNat bytes % 256 := by
      have h1 := congrArg (· % 256) (hmod.trans hmod'.symm)
      simpa only [pow_succ, Nat.mod_mul_left_mod] using h1
    rw [hnum, Nat.add_mod, Nat.mul_mod, bn254r_mod_byte] at hbyte
    omega

/-- **THE ROUND TRIP OF A SHORT TEXT.** -/
theorem decodeValue_iff {decode : List UInt8 → List Char} (hdec : Utf8Decoder decode)
    (permute : List ℕ → ℕ) {text : String} (h : IsShort text) :
    (∃ v, element permute text = .ok v ∧ ClaimsTree.decodeValue decode v = .ok text) ↔
      text ≠ "" ∧ Leads text ∧ beNat (textBytes text) < bn254r := by
  by_cases hne : text = ""
  · subst hne
    constructor
    · rintro ⟨v, hv, -⟩
      rw [element_empty] at hv
      exact nomatch hv
    · rintro ⟨hne, -⟩
      exact absurd rfl hne
  · have hbytes : textBytes text ≠ [] := fun hnil => hne (textBytes_eq_nil.mp hnil)
    rw [element_short permute h hne]
    by_cases hlt : beNat (textBytes text) < bn254r
    · -- the number is kept, the NULs at the front are not
      have hdecode : ClaimsTree.decodeValue decode (beNat (textBytes text) % bn254r)
          = .ok (String.ofList (canonChars text.toList)) := by
        rw [Nat.mod_eq_of_lt hlt, ClaimsTree.decodeValue, bigintToBytes_beNat hbytes]
        show Except.ok (String.ofList (decode (canon (utf8Bytes text.toList)))) = _
        rw [canon_utf8Bytes, hdec.decode_utf8Bytes]
      rw [← canonChars_eq_iff]
      constructor
      · rintro ⟨v, hv, htext⟩
        rw [← Except.ok.inj hv, hdecode] at htext
        refine ⟨hne, ?_, hlt⟩
        rw [← String.toList_ofList (l := canonChars text.toList), Except.ok.inj htext]
      · rintro ⟨-, hcanon, -⟩
        refine ⟨_, rfl, ?_⟩
        rw [hdecode, hcanon, String.ofList_toList]
    · constructor
      · rintro ⟨v, hv, htext⟩
        exfalso
        obtain ⟨k, hk⟩ : ∃ k, beNat (textBytes text) / bn254r = k := ⟨_, rfl⟩
        have hkpos : 0 < k := by
          rw [← hk]
          exact Nat.div_pos (Nat.le_of_not_lt hlt) (by unfold bn254r; norm_num)
        obtain ⟨b, hb, hbval⟩ : ∃ b : List UInt8, b ≠ [] ∧
            beNat b = beNat (textBytes text) % bn254r := by
          refine ⟨beBytes 32 (beNat (textBytes text) % bn254r), ?_, ?_⟩
          · intro hnil
            have hlen := congrArg List.length hnil
            rw [length_beBytes] at hlen
            exact nomatch hlen
          · refine beNat_beBytes_of_lt (lt_trans (Nat.mod_lt _ ?_) ?_)
            · unfold bn254r
              norm_num
            · unfold bn254r
              norm_num
        rw [← Except.ok.inj hv, ← hbval, ClaimsTree.decodeValue, bigintToBytes_beNat hb] at htext
        have hchars : decode (canon b) = text.toList := by
          have hof : String.ofList (decode (canon b)) = text := Except.ok.inj htext
          rw [← hof, String.toList_ofList]
        refine decode_ne_of_reduced hdec h hkpos ?_ hchars
        rw [beNat_canon, hbval, ← hk, Nat.mul_comm]
        exact (Nat.mod_add_div _ _).symm
      · rintro ⟨-, -, hlt'⟩
        exact absurd hlt' hlt

/-! ## The claim encoding -/

/-- **THE CLAIM ENCODING, UP TO WHAT IT FORGETS.**  It fails on the empty text alone;
    two texts have different values if and only if neither is empty and they are not
    confused; a short text is read back if and only if it is not empty, has no NUL
    before another character and a number below the modulus. -/
theorem claim_encoding_iff (permute : List ℕ → ℕ) (decode : List UInt8 → List Char)
    (hdec : Utf8Decoder decode) :
    (∀ text, (∃ v, ClaimsTree.encodeValue permute text = .ok v) ↔ text ≠ "") ∧
    (∀ s t, s ≠ t → PoseidonFree permute s t →
      ((∃ v w, element permute s = .ok v ∧ element permute t = .ok w ∧ v ≠ w) ↔
        s ≠ "" ∧ t ≠ "" ∧ ¬ Confused permute s t)) ∧
    (∀ text, IsShort text →
      ((∃ v, element permute text = .ok v ∧ ClaimsTree.decodeValue decode v = .ok text) ↔
        text ≠ "" ∧ Leads text ∧ beNat (textBytes text) < bn254r)) := by
  refine ⟨exists_encodeValue_iff permute, ?_, fun text h => decodeValue_iff hdec permute h⟩
  intro s t _ hfree
  have helement : ∀ {text : String}, (∃ v, element permute text = .ok v) ↔ text ≠ "" := by
    intro text
    rw [← exists_encodeValue_iff permute text, element]
    cases ClaimsTree.encodeValue permute text with
    | error e =>
        constructor
        · rintro ⟨v, hv⟩
          cases hv
        · rintro ⟨v, hv⟩
          cases hv
    | ok v => exact ⟨fun _ => ⟨v, rfl⟩, fun _ => ⟨_, rfl⟩⟩
  constructor
  · rintro ⟨v, w, hv, hw, hne⟩
    have hs := helement.mp ⟨v, hv⟩
    have ht := helement.mp ⟨w, hw⟩
    refine ⟨hs, ht, ?_⟩
    rw [← element_eq_iff hfree hs ht, hv, hw]
    exact fun heq => hne (Except.ok.inj heq)
  · rintro ⟨hs, ht, hconf⟩
    obtain ⟨v, hv⟩ := helement.mpr hs
    obtain ⟨w, hw⟩ := helement.mpr ht
    refine ⟨v, w, hv, hw, ?_⟩
    rintro rfl
    exact hconf ((element_eq_iff hfree hs ht).mp (hv.trans hw.symm))

namespace EncodingSample

/-- A short text. -/
def short : String := "a"

/-- A text that is hashed. -/
def long : String := String.ofList (List.replicate 33 'a')

/-- Another one, of forty bytes. -/
def worker : String := "Albus claim encoding, worker 4.000480ac3"

/-- The thirty-two bytes whose number is the hash of `worker`. -/
def twin : String :=
  "YlR\u001d\u016eRu\u0004JAw3X>rBoS^=\u00164\u00ae~\u05ed\u00031v\u007f"

/-- Poseidon's rounds, on the one frame of each of the two long texts. -/
def permute (inputs : List ℕ) : ℕ :=
  if inputs = frame 16
      [0x61616161616161616161616161616161616161616161616161616161616161,
        0x61610000000000000000000000000000000000000000000000000000000000] then
    7957318867696226753436130385153923544623334815176778015742509122065030601867
  else if inputs = frame 16
      [0x416c62757320636c61696d20656e636f64696e672c20776f726b657220342e,
        0x30303034383061633300000000000000000000000000000000000000000000] then
    18558986880924622434568526856932584324472600830259376870104513766168965772926
  else 0

theorem isShort : IsShort short ∧ IsShort twin ∧ ¬ IsShort long ∧ ¬ IsShort worker := by
  decide +kernel

/-- A short text and one of a single frame make one call. -/
theorem poseidonFree {s t : String} (hs : IsShort s) (ht : ¬ IsShort t)
    (hone : (pieces (textBytes t)).drop 16 = []) : PoseidonFree permute s t := by
  have hcalls : ∃ call, hashed permute s ++ hashed permute t = [call] := by
    rw [hashed, if_pos hs, hashed, if_neg ht, spongeCalls, hone, List.nil_append]
    exact ⟨_, by rw [chainCalls]⟩
  obtain ⟨call, hcall⟩ := hcalls
  rw [PoseidonFree, hcall]
  intro x hx y hy _
  rw [List.mem_singleton.mp hx, List.mem_singleton.mp hy]

end EncodingSample

/-- A short text and a long one. -/
theorem claim_encoding_sample :
    (∃ v, ClaimsTree.encodeValue EncodingSample.permute EncodingSample.long = .ok v) ∧
    (∃ v w, element EncodingSample.permute EncodingSample.short = .ok v ∧
      element EncodingSample.permute EncodingSample.long = .ok w ∧ v ≠ w) ∧
    (∃ v, element EncodingSample.permute EncodingSample.short = .ok v ∧
      ClaimsTree.decodeValue (decodeFrom 0) v = .ok EncodingSample.short) := by
  obtain ⟨htotal, hdistinct, hback⟩ := claim_encoding_iff EncodingSample.permute (decodeFrom 0)
    utf8Decoder_decodeFrom
  obtain ⟨hshort, -, hlong, -⟩ := EncodingSample.isShort
  refine ⟨(htotal _).mpr (by decide), ?_, (hback _ hshort).mpr ⟨by decide, ?_, ?_⟩⟩
  · refine (hdistinct _ _ (by decide)
      (EncodingSample.poseidonFree hshort hlong (by decide +kernel))).mpr
      ⟨by decide, by decide, ?_⟩
    rintro (⟨-, hs, -⟩ | ⟨hl, -, -⟩ | ⟨-, -, hhash⟩ | ⟨hl, -, -⟩)
    · exact hlong hs
    · exact hl hshort
    · exact absurd hhash (by decide +kernel)
    · exact hl hshort
  · exact Or.inr (by decide)
  · decide +kernel

/-- The empty text is not encoded, a NUL at the front is lost, and the number of a text may be
    the hash of another one. -/
theorem claim_encoding_fails :
    (∀ permute, ClaimsTree.encodeValue permute "" = .error .syntaxError) ∧
    ("\x00a" ≠ "a" ∧ ∀ permute, element permute "\x00a" = element permute "a") ∧
    (EncodingSample.twin ≠ EncodingSample.worker ∧
      PoseidonFree EncodingSample.permute EncodingSample.twin EncodingSample.worker ∧
      element EncodingSample.permute EncodingSample.twin
        = element EncodingSample.permute EncodingSample.worker) := by
  obtain ⟨-, htwin, -, hworker⟩ := EncodingSample.isShort
  refine ⟨?_, ⟨by decide, ?_⟩, by decide +kernel,
    EncodingSample.poseidonFree htwin hworker (by decide +kernel), ?_⟩
  · intro permute
    rw [encodeValue_short permute isShort_empty]
    rfl
  · intro permute
    rw [element_short permute (by decide +kernel) (by decide),
      element_short permute (by decide +kernel) (by decide)]
    exact congrArg Except.ok (by decide +kernel)
  · exact (element_short_long htwin (by decide +kernel) hworker).mpr (by decide +kernel)

end Albus.Core
