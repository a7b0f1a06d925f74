import Mathlib.Data.List.Basic

/-! # UTF-8 texts as bytes

    A text is the bytes of its characters one after the other.  A decoder reads
    bytes that are no text too, and says what it cannot read with the replacement
    character U+FFFD; how many of these it writes differs between decoders, so a
    decoder is here what all of them do (`Utf8Decoder`).  `decodeFrom` is one. -/

namespace Albus.Lib

/-- The bytes of characters. -/
def utf8Bytes (cs : List Char) : List UInt8 := cs.flatMap String.utf8EncodeChar

@[simp] theorem utf8Bytes_nil : utf8Bytes [] = [] := rfl

theorem utf8Bytes_cons (c : Char) (cs : List Char) :
    utf8Bytes (c :: cs) = String.utf8EncodeChar c ++ utf8Bytes cs := rfl

theorem utf8Bytes_append (cs ds : List Char) :
    utf8Bytes (cs ++ ds) = utf8Bytes cs ++ utf8Bytes ds := List.flatMap_append

/-- The bytes of a string are those of its characters. -/
theorem toUTF8_eq_utf8Bytes (s : String) : s.toUTF8.data.toList = utf8Bytes s.toList := by
  conv_lhs => rw [← String.ofList_toList (s := s)]
  rw [String.toUTF8, String.toByteArray_ofList]
  exact List.toList_data_toByteArray

theorem utf8EncodeChar_ne_nil (c : Char) : String.utf8EncodeChar c ≠ [] := by
  intro h
  have hlen := String.length_utf8EncodeChar c
  rw [h] at hlen
  exact absurd hlen (Nat.ne_of_lt c.utf8Size_pos)

@[simp] theorem utf8Bytes_eq_nil {cs : List Char} : utf8Bytes cs = [] ↔ cs = [] := by
  cases cs with
  | nil => simp
  | cons c cs =>
      rw [utf8Bytes_cons, List.append_eq_nil_iff]
      exact ⟨fun h => absurd h.1 (utf8EncodeChar_ne_nil c), fun h => nomatch h⟩

/-- What a UTF-8 decoder does: a text behind any bytes is read as it is, and a
    character that is read last was written last, or stands for what could not be
    read. -/
structure Utf8Decoder (decode : List UInt8 → List Char) : Prop where
  nil : decode [] = []
  append : ∀ (b : List UInt8) (cs : List Char), decode (b ++ utf8Bytes cs) = decode b ++ cs
  last : ∀ (b : List UInt8) (c : Char), (decode b).getLast? = some c →
    c = '\uFFFD' ∨ String.utf8EncodeChar c <:+ b

/-- A text is read as it is. -/
theorem Utf8Decoder.decode_utf8Bytes {decode : List UInt8 → List Char} (h : Utf8Decoder decode)
    (cs : List Char) : decode (utf8Bytes cs) = cs := by
  have happ := h.append [] cs
  rw [List.nil_append, h.nil, List.nil_append] at happ
  exact happ

/-! ## A decoder -/

/-- The character that bytes begin with. -/
def firstChar (b : List UInt8) : Option Char := b.toByteArray.utf8DecodeChar? 0

/-- Reads characters, `skip` bytes of the current one still to pass; a byte that
    begins no character is replaced on its own. -/
def decodeFrom (skip : Nat) : List UInt8 → List Char
  | [] => []
  | x :: rest =>
      match skip with
      | skip + 1 => decodeFrom skip rest
      | 0 =>
          match firstChar (x :: rest) with
          | some c => c :: decodeFrom (c.utf8Size - 1) rest
          | none => '\uFFFD' :: decodeFrom 0 rest

theorem firstChar_append_self (c : Char) (b : List UInt8) :
    firstChar (String.utf8EncodeChar c ++ b) = some c := by
  rw [firstChar, List.toByteArray_append]
  exact ByteArray.utf8DecodeChar?_utf8EncodeChar_append

theorem prefix_of_firstChar {b : List UInt8} {c : Char} (h : firstChar b = some c) :
    String.utf8EncodeChar c <+: b := by
  have hbytes := String.toByteArray_utf8EncodeChar_of_utf8DecodeChar?_eq_some h
  have hlist : String.utf8EncodeChar c = b.take c.utf8Size := by
    have := congrArg (fun a => a.data.toList) hbytes
    simpa [ByteArray.data_extract, List.toList_data_toByteArray] using this
  rw [hlist]
  exact List.take_prefix _ _

/-- Only the first byte of a character can begin one. -/
theorem length_le_of_append_prefix {b : List UInt8} (hb : b ≠ []) {c d : Char}
    {rest : List UInt8}
    (h : String.utf8EncodeChar c <+: b ++ (String.utf8EncodeChar d ++ rest)) :
    (String.utf8EncodeChar c).length ≤ b.length := by
  by_contra hgt
  have hlt : b.length < (String.utf8EncodeChar c).length := Nat.lt_of_not_le hgt
  have hpos : 0 < (String.utf8EncodeChar d).length :=
    List.length_pos_iff.mpr (utf8EncodeChar_ne_nil d)
  have hget := h.getElem hlt
  rw [List.getElem_append_right (Nat.le_refl _)] at hget
  simp only [Nat.sub_self] at hget
  rw [List.getElem_append_left hpos] at hget
  have hfirst : (String.utf8EncodeChar d)[0].IsUTF8FirstByte :=
    UInt8.isUTF8FirstByte_getElem_utf8EncodeChar.mpr rfl
  rw [← hget] at hfirst
  exact hb (List.length_eq_zero_iff.mp
    (UInt8.isUTF8FirstByte_getElem_utf8EncodeChar.mp hfirst))

/-- A text behind bytes does not change what they begin with. -/
theorem firstChar_append_utf8Bytes {b : List UInt8} (hb : b ≠ []) (cs : List Char) :
    firstChar (b ++ utf8Bytes cs) = firstChar b := by
  cases hc : firstChar b with
  | some c =>
      obtain ⟨r, hr⟩ := prefix_of_firstChar hc
      rw [← hr, List.append_assoc]
      exact firstChar_append_self c _
  | none =>
      cases hc' : firstChar (b ++ utf8Bytes cs) with
      | none => rfl
      | some c =>
          have hpre := prefix_of_firstChar hc'
          -- the character would lie in `b`, where there is none
          have hle : (String.utf8EncodeChar c).length ≤ b.length := by
            cases cs with
            | nil =>
                rw [utf8Bytes_nil, List.append_nil] at hpre
                exact hpre.length_le
            | cons d ds =>
                rw [utf8Bytes_cons] at hpre
                exact length_le_of_append_prefix hb hpre
          obtain ⟨r, hr⟩ := List.prefix_of_prefix_length_le hpre (List.prefix_append b _) hle
          rw [← hr, firstChar_append_self] at hc
          exact nomatch hc

theorem decodeFrom_skip (l r : List UInt8) : decodeFrom l.length (l ++ r) = decodeFrom 0 r := by
  induction l with
  | nil => rfl
  | cons x l ih => exact ih

/-- The decoder reads a character. -/
theorem decodeFrom_char (c : Char) (r : List UInt8) :
    decodeFrom 0 (String.utf8EncodeChar c ++ r) = c :: decodeFrom 0 r := by
  have hfirst := firstChar_append_self c r
  have hlen := String.length_utf8EncodeChar c
  obtain ⟨x, l, hxl⟩ := List.exists_cons_of_ne_nil (utf8EncodeChar_ne_nil c)
  rw [hxl] at hlen hfirst ⊢
  have hskip : c.utf8Size - 1 = l.length := by
    rw [← hlen, List.length_cons]
    rfl
  show (match firstChar (x :: (l ++ r)) with
    | some c => c :: decodeFrom (c.utf8Size - 1) (l ++ r)
    | none => '\uFFFD' :: decodeFrom 0 (l ++ r)) = _
  rw [show firstChar (x :: (l ++ r)) = some c from hfirst]
  show c :: decodeFrom (c.utf8Size - 1) (l ++ r) = _
  rw [hskip, decodeFrom_skip]

theorem decodeFrom_utf8Bytes (cs : List Char) : decodeFrom 0 (utf8Bytes cs) = cs := by
  induction cs with
  | nil => rfl
  | cons c cs ih => rw [utf8Bytes_cons, decodeFrom_char, ih]

theorem decodeFrom_append (b : List UInt8) (cs : List Char) {skip : Nat}
    (h : skip ≤ b.length) :
    decodeFrom skip (b ++ utf8Bytes cs) = decodeFrom skip b ++ cs := by
  induction b generalizing skip with
  | nil =>
      have h0 : skip = 0 := Nat.le_zero.mp h
      rw [h0]
      exact decodeFrom_utf8Bytes cs
  | cons x rest ih =>
      cases skip with
      | succ skip => exact ih (Nat.le_of_succ_le_succ h)
      | zero =>
          have hfirst := firstChar_append_utf8Bytes (List.cons_ne_nil x rest) cs
          rw [List.cons_append] at hfirst ⊢
          rw [decodeFrom, decodeFrom, hfirst]
          cases hc : firstChar (x :: rest) with
          | none =>
              show '\uFFFD' :: decodeFrom 0 (rest ++ utf8Bytes cs) = _
              rw [ih (Nat.zero_le _)]
              rfl
          | some c =>
              have hle := (prefix_of_firstChar hc).length_le
              rw [String.length_utf8EncodeChar, List.length_cons] at hle
              show c :: decodeFrom (c.utf8Size - 1) (rest ++ utf8Bytes cs) = _
              rw [ih (Nat.sub_le_of_le_add hle)]
              rfl

/-- Nothing is read of no more than the bytes still to pass. -/
theorem length_le_of_decodeFrom_nil {b : List UInt8} {skip : Nat}
    (h : decodeFrom skip b = []) : b.length ≤ skip := by
  induction b generalizing skip with
  | nil => exact Nat.zero_le _
  | cons x rest ih =>
      cases skip with
      | succ skip => exact Nat.succ_le_succ (ih h)
      | zero =>
          rw [decodeFrom] at h
          cases hc : firstChar (x :: rest) with
          | none =>
              rw [hc] at h
              exact nomatch h
          | some c =>
              rw [hc] at h
              exact nomatch h

theorem decodeFrom_last (b : List UInt8) {skip : Nat} {c : Char}
    (h : (decodeFrom skip b).getLast? = some c) :
    c = '\uFFFD' ∨ String.utf8EncodeChar c <:+ b.drop skip := by
  induction b generalizing skip with
  | nil => exact nomatch h
  | cons x rest ih =>
      cases skip with
      | succ skip => exact ih h
      | zero =>
          rw [decodeFrom] at h
          cases hc : firstChar (x :: rest) with
          | none =>
              rw [hc] at h
              have h' : ('\uFFFD' :: decodeFrom 0 rest).getLast? = some c := h
              cases hrest : decodeFrom 0 rest with
              | nil =>
                  rw [hrest] at h'
                  exact Or.inl (Option.some.inj h').symm
              | cons d ds =>
                  rw [hrest, List.getLast?_cons_cons, ← hrest] at h'
                  exact (ih h').imp_right fun hs => hs.trans (List.suffix_cons x rest)
          | some d =>
              rw [hc] at h
              have h' : (d :: decodeFrom (d.utf8Size - 1) rest).getLast? = some c := h
              cases hrest : decodeFrom (d.utf8Size - 1) rest with
              | nil =>
                  -- the character is all there is
                  rw [hrest] at h'
                  have hd : d = c := Option.some.inj h'
                  subst hd
                  have hpre := prefix_of_firstChar hc
                  have hlen := length_le_of_decodeFrom_nil hrest
                  have hpos := d.utf8Size_pos
                  have heq : String.utf8EncodeChar d = x :: rest := by
                    refine hpre.eq_of_length_le ?_
                    rw [String.length_utf8EncodeChar, List.length_cons]
                    omega
                  right
                  rw [heq]
                  exact List.suffix_refl _
              | cons e es =>
                  rw [hrest, List.getLast?_cons_cons, ← hrest] at h'
                  refine (ih h').imp_right fun hs => hs.trans ?_
                  exact (List.drop_suffix _ rest).trans (List.suffix_cons x rest)

/-- The decoder is one. -/
theorem utf8Decoder_decodeFrom : Utf8Decoder (decodeFrom 0) where
  nil := rfl
  append b cs := decodeFrom_append b cs (Nat.zero_le _)
  last _ _ h := decodeFrom_last _ h

end Albus.Lib
