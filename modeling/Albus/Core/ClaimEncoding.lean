import Albus.Core.CredentialRoot
import Albus.Core.ByteCodecs
import Albus.Lib.Sponge
import Albus.Lib.Utf8
import Mathlib.Data.UInt

/-! # Claim values and the strings they came from

    `ClaimValue.encode` writes up to 32 bytes as a number and hashes a longer text;
    the tree keeps the residue of either.  Neither step says how long the text was.
    The number forgets NULs at the front, the residue the multiples of the modulus,
    the hash the NULs at the end that the last piece of 31 bytes and the last frame
    were filled up with.  And the empty text has no number: `BigInt('0x')`.

    Nor is a number kept apart from a hash: a short text may have the hash of a long
    one for its number, and a long text may begin with the hash of another's front.
    Where Poseidon has no collision, texts of one value are of these kinds
    (`element_eq_iff`). -/

namespace Albus.Core

open Albus.Lib
open ClaimsTree (element)

/-! ## Poseidon.hashBytes as a sponge over the pieces of the message -/

/-- The numbers of the pieces, the last one filled up with zeros. -/
def pieces (msg : List UInt8) : List ℕ :=
  (List.range ((msg.length + 30) / 31)).map fun j =>
    beNat (frame 31 ((msg.drop (31 * j)).take 31))

section Hash

variable (permute : List ℕ → ℕ)

/-- What follows when `cur` is in the frame already. -/
def feed (cur l : List ℕ) : ℕ :=
  chain (Poseidon.hash permute) 14
    (Poseidon.hash permute (frame 16 (cur ++ l.take (16 - cur.length))))
    (l.drop (16 - cur.length))

theorem feed_nil (cur : List ℕ) :
    feed permute cur [] = Poseidon.hash permute (frame 16 cur) := by
  rw [feed, List.take_nil, List.drop_nil, List.append_nil, chain]

theorem feed_cons_full {cur : List ℕ} (h : cur.length = 15) (x : ℕ) (l : List ℕ) :
    feed permute cur (x :: l) = chain (Poseidon.hash permute) 14
      (Poseidon.hash permute (frame 16 (cur ++ [x]))) l := by
  rw [feed, h]
  rfl

theorem feed_cons_open {cur : List ℕ} (h : cur.length < 15) (x : ℕ) (l : List ℕ) :
    feed permute cur (x :: l) = feed permute (cur ++ [x]) l := by
  have hrest : 16 - cur.length = (16 - (cur ++ [x]).length) + 1 := by
    rw [List.length_append, List.length_singleton]
    omega
  unfold feed
  rw [hrest, List.take_succ_cons, List.drop_succ_cons, List.append_assoc,
    List.singleton_append]

/-- A list behind a hash. -/
theorem chain_eq_feed (h c : ℕ) (cs : List ℕ) :
    chain (Poseidon.hash permute) 14 h (c :: cs) = feed permute [h] (c :: cs) := by
  rw [chain_cons]
  rfl

/-- The frame of a state: `cur`, and zeros. -/
structure Sponge.Holds (st : Sponge) (cur : List ℕ) : Prop where
  inputs : st.inputs = frame 16 cur
  k : st.k = cur.length
  lt : cur.length < 16

/-- The end of `hashBytesX`. -/
def Sponge.finish (st : Sponge) : Option ℕ :=
  if st.dirty then some (Poseidon.hash permute st.inputs) else st.hash

theorem set_frame {cur : List ℕ} (h : cur.length < 16) (x : ℕ) :
    (frame 16 cur).set cur.length x = frame 16 (cur ++ [x]) := by
  unfold frame
  have hzeros : 16 - cur.length = (16 - (cur ++ [x]).length) + 1 := by
    rw [List.length_append, List.length_singleton]
    omega
  rw [hzeros, List.replicate_succ, List.set_append_right _ _ (Nat.le_refl _), Nat.sub_self,
    List.set_cons_zero, List.append_assoc, List.singleton_append]

/-- A piece that fills the frame. -/
theorem absorb_full {st : Sponge} {cur : List ℕ} (h : st.Holds cur) (hlen : cur.length = 15)
    (chunk : List UInt8) :
    let hash := Poseidon.hash permute (frame 16 (cur ++ [beNat chunk]))
    (st.absorb permute 16 chunk).Holds [hash] ∧
      (st.absorb permute 16 chunk).finish permute = some hash := by
  have hk : st.k = 16 - 1 := by rw [h.k, hlen]
  unfold Sponge.absorb
  rw [if_pos hk, h.inputs, h.k, set_frame h.lt]
  exact ⟨⟨rfl, rfl, Nat.lt_of_sub_eq_succ rfl⟩, rfl⟩

/-- A piece that leaves room. -/
theorem absorb_open {st : Sponge} {cur : List ℕ} (h : st.Holds cur) (hlen : cur.length < 15)
    (chunk : List UInt8) :
    (st.absorb permute 16 chunk).Holds (cur ++ [beNat chunk]) ∧
      (st.absorb permute 16 chunk).finish permute
        = some (Poseidon.hash permute (frame 16 (cur ++ [beNat chunk]))) := by
  have hk : ¬ st.k = 16 - 1 := by
    rw [h.k]
    omega
  have hlen' : (cur ++ [beNat chunk]).length = cur.length + 1 := by
    rw [List.length_append, List.length_singleton]
  unfold Sponge.absorb
  rw [if_neg hk, h.inputs, h.k, set_frame h.lt]
  refine ⟨⟨rfl, hlen'.symm, ?_⟩, rfl⟩
  rw [hlen']
  omega

/-- **THE LOOP OF `hashBytesX` IS THE SPONGE**, from any state. -/
theorem finish_foldl {chunks : List (List UInt8)} (hne : chunks ≠ []) {st : Sponge}
    {cur : List ℕ} (h : st.Holds cur) :
    (chunks.foldl (Sponge.absorb permute 16) st).finish permute
      = some (feed permute cur (chunks.map beNat)) := by
  induction chunks generalizing st cur with
  | nil => exact absurd rfl hne
  | cons chunk rest ih =>
      rw [List.foldl_cons, List.map_cons]
      by_cases hlen : cur.length = 15
      · obtain ⟨hholds, hfinish⟩ := absorb_full permute h hlen chunk
        rw [feed_cons_full permute hlen]
        cases rest with
        | nil =>
            rw [List.map_nil, chain]
            exact hfinish
        | cons c cs =>
            rw [ih (List.cons_ne_nil c cs) hholds, List.map_cons, chain_eq_feed]
      · have hlt : cur.length < 15 := by
          have := h.lt
          omega
        obtain ⟨hholds, hfinish⟩ := absorb_open permute h hlt chunk
        rw [feed_cons_open permute hlt]
        cases rest with
        | nil =>
            rw [List.map_nil, feed_nil]
            exact hfinish
        | cons c cs => rw [ih (List.cons_ne_nil c cs) hholds]

/-- One piece more, and the hash is that of the frame it is put into. -/
theorem finish_absorb (st : Sponge) (chunk : List UInt8) :
    (st.absorb permute 16 chunk).finish permute
      = some (Poseidon.hash permute (st.inputs.set st.k (beNat chunk))) := by
  unfold Sponge.absorb
  split <;> rfl

/-- The loop reads the whole pieces. -/
theorem pieces_of_whole (msg : List UInt8) {n : ℕ} (h : 31 * n ≤ msg.length) :
    (List.range n).map (fun j => beNat (frame 31 ((msg.drop (31 * j)).take 31)))
      = ((List.range n).map fun i => (msg.drop (31 * i)).take 31).map beNat := by
  rw [List.map_map]
  refine List.map_congr_left ?_
  intro j hj
  have hj' : j < n := List.mem_range.mp hj
  have hlen : ((msg.drop (31 * j)).take 31).length = 31 := by
    rw [List.length_take, List.length_drop]
    omega
  show beNat (frame 31 _) = beNat _
  rw [frame, hlen]
  simp

/-- **`hashBytes` IS THE SPONGE OVER THE PIECES.** -/
theorem hashBytes_eq {msg : List UInt8} (h : msg ≠ []) :
    Poseidon.hashBytes permute msg
      = some (sponge (Poseidon.hash permute) 14 (pieces msg)) := by
  have hpos : 0 < msg.length := List.length_pos_iff.mpr h
  obtain ⟨n, hn⟩ : ∃ n, msg.length / 31 = n := ⟨_, rfl⟩
  have hstart : Sponge.Holds ⟨List.replicate 16 0, 0, false, none⟩ [] :=
    ⟨rfl, rfl, Nat.zero_lt_of_lt (Nat.lt_succ_self 15)⟩
  have hwhole := pieces_of_whole msg (show 31 * n ≤ msg.length by omega)
  unfold Poseidon.hashBytes Poseidon.hashBytesX SPONGE_INPUTS SPONGE_CHUNK_SIZE
  simp only [hn]
  by_cases hmod : msg.length % 31 = 0
  · -- the pieces are all whole
    have hcount : (msg.length + 30) / 31 = n := by omega
    have hne : ((List.range n).map fun i => (msg.drop (31 * i)).take 31) ≠ [] := by
      intro hnil
      rw [List.map_eq_nil_iff, List.range_eq_nil] at hnil
      omega
    rw [if_neg (not_not.mpr hmod)]
    rw [show pieces msg = _ from by rw [pieces, hcount, hwhole]]
    exact finish_foldl permute hne hstart
  · have hcount : (msg.length + 30) / 31 = n + 1 := by omega
    have hslice : (msg.drop (31 * n)).take 31 = msg.drop (31 * n) := by
      refine List.take_of_length_le ?_
      rw [List.length_drop]
      omega
    obtain ⟨chunks, hchunks⟩ : ∃ chunks,
        ((List.range n).map fun i => (msg.drop (31 * i)).take 31) = chunks := ⟨_, rfl⟩
    have hpieces : pieces msg = (chunks ++ [frame 31 (msg.drop (31 * n))]).map beNat := by
      rw [pieces, hcount, List.range_succ, List.map_append, hwhole, hchunks, List.map_append]
      rw [List.map_singleton, hslice]
      rfl
    rw [if_pos hmod, hpieces, hchunks]
    have hloop := finish_foldl permute
      (List.append_ne_nil_of_right_ne_nil chunks
        (List.cons_ne_nil (frame 31 (msg.drop (31 * n))) [])) hstart
    rw [List.foldl_append, List.foldl_cons, List.foldl_nil, finish_absorb] at hloop
    exact hloop

end Hash

/-! ## What the pieces forget -/

/-- The bytes of a piece, also past the end of the message. -/
def window (msg : List UInt8) (j : ℕ) : List UInt8 :=
  (List.range 31).map fun i => msg.getD (31 * j + i) 0

theorem frame_piece (msg : List UInt8) (j : ℕ) :
    frame 31 ((msg.drop (31 * j)).take 31) = window msg j := by
  have hlen : ((msg.drop (31 * j)).take 31).length ≤ 31 := by
    rw [List.length_take]
    omega
  refine List.ext_getElem ?_ ?_
  · rw [length_frame hlen]
    simp [window]
  · intro i hi _
    have hi31 : i < 31 := by
      rw [length_frame hlen] at hi
      exact hi
    have hget := getD_frame 31 ((msg.drop (31 * j)).take 31) i
    rw [List.getD_eq_getElem _ _ hi] at hget
    rw [hget]
    simp only [window, List.getElem_map, List.getElem_range]
    simp only [List.getD_eq_getElem?_getD, List.getElem?_take, List.getElem?_drop]
    rw [if_pos hi31]

theorem getD_pieces (msg : List UInt8) (j : ℕ) :
    (pieces msg).getD j 0 = beNat (window msg j) := by
  by_cases h : j < (msg.length + 30) / 31
  · have hlen : j < (pieces msg).length := by
      rw [pieces, List.length_map, List.length_range]
      exact h
    rw [List.getD_eq_getElem _ _ hlen]
    simp only [pieces, List.getElem_map, List.getElem_range]
    rw [frame_piece]
  · have hlen : (pieces msg).length ≤ j := by
      rw [pieces, List.length_map, List.length_range]
      exact Nat.le_of_not_lt h
    have hzero : window msg j = List.replicate 31 0 := by
      refine List.eq_replicate_iff.mpr ⟨by simp [window], ?_⟩
      intro b hb
      obtain ⟨i, -, rfl⟩ := List.mem_map.mp hb
      refine List.getD_eq_default _ _ ?_
      omega
    rw [List.getD_eq_default _ _ hlen, hzero]
    rfl

/-- **THE PIECES FORGET THE NULS AT THE END**, and no more. -/
theorem sameUpToZeros_pieces (msg msg' : List UInt8) :
    SameUpToZeros (pieces msg) (pieces msg') ↔ SameUpToZeros msg msg' := by
  have hwindow : ∀ (m : List UInt8) (i : ℕ),
      m.getD i 0 = (window m (i / 31)).getD (i % 31) 0 := by
    intro m i
    have hlt : i % 31 < (window m (i / 31)).length := by
      simp only [window, List.length_map, List.length_range]
      omega
    rw [List.getD_eq_getElem _ _ hlt]
    simp only [window, List.getElem_map, List.getElem_range]
    rw [Nat.div_add_mod]
  constructor
  · intro h i
    have hpiece := h (i / 31)
    rw [getD_pieces, getD_pieces] at hpiece
    have hsame := beNat_inj (by simp [window]) hpiece
    rw [hwindow msg, hwindow msg', hsame]
  · intro h j
    rw [getD_pieces, getD_pieces]
    refine congrArg beNat ?_
    refine List.map_congr_left ?_
    intro i _
    exact h (31 * j + i)

/-! ## Cutting messages at pieces -/

theorem length_pieces (msg : List UInt8) : (pieces msg).length = (msg.length + 30) / 31 := by
  rw [pieces, List.length_map, List.length_range]

theorem getD_pieces_lt (msg : List UInt8) (j : ℕ) : (pieces msg).getD j 0 < 256 ^ 31 := by
  have hlt := beNat_lt (window msg j)
  rw [window, List.length_map, List.length_range] at hlt
  rw [getD_pieces]
  exact hlt

/-- Behind whole pieces the pieces are those of the rest. -/
theorem pieces_append {a : List UInt8} {m : ℕ} (h : a.length = 31 * m) (b : List UInt8) :
    pieces (a ++ b) = pieces a ++ pieces b := by
  have hlen : (pieces a).length = m := by
    rw [length_pieces, h]
    omega
  refine List.ext_getElem ?_ ?_
  · rw [List.length_append, hlen, length_pieces, length_pieces, List.length_append, h]
    omega
  · intro j hj hj'
    rw [← List.getD_eq_getElem _ 0 hj, ← List.getD_eq_getElem _ 0 hj', getD_pieces]
    by_cases hlt : j < m
    · rw [List.getD_append _ _ _ _ (hlen ▸ hlt), getD_pieces]
      refine congrArg beNat (List.map_congr_left ?_)
      intro i hi
      have hi31 := List.mem_range.mp hi
      exact List.getD_append _ _ _ _ (by omega)
    · rw [List.getD_append_right _ _ _ _ (hlen ▸ Nat.le_of_not_lt hlt), getD_pieces, hlen]
      refine congrArg beNat (List.map_congr_left ?_)
      intro i _
      rw [List.getD_append_right _ _ _ _ (by omega), h]
      congr 1
      omega

/-- The 31 bytes of a number are one piece. -/
theorem pieces_beBytes_append {n : ℕ} (h : n < 256 ^ 31) (b : List UInt8) :
    pieces (beBytes 31 n ++ b) = n :: pieces b := by
  have hlen : (beBytes 31 n).length = 31 * 1 := length_beBytes 31 n
  have hone : pieces (beBytes 31 n) = [n] := by
    have htake : ((beBytes 31 n).drop (31 * 0)).take 31 = beBytes 31 n := by
      rw [Nat.mul_zero, List.drop_zero]
      exact List.take_of_length_le (length_beBytes 31 n).le
    rw [pieces, hlen]
    show [beNat (frame 31 (((beBytes 31 n).drop (31 * 0)).take 31))] = [n]
    rw [htake, frame, hlen, Nat.mul_one, Nat.sub_self, List.replicate_zero, List.append_nil,
      beNat_beBytes_of_lt h]
  rw [pieces_append hlen, hone, List.singleton_append]

/-! ## Numbers and bytes -/

/-- The bytes without the zeros they begin with, one byte at least. -/
def canon : List UInt8 → List UInt8
  | x :: y :: rest => if x = 0 then canon (y :: rest) else x :: y :: rest
  | bytes => bytes

theorem canon_ne_nil {bytes : List UInt8} (h : bytes ≠ []) : canon bytes ≠ [] := by
  fun_induction canon bytes with
  | case1 y rest ih => exact ih (List.cons_ne_nil y rest)
  | case2 x y rest hx => exact List.cons_ne_nil _ _
  | case3 bytes hne => exact h

theorem beNat_canon (bytes : List UInt8) : beNat (canon bytes) = beNat bytes := by
  fun_induction canon bytes with
  | case1 y rest ih =>
      rw [ih]
      simp [beNat]
  | case2 x y rest hx => rfl
  | case3 bytes hne => rfl

/-- Bytes that no other bytes of their number are shorter than. -/
def IsCanonical (bytes : List UInt8) : Prop := bytes.length = 1 ∨ ∃ x ∈ bytes.head?, x ≠ 0

theorem isCanonical_canon {bytes : List UInt8} (h : bytes ≠ []) : IsCanonical (canon bytes) := by
  fun_induction canon bytes with
  | case1 y rest ih => exact ih (List.cons_ne_nil y rest)
  | case2 x y rest hx => exact Or.inr ⟨x, rfl, hx⟩
  | case3 bytes hne =>
      cases bytes with
      | nil => exact absurd rfl h
      | cons x rest =>
          cases rest with
          | nil => exact Or.inl rfl
          | cons y rest => exact absurd rfl (hne x y rest)

theorem canon_of_isCanonical {bytes : List UInt8} (h : IsCanonical bytes) :
    canon bytes = bytes := by
  cases bytes with
  | nil => rfl
  | cons x rest =>
      cases rest with
      | nil => rfl
      | cons y rest =>
          rw [canon, if_neg]
          rcases h with hlen | ⟨z, hz, hne⟩
          · exact absurd hlen (by simp)
          · rw [Option.mem_some.mp hz]
            exact hne

/-- A number of canonical bytes needs them all. -/
theorem le_beNat {bytes : List UInt8} (h : IsCanonical bytes) (hlen : 1 < bytes.length) :
    256 ^ (bytes.length - 1) ≤ beNat bytes := by
  rcases h with h1 | ⟨x, hx, hne⟩
  · omega
  · obtain ⟨rest, rfl⟩ : ∃ rest, bytes = x :: rest := by
      cases bytes with
      | nil => exact nomatch hx
      | cons y rest => exact ⟨rest, by rw [Option.mem_some.mp hx]⟩
    have hpos : 1 ≤ x.toNat := by
      rcases Nat.eq_zero_or_pos x.toNat with h0 | hpos
      · exact absurd (UInt8.toNat_inj.mp h0) hne
      · exact hpos
    have hsplit : beNat (x :: rest) = x.toNat * 256 ^ rest.length + beNat rest := by
      rw [show x :: rest = [x] ++ rest from rfl, beNat_append]
      simp [beNat]
    rw [hsplit, List.length_cons, Nat.add_sub_cancel]
    exact le_trans (Nat.le_mul_of_pos_left _ hpos) (Nat.le_add_right _ _)

theorem lt_pow_length_toHex (n : ℕ) : n < 16 ^ (Utils.toHex n).length := by
  rw [Utils.toHex]
  split
  case isTrue h =>
    rw [h]
    norm_num
  case isFalse h =>
    rw [List.length_reverse]
    exact Nat.lt_base_pow_length_digits (by norm_num)

/-- **`bigintToBytes` WRITES THE CANONICAL BYTES.** -/
theorem bigintToBytes_beNat {bytes : List UInt8} (h : bytes ≠ []) :
    Utils.bigintToBytes (beNat bytes) 0 = .ok (canon bytes) := by
  have hne := canon_ne_nil h
  have hcanon := isCanonical_canon h
  rw [← beNat_canon]
  generalize canon bytes = b at hne hcanon
  have hlen : 0 < b.length := List.length_pos_iff.mpr hne
  have hdigits := lt_pow_length_toHex (beNat b)
  -- as many digits as the bytes have, or one less
  have hlong : b.length * 2 ≤ (Utils.toHex (beNat b)).length + 1 := by
    by_contra hlt
    by_cases h1 : 1 < b.length
    · have hge := le_beNat hcanon h1
      have hpow : 16 ^ (Utils.toHex (beNat b)).length ≤ 256 ^ (b.length - 1) := by
        rw [show (256 : ℕ) = 16 ^ 2 by norm_num, ← pow_mul]
        exact Nat.pow_le_pow_right (by norm_num) (by omega)
      omega
    · have h0 : (Utils.toHex (beNat b)).length = 0 := by omega
      unfold Utils.toHex at h0
      split at h0
      case isTrue => exact absurd h0 (by simp)
      case isFalse hnz =>
        rw [List.length_reverse, List.length_eq_zero_iff, Nat.digits_eq_nil_iff_eq_zero] at h0
        exact hnz h0
  have hpad : Utils.bigintToBytes (beNat b) 0 = Utils.bigintToBytes (beNat b) b.length := by
    have hneg : ¬ ((beNat b : ℕ) : ℤ) < 0 := by omega
    unfold Utils.bigintToBytes
    rw [if_neg hneg, if_neg hneg, Int.toNat_natCast]
    refine congrArg Except.ok ?_
    unfold Utils.hexToBytes
    have hinput : ∀ input : List ℕ, b.length * 2 ≤ input.length →
        max input.length (0 * 2) = max input.length (b.length * 2) := by
      intro input hle
      omega
    simp only
    rw [hinput]
    split
    · rw [List.length_cons]
      exact hlong
    · omega
  rw [hpad, Utils.bigintToBytes_of_lt hlen (beNat_lt b)]
  exact congrArg Except.ok (beNat_inj (by rw [length_beBytes]) (beNat_beBytes_of_lt (beNat_lt b)))

/-- Bytes of one number are the same but for the zeros at the front. -/
theorem beNat_eq_iff {b b' : List UInt8} (h : b ≠ []) (h' : b' ≠ []) :
    beNat b = beNat b' ↔ canon b = canon b' := by
  constructor
  · intro heq
    have hbytes := bigintToBytes_beNat h
    rw [heq, bigintToBytes_beNat h'] at hbytes
    exact (Except.ok.inj hbytes).symm
  · intro heq
    rw [← beNat_canon b, heq, beNat_canon]

/-! ## Values of texts -/

/-- The bytes of a text. -/
def textBytes (text : String) : List UInt8 := utf8Bytes text.toList

theorem textBytes_eq_nil {text : String} : textBytes text = [] ↔ text = "" := by
  rw [textBytes, utf8Bytes_eq_nil, String.toList_eq_nil_iff]

/-- A text that `encode` writes as a number. -/
def IsShort (text : String) : Prop := (textBytes text).length ≤ 32

instance (text : String) : Decidable (IsShort text) := inferInstanceAs (Decidable (_ ≤ _))

theorem encodeValue_short (permute : List ℕ → ℕ) {text : String} (h : IsShort text) :
    ClaimsTree.encodeValue permute text = bytesToBigInt (textBytes text) := by
  rw [ClaimsTree.encodeValue, ClaimValue.encode]
  simp only [toUTF8_eq_utf8Bytes]
  refine if_neg ?_
  rintro (hhash | hlong)
  · exact nomatch hhash
  · exact absurd h (Nat.not_le_of_lt hlong)

theorem encodeValue_long (permute : List ℕ → ℕ) {text : String} (h : ¬ IsShort text) :
    ClaimsTree.encodeValue permute text
      = .ok (sponge (Poseidon.hash permute) 14 (pieces (textBytes text))) := by
  have hlong : 32 < (textBytes text).length := Nat.lt_of_not_le h
  have hne : textBytes text ≠ [] := by
    intro hnil
    rw [hnil] at hlong
    exact absurd hlong (Nat.not_lt_zero _)
  rw [ClaimsTree.encodeValue, ClaimValue.encode]
  simp only [toUTF8_eq_utf8Bytes]
  refine (if_pos (Or.inr hlong)).trans ?_
  show Except.ok ((Poseidon.hashBytes permute (textBytes text)).getD 0) = _
  rw [hashBytes_eq permute hne]
  rfl

/-- A hash is a residue. -/
theorem e_hash (permute : List ℕ → ℕ) (call : List ℕ) :
    F1Field.e (Poseidon.hash permute call : ℕ) = Poseidon.hash permute call :=
  F1Field.e_e _

/-- The sponge's hash is the hash of one of its frames. -/
theorem chain_mem (hash : List ℕ → ℕ) (r h : ℕ) (l : List ℕ) :
    chain hash r h l = h ∨ ∃ call ∈ chainCalls hash r h l, chain hash r h l = hash call := by
  induction h, l using chain.induct hash r with
  | case1 h => exact Or.inl (by rw [chain])
  | case2 h c cs ih =>
      rw [chain_cons, chainCalls_cons]
      rcases ih with heq | ⟨call, hmem, heq⟩
      · exact Or.inr ⟨_, List.mem_cons_self, heq⟩
      · exact Or.inr ⟨call, List.mem_cons_of_mem _ hmem, heq⟩

theorem sponge_mem (hash : List ℕ → ℕ) (r : ℕ) (l : List ℕ) :
    ∃ call ∈ spongeCalls hash r l, sponge hash r l = hash call := by
  unfold sponge spongeCalls
  rcases chain_mem hash r (hash (frame (r + 2) (l.take (r + 2)))) (l.drop (r + 2)) with
    heq | hex
  · exact ⟨_, List.mem_cons_self, heq⟩
  · obtain ⟨call, hmem, heq⟩ := hex
    exact ⟨call, List.mem_cons_of_mem _ hmem, heq⟩

theorem element_short (permute : List ℕ → ℕ) {text : String} (h : IsShort text)
    (hne : text ≠ "") : element permute text = .ok (beNat (textBytes text) % bn254r) := by
  rw [element, encodeValue_short permute h, bytesToBigInt,
    if_neg (fun hnil => hne (textBytes_eq_nil.mp hnil))]
  exact congrArg Except.ok (F1Field.e_natCast _)

theorem element_long (permute : List ℕ → ℕ) {text : String} (h : ¬ IsShort text) :
    element permute text
      = .ok (sponge (Poseidon.hash permute) 14 (pieces (textBytes text))) := by
  obtain ⟨call, -, heq⟩ := sponge_mem (Poseidon.hash permute) 14 (pieces (textBytes text))
  rw [element, encodeValue_long permute h]
  show Except.ok (F1Field.e _) = _
  rw [heq, e_hash]

theorem isShort_empty : IsShort "" := Nat.zero_le _

theorem element_empty (permute : List ℕ → ℕ) : element permute "" = .error .syntaxError := by
  rw [element, encodeValue_short permute isShort_empty]
  rfl

/-- **ENCODING FAILS ON THE EMPTY TEXT ALONE.** -/
theorem exists_encodeValue_iff (permute : List ℕ → ℕ) (text : String) :
    (∃ v, ClaimsTree.encodeValue permute text = .ok v) ↔ text ≠ "" := by
  constructor
  · rintro ⟨v, hv⟩ rfl
    rw [encodeValue_short permute isShort_empty] at hv
    exact nomatch hv
  · intro hne
    by_cases h : IsShort text
    · rw [encodeValue_short permute h, bytesToBigInt,
        if_neg (fun hnil => hne (textBytes_eq_nil.mp hnil))]
      exact ⟨_, rfl⟩
    · exact ⟨_, encodeValue_long permute h⟩

/-! ## Texts with one value -/

/-- The calls of Poseidon that a text makes. -/
def hashed (permute : List ℕ → ℕ) (text : String) : List (List ℕ) :=
  if IsShort text then []
  else spongeCalls (Poseidon.hash permute) 14 (pieces (textBytes text))

/-- No two of the inputs that the texts hash have one hash. -/
def PoseidonFree (permute : List ℕ → ℕ) (s t : String) : Prop :=
  NoCollision (Poseidon.hash permute) (hashed permute s ++ hashed permute t)

/-- Two texts that differ in NULs at the front, or by multiples of the modulus. -/
def SameNumber (s t : String) : Prop :=
  canon (textBytes s) = canon (textBytes t) ∨
  ∃ k, 0 < k ∧ (beNat (textBytes s) = beNat (textBytes t) + k * bn254r ∨
    beNat (textBytes t) = beNat (textBytes s) + k * bn254r)

/-- Two messages that differ in NULs at the end, and take as many frames of Poseidon. -/
def SameFrames (msg msg' : List UInt8) : Prop :=
  SameUpToZeros msg msg' ∧
  groups 14 ((msg.length + 30) / 31 - 16) = groups 14 ((msg'.length + 30) / 31 - 16)

/-- `msg'` is what is left of `msg` when whole frames at its front, of sixteen pieces and
    fifteen more each, are replaced by the 31 bytes of their hash. -/
def ContinuesIn (permute : List ℕ → ℕ) (msg msg' : List UInt8) : Prop :=
  ∃ k h, 31 * (16 + 15 * k) < msg.length ∧
    Poseidon.hashBytes permute (msg.take (31 * (16 + 15 * k))) = some h ∧ h < 256 ^ 31 ∧
    SameFrames (beBytes 31 h ++ msg.drop (31 * (16 + 15 * k))) msg'

/-- The number of `s` is the hash of `t`. -/
def NumberIsHash (permute : List ℕ → ℕ) (s t : String) : Prop :=
  Poseidon.hashBytes permute (textBytes t) = some (beNat (textBytes s) % bn254r)

instance (permute : List ℕ → ℕ) (s t : String) : Decidable (NumberIsHash permute s t) :=
  inferInstanceAs (Decidable (_ = _))

/-- The texts that are mixed up: both written as numbers, both hashed, or one of each. -/
def Confused (permute : List ℕ → ℕ) (s t : String) : Prop :=
  IsShort s ∧ IsShort t ∧ SameNumber s t ∨
  ¬ IsShort s ∧ ¬ IsShort t ∧
    (SameFrames (textBytes s) (textBytes t) ∨
      ContinuesIn permute (textBytes s) (textBytes t) ∨
      ContinuesIn permute (textBytes t) (textBytes s)) ∨
  IsShort s ∧ ¬ IsShort t ∧ NumberIsHash permute s t ∨
  ¬ IsShort s ∧ IsShort t ∧ NumberIsHash permute t s

theorem mod_eq_iff_sameNumber {s t : String} (hs : s ≠ "") (ht : t ≠ "") :
    beNat (textBytes s) % bn254r = beNat (textBytes t) % bn254r ↔ SameNumber s t := by
  have hcanon := beNat_eq_iff (fun h => hs (textBytes_eq_nil.mp h))
    (fun h => ht (textBytes_eq_nil.mp h))
  rw [SameNumber, ← hcanon]
  -- the larger number is the smaller one and a multiple of the modulus
  have hstep : ∀ {a b : ℕ}, a < b → a % bn254r = b % bn254r →
      ∃ k, 0 < k ∧ b = a + k * bn254r := by
    intro a b hlt hmod
    obtain ⟨k, hk⟩ := (Nat.modEq_iff_dvd' hlt.le).mp hmod
    refine ⟨k, ?_, ?_⟩
    · rcases Nat.eq_zero_or_pos k with h0 | hpos
      · rw [h0, Nat.mul_zero] at hk
        omega
      · exact hpos
    · rw [Nat.mul_comm, ← hk]
      omega
  constructor
  · intro hmod
    rcases Nat.lt_trichotomy (beNat (textBytes s)) (beNat (textBytes t)) with hlt | heq | hgt
    · obtain ⟨k, hk, h⟩ := hstep hlt hmod
      exact Or.inr ⟨k, hk, Or.inr h⟩
    · exact Or.inl heq
    · obtain ⟨k, hk, h⟩ := hstep hgt hmod.symm
      exact Or.inr ⟨k, hk, Or.inl h⟩
  · rintro (heq | ⟨k, -, h | h⟩)
    · rw [heq]
    · rw [h, Nat.add_mul_mod_self_right]
    · rw [h, Nat.add_mul_mod_self_right]

theorem sameFrames_iff (msg msg' : List UInt8) :
    SameGroups 14 (pieces msg) (pieces msg') ∧ SameUpToZeros (pieces msg) (pieces msg') ↔
      SameFrames msg msg' := by
  rw [SameGroups, length_pieces, length_pieces, sameUpToZeros_pieces]
  exact and_comm

/-- **A LIST OF PIECES CONTINUES** in another exactly when the message does. -/
theorem continues_pieces_iff {permute : List ℕ → ℕ} (msg msg' : List UInt8) :
    Continues (Poseidon.hash permute) 14 (pieces msg) (pieces msg') ↔
      ContinuesIn permute msg msg' := by
  -- the pieces of a message that is cut behind whole frames
  have hcut : ∀ k, 31 * (16 + 15 * k) < msg.length →
      (pieces (msg.take (31 * (16 + 15 * k)))).length = 16 + 15 * k ∧
      pieces msg = pieces (msg.take (31 * (16 + 15 * k)))
        ++ pieces (msg.drop (31 * (16 + 15 * k))) ∧
      Poseidon.hashBytes permute (msg.take (31 * (16 + 15 * k)))
        = some (sponge (Poseidon.hash permute) 14
          (pieces (msg.take (31 * (16 + 15 * k))))) := by
    intro k hlt
    have hlen : (msg.take (31 * (16 + 15 * k))).length = 31 * (16 + 15 * k) := by
      rw [List.length_take]
      omega
    refine ⟨?_, ?_, hashBytes_eq permute (List.ne_nil_of_length_pos (by omega))⟩
    · rw [length_pieces, hlen]
      omega
    · rw [← pieces_append hlen, List.take_append_drop]
  constructor
  · rintro ⟨front, back, hsplit, hne, ⟨k, hk⟩, hgroups, hsame⟩
    have hback : 0 < back.length := List.length_pos_iff.mpr hne
    have hlen := congrArg List.length hsplit
    rw [length_pieces, List.length_append] at hlen
    have hlt : 31 * (16 + 15 * k) < msg.length := by omega
    obtain ⟨hcount, hpieces, hhash⟩ := hcut k hlt
    obtain ⟨rfl, rfl⟩ := List.append_inj (hsplit.symm.trans hpieces) (by omega)
    have hbound : sponge (Poseidon.hash permute) 14
        (pieces (msg.take (31 * (16 + 15 * k)))) < 256 ^ 31 := by
      have hfirst := hsame 0
      rw [List.getD_cons_zero] at hfirst
      rw [hfirst]
      exact getD_pieces_lt msg' 0
    refine ⟨k, _, hlt, hhash, hbound, (sameFrames_iff _ _).mp ?_⟩
    rw [pieces_beBytes_append hbound]
    exact ⟨hgroups, hsame⟩
  · rintro ⟨k, h, hlt, hhash, hbound, hframes⟩
    obtain ⟨hcount, hpieces, hsponge⟩ := hcut k hlt
    obtain rfl := Option.some.inj (hsponge.symm.trans hhash)
    have hsame := (sameFrames_iff _ _).mpr hframes
    rw [pieces_beBytes_append hbound] at hsame
    refine ⟨_, _, hpieces, ?_, ⟨k, ?_⟩, hsame⟩
    · refine List.ne_nil_of_length_pos ?_
      rw [length_pieces, List.length_drop]
      omega
    · rw [hcount]
      omega

/-- A number and a hash. -/
theorem element_short_long {permute : List ℕ → ℕ} {s t : String} (hs : IsShort s)
    (hne : s ≠ "") (ht : ¬ IsShort t) :
    element permute s = element permute t ↔ NumberIsHash permute s t := by
  have hbytes : textBytes t ≠ [] := by
    intro hnil
    exact ht (textBytes_eq_nil.mp hnil ▸ isShort_empty)
  rw [element_short permute hs hne, element_long permute ht, NumberIsHash,
    hashBytes_eq permute hbytes, Except.ok.injEq, Option.some.injEq]
  exact eq_comm

/-- **HASHES OF LONG TEXTS** agree on texts of the same frames, and where one continues in
    the other. -/
theorem element_long_eq_iff {permute : List ℕ → ℕ} {s t : String}
    (hfree : PoseidonFree permute s t) (hs : ¬ IsShort s) (ht : ¬ IsShort t) :
    element permute s = element permute t ↔
      SameFrames (textBytes s) (textBytes t) ∨
        ContinuesIn permute (textBytes s) (textBytes t) ∨
        ContinuesIn permute (textBytes t) (textBytes s) := by
  have hno : NoCollision (Poseidon.hash permute)
      (spongeCalls (Poseidon.hash permute) 14 (pieces (textBytes s))
        ++ spongeCalls (Poseidon.hash permute) 14 (pieces (textBytes t))) := by
    rw [PoseidonFree, hashed, if_neg hs, hashed, if_neg ht] at hfree
    exact hfree
  rw [element_long permute hs, element_long permute ht, Except.ok.injEq, sponge_eq_iff hno,
    sameFrames_iff, continues_pieces_iff, continues_pieces_iff]

/-- **VALUES ARE TOLD APART UP TO CONFUSED TEXTS.** -/
theorem element_eq_iff {permute : List ℕ → ℕ} {s t : String}
    (hfree : PoseidonFree permute s t) (hs : s ≠ "") (ht : t ≠ "") :
    element permute s = element permute t ↔ Confused permute s t := by
  unfold Confused
  by_cases hss : IsShort s
  · by_cases hts : IsShort t
    · rw [element_short permute hss hs, element_short permute hts ht, Except.ok.injEq,
        mod_eq_iff_sameNumber hs ht]
      simp [hss, hts]
    · rw [element_short_long hss hs hts]
      simp [hss, hts]
  · by_cases hts : IsShort t
    · rw [eq_comm, element_short_long hts ht hss]
      simp [hss, hts]
    · rw [element_long_eq_iff hfree hss hts]
      simp [hss, hts]

end Albus.Core
