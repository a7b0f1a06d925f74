import Albus.Core.BlakeCompression

/-! # BLAKE-512 of any pieces

    `blake512` is the hash function on a whole message: the message is padded to blocks, and
    each block is compressed with the number of message bits up to its end, or zero for a
    block without message bits.

    `update` is the absorption of `BlockBuffer` (`state_update`).  The padding subtracts from
    the bit count what its own calls of `update` will add; where the last block has no
    message bits it turns the count off.  So the digest of any pieces is the hash of what
    they are put together (`digest_foldl_update`). -/

namespace Albus.Core

open Albus.Lib

namespace Blake512

/-! ## The hash function -/

/-- The message bits up to the end of block `k`, where it has any. -/
def counter (len k : ℕ) : ℕ := if 128 * k < len then 8 * min len (128 * (k + 1)) else 0

/-- The compressions of the blocks from the `k`th on. -/
def chainFrom (len : ℕ) : ℕ → List (List UInt8) → Vector Word 8 → Vector Word 8
  | _, [], h => h
  | k, block :: blocks, h =>
      chainFrom len (k + 1) blocks (compress (messageWord block) h (counter len k))

/-- A one, zeros and a one, up to sixteen bytes before the end of a block. -/
def padBytes (len : ℕ) : List UInt8 :=
  let p := 128 - (len + 16) % 128
  if p = 1 then [0x81] else 0x80 :: (List.replicate (p - 2) 0 ++ [0x01])

def padded (msg : List UInt8) : List UInt8 :=
  msg ++ padBytes msg.length ++ beBytes 16 (8 * msg.length)

def digestWords (h : Vector Word 8) : List UInt8 :=
  ((List.range 8).map fun i => beBytes 8 (h[i]?.getD 0).toNat).flatten

/-- **THE HASH FUNCTION.** -/
def blake512 (msg : List UInt8) : List UInt8 :=
  digestWords (chainFrom msg.length 0 (records 128 ((padded msg).length / 128) (padded msg))
    (pairs initial))

/-! ## The bit count -/

/-- A number in digits of 32 bits, low one first. -/
def digits : ℕ → ℕ → List ℤ
  | 0, _ => []
  | w + 1, t => ((t % 2 ^ 32 : ℕ) : ℤ) :: digits w (t / 2 ^ 32)

theorem carryFrom_digits (w t : ℕ) {c : ℕ} (hc : c ≤ 2 ^ 32) :
    carryFrom c (digits w t) = digits w (t + c) := by
  induction w generalizing t c with
  | zero => rfl
  | succ w ih =>
      have hone := ih (t / 2 ^ 32) (c := 1) (by omega)
      rw [digits, digits, carryFrom]
      by_cases h : t % 2 ^ 32 + c < 2 ^ 32
      · have hmod : (t + c) % 2 ^ 32 = t % 2 ^ 32 + c := by omega
        have hdiv : (t + c) / 2 ^ 32 = t / 2 ^ 32 := by omega
        rw [if_pos (by exact_mod_cast h), hmod, hdiv, Nat.cast_add]
      · have hmod : (t + c) % 2 ^ 32 = t % 2 ^ 32 + c - 2 ^ 32 := by omega
        have hdiv : (t + c) / 2 ^ 32 = t / 2 ^ 32 + 1 := by omega
        rw [if_neg (by exact_mod_cast h), hmod, hdiv, Nat.cast_sub (by omega), ← hone]
        push_cast
        rfl

theorem addFirst_addFirst (arr : List ℤ) (a b : ℤ) :
    addFirst (addFirst arr a) b = addFirst arr (a + b) := by
  cases arr with
  | nil => rfl
  | cons x arr => exact congrArg (· :: arr) (add_assoc x a b)

theorem lengthCarry_digits (w t : ℕ) {c : ℕ} (hc : c ≤ 2 ^ 32) :
    lengthCarry (addFirst (digits (w + 1) t) c) = digits (w + 1) (t + c) := by
  rw [← carryFrom_digits _ _ hc, lengthCarry, digits, addFirst, List.set_cons_zero,
    List.getD_cons_zero, carryFrom, carryFrom, add_zero]

theorem ofInt_digit (n : ℕ) : BitVec.ofInt 32 ((n % 2 ^ 32 : ℕ) : ℤ) = BitVec.ofNat 32 n := by
  rw [BitVec.ofInt_natCast]
  apply BitVec.eq_of_toNat_eq
  rw [BitVec.toNat_ofNat, BitVec.toNat_ofNat, Nat.mod_mod]

theorem counts_digits (t : ℕ) : Counts (digits 4 t) t := by
  have hpair : ∀ n : ℕ, BitVec.ofInt 32 ((n / 2 ^ 32 % 2 ^ 32 : ℕ) : ℤ)
      ++ BitVec.ofInt 32 ((n % 2 ^ 32 : ℕ) : ℤ) = BitVec.ofNat (32 + 32) n := by
    intro n
    have h := halves_ofNat (w := 32) 0 n
    rwa [Nat.zero_add, Nat.zero_mul, Nat.zero_add, ← ofInt_digit, ← ofInt_digit n] at h
  refine ⟨hpair t, ?_⟩
  rw [show 2 ^ 64 = 2 ^ 32 * 2 ^ 32 by rfl, ← Nat.div_div_eq_div_mul, ← hpair]
  rfl

/-- A number of `w` and four bytes, high bytes first. -/
theorem beBytes_add_four (w t : ℕ) :
    beBytes (4 + w) t = beBytes w (t / 2 ^ 32) ++ beBytes 4 t := by
  rw [beBytes, leBytes_add, List.reverse_append, show 256 ^ 4 = 2 ^ 32 by decide]
  rfl

theorem beBytes_mod (t : ℕ) : beBytes 4 (t % 2 ^ 32) = beBytes 4 t := by
  rw [beBytes, show 2 ^ 32 = 256 ^ 4 by decide, leBytes_mod]
  rfl

/-- The four numbers behind the padding are the bit count, high byte first. -/
theorem msglen_eq (t : ℕ) :
    ((List.range 4).map fun i =>
        beBytes 4 (BitVec.ofInt 32 ((digits 4 t).getD (3 - i) 0)).toNat).flatten
      = beBytes 16 t := by
  have hdigit : ∀ n : ℕ, beBytes 4 (BitVec.ofInt 32 ((n % 2 ^ 32 : ℕ) : ℤ)).toNat
      = beBytes 4 n := by
    intro n
    rw [ofInt_digit, BitVec.toNat_ofNat, beBytes_mod]
  rw [show 16 = 4 + 12 by rfl, beBytes_add_four, show 12 = 4 + 8 by rfl, beBytes_add_four,
    show 8 = 4 + 4 by rfl, beBytes_add_four, ← hdigit t, ← hdigit (t / 2 ^ 32),
    ← hdigit (t / 2 ^ 32 / 2 ^ 32), ← hdigit (t / 2 ^ 32 / 2 ^ 32 / 2 ^ 32), List.append_assoc,
    List.append_assoc]
  rfl

/-! ## The object as an absorption -/

/-- What the blocks change. -/
structure Chain where
  h : Vector Half 16
  s : Vector Half 8
  length : List ℤ
  nullt : Bool

namespace Chain

/-- A full block. -/
def step (c : Chain) (block : List UInt8) : Chain :=
  let length := lengthCarry (addFirst c.length (128 * 8))
  { c with length := length, h := compressed c.h c.s length c.nullt block }

/-- The count after `n` bits less. -/
def back (c : Chain) (n : ℕ) : Chain := { c with length := addFirst c.length (-n) }

def null (c : Chain) : Chain := { c with nullt := true }

variable (c : Chain) (block : List UInt8) (n : ℕ)

@[simp] theorem step_s : (c.step block).s = c.s := by rw [step]

@[simp] theorem step_length :
    (c.step block).length = lengthCarry (addFirst c.length (128 * 8)) := by rw [step]

@[simp] theorem step_nullt : (c.step block).nullt = c.nullt := by rw [step]

@[simp] theorem step_h : (c.step block).h
    = compressed c.h c.s (lengthCarry (addFirst c.length (128 * 8))) c.nullt block := by rw [step]

@[simp] theorem back_h : (c.back n).h = c.h := rfl

@[simp] theorem back_s : (c.back n).s = c.s := rfl

@[simp] theorem back_length : (c.back n).length = addFirst c.length (-n) := rfl

@[simp] theorem back_nullt : (c.back n).nullt = c.nullt := rfl

theorem back_back (n k : ℕ) : (c.back n).back k = c.back (n + k) := by
  have hsum : -(n : ℤ) + -(k : ℤ) = -((n + k : ℕ) : ℤ) := by omega
  rw [back, back, back, addFirst_addFirst, hsum]

end Chain

/-- The object: the chain, and what waits in the buffer. -/
def state (b : Blake512) : Chain × List UInt8 :=
  (⟨b.h, b.s, b.length, b.nullt⟩, b.block.take b.blockOffset)

@[simp] theorem state_length (b : Blake512) : b.state.1.length = b.length := by rw [state]

theorem state_h (b : Blake512) : b.state.1.h = b.h := by rw [state]

theorem length_waiting (b : Blake512) : b.state.2.length = b.blockOffset := by
  have := b.offset_lt
  rw [state, List.length_take, b.length_block]
  omega

theorem take_overwrite {l new : List UInt8} {i : ℕ} (h : i ≤ l.length) :
    (overwrite l i new).take (i + new.length) = l.take i ++ new := by
  rw [overwrite, List.take_left' (by rw [List.length_append, List.length_take]; omega)]

/-- **`update`** absorbs its data. -/
theorem state_update (b : Blake512) (data : List UInt8) :
    (b.update data).state = absorb 128 Chain.step b.state data := by
  fun_induction update b data with
  | case1 b data hfull part block length ih =>
      have hlt := b.offset_lt
      have hpart : b.blockOffset + part.length = 128 := by
        rw [List.length_take]
        omega
      have hwait := length_waiting b
      -- the buffer and the part of the data that fills it
      have hblock : block = (b.state.2 ++ data).take 128 := by
        rw [List.take_append, hwait, List.take_of_length_le (by omega)]
        rw [show block = overwrite b.block b.blockOffset part from rfl, overwrite, hpart,
          List.drop_eq_nil_of_le (Nat.le_of_eq b.length_block), List.append_nil]
        rfl
      have hdrop : (b.state.2 ++ data).drop 128 = data.drop (128 - b.blockOffset) := by
        rw [List.drop_append, hwait, List.drop_eq_nil_of_le (by omega), List.nil_append]
      have hstep : absorb 128 Chain.step b.state data = _ :=
        absorb_block (by omega) (by rw [hwait]; exact hfull)
      rw [ih, hstep, ← hblock, hdrop]
      rfl
  | case2 b data hshort =>
      have hlt := b.offset_lt
      have hwait := length_waiting b
      have hle : b.blockOffset ≤ b.block.length := by
        rw [b.length_block]
        omega
      rw [absorb_short (by rw [hwait]; exact Nat.lt_of_not_le hshort)]
      exact Prod.ext rfl (take_overwrite hle)

theorem state_countBack (b : Blake512) (n : ℕ) :
    (b.countBack n).state = (b.state.1.back n, b.state.2) := rfl

theorem state_setNullt (b : Blake512) : b.setNullt.state = (b.state.1.null, b.state.2) := rfl

/-! ## Blocks of the message -/

/-- A state whose words are `h`, with `t` bits counted. -/
structure Chain.At (c : Chain) (h : Vector Word 8) (t : ℕ) : Prop where
  words : pairs c.h = h
  salt : c.s = noSalt
  count : c.length = digits 4 t
  counted : c.nullt = false

/-- One block of `n` bits more or fewer: its last entry of the count is ahead or behind. -/
theorem Chain.At.step {c : Chain} {h : Vector Word 8} {t n : ℕ} {block : List UInt8}
    (hc : c.At h t) (hblock : block.length = 128) (hn : n ≤ 1024) :
    ((c.back (1024 - n)).step block).At (compress (messageWord block) h (t + n)) (t + n) := by
  have hcount : lengthCarry (addFirst (c.back (1024 - n)).length (128 * 8)) = digits 4 (t + n) := by
    have hsum : -((1024 - n : ℕ) : ℤ) + 128 * 8 = (n : ℤ) := by omega
    rw [back_length, addFirst_addFirst, hsum, hc.count]
    exact lengthCarry_digits 3 t (by omega)
  refine ⟨?_, ?_, ?_, ?_⟩
  · rw [step_h, hcount, back_h, back_s, back_nullt, hc.salt, hc.counted, ← hc.words]
    exact pairs_compressed hblock (fun h0 => absurd h0 (by decide)) fun _ => counts_digits _
  · rw [step_s, back_s, hc.salt]
  · rw [step_length, hcount]
  · rw [step_nullt, back_nullt, hc.counted]

/-- One block that is not counted. -/
theorem Chain.step_null {c : Chain} {h : Vector Word 8} {block : List UInt8}
    (hwords : pairs c.h = h) (hsalt : c.s = noSalt) (hnull : c.nullt = true)
    (hblock : block.length = 128) :
    pairs (c.step block).h = compress (messageWord block) h 0 := by
  rw [step_h, hsalt, hnull, ← hwords]
  exact pairs_compressed hblock (fun _ => rfl) fun h0 => absurd h0 (by decide)

theorem Chain.At.step_full {c : Chain} {h : Vector Word 8} {t : ℕ} {block : List UInt8}
    (hc : c.At h t) (hblock : block.length = 128) :
    (c.step block).At (compress (messageWord block) h (t + 1024)) (t + 1024) := by
  have hback : c.back (1024 - 1024) = c := by
    rw [back, Nat.sub_self, Nat.cast_zero, neg_zero, hc.count]
    have hadd : addFirst (digits 4 t) 0 = digits 4 t := congrArg (· :: _) (add_zero _)
    rw [hadd, ← hc.count]
  have hstep := hc.step hblock (Nat.le_refl 1024)
  rwa [hback] at hstep

theorem chainFrom_append (len k : ℕ) (as bs : List (List UInt8)) (h : Vector Word 8) :
    chainFrom len k (as ++ bs) h = chainFrom len (k + as.length) bs (chainFrom len k as h) := by
  induction as generalizing k h with
  | nil => rfl
  | cons a as ih =>
      rw [List.cons_append, chainFrom, ih, chainFrom, List.length_cons, Nat.add_assoc,
        Nat.add_comm 1]

/-- **THE BLOCKS** that a message fills. -/
theorem at_foldl_step {len : ℕ} {blocks : List (List UInt8)}
    (hblocks : ∀ block ∈ blocks, block.length = 128) {k : ℕ}
    (hlen : 128 * (k + blocks.length) ≤ len) {c : Chain} {h : Vector Word 8}
    (hc : c.At h (1024 * k)) :
    (blocks.foldl Chain.step c).At (chainFrom len k blocks h) (1024 * (k + blocks.length)) := by
  induction blocks generalizing k c h with
  | nil => exact hc
  | cons block blocks ih =>
      rw [List.length_cons] at hlen ⊢
      have hcounter : counter len k = 1024 * k + 1024 := by
        rw [counter, if_pos (by omega), Nat.min_eq_right (by omega)]
        omega
      have hstep := hc.step_full (hblocks block List.mem_cons_self)
      rw [List.foldl_cons, chainFrom, hcounter,
        show k + (blocks.length + 1) = k + 1 + blocks.length by omega]
      exact ih (fun b hb => hblocks b (List.mem_cons_of_mem _ hb)) (by omega) hstep

/-! ## The padding -/

theorem state_short (b : Blake512) (data : List UInt8)
    (h : b.state.2.length + data.length < 128) :
    (b.update data).state = (b.state.1, b.state.2 ++ data) := by
  rw [state_update, absorb_short h]

theorem state_full (b : Blake512) (data : List UInt8)
    (h : b.state.2.length + data.length = 128) :
    (b.update data).state = (b.state.1.step (b.state.2 ++ data), []) := by
  rw [state_update, absorb_full (by omega) h]

theorem msglen_at {b : Blake512} {h : Vector Word 8} {t : ℕ} (hb : b.state.1.At h t) :
    b.msglen = beBytes 16 (t + b.blockOffset * 8) := by
  have hlt := b.offset_lt
  have hcarry := lengthCarry_digits 3 t (c := b.blockOffset * 8) (by omega)
  rw [← hb.count, state_length] at hcarry
  rw [msglen, hcarry, msglen_eq]

theorem length_msglen (b : Blake512) : b.msglen.length = 16 := by
  have hfour : ∀ r ∈ (List.range 4).map fun i => beBytes 4 (BitVec.ofInt 32
      ((lengthCarry (addFirst b.length ((b.blockOffset * 8 : ℕ) : ℤ))).getD (3 - i) 0)).toNat,
      r.length = 4 := by
    intro r hr
    obtain ⟨i, -, rfl⟩ := List.mem_map.mp hr
    exact length_beBytes 4 _
  exact length_flatten_of_forall hfour

theorem length_padding : padding.length = 129 := by
  rw [padding, List.length_cons, List.length_replicate]

theorem take_padding {n : ℕ} (hn : n ≤ 128) :
    padding.take (n + 1) = 0x80 :: List.replicate n 0 := by
  rw [padding, List.take_succ_cons, List.take_replicate, Nat.min_eq_left hn]

section Padding

variable {b : Blake512} {h : Vector Word 8} {t : ℕ}

theorem length_padBytes (len : ℕ) : (padBytes len).length = 128 - (len + 16) % 128 := by
  have hlt := Nat.mod_lt (len + 16) (show 0 < 128 by omega)
  rw [padBytes]
  by_cases hp : 128 - (len + 16) % 128 = 1
  · rw [if_pos hp, hp]
    rfl
  · rw [if_neg hp, List.length_cons, List.length_append, List.length_replicate,
      List.length_singleton]
    omega

/-- The two ones where there is room for the count. -/
theorem padBytes_room {r : ℕ} (h : r < 111) : padBytes r = padding.take (111 - r) ++ zo := by
  have hp : 128 - (r + 16) % 128 = 112 - r := by omega
  rw [padBytes, hp, if_neg (by omega), show 111 - r = 110 - r + 1 by omega, take_padding (by omega),
    show 112 - r - 2 = 110 - r by omega]
  rfl

/-- The two ones where there is not. -/
theorem padBytes_no_room {r : ℕ} (h112 : 112 ≤ r) (h : r < 128) :
    padBytes r = padding.take (128 - r) ++ ((padding.drop 1).take 111 ++ zo) := by
  have hp : 128 - (r + 16) % 128 = 240 - r := by omega
  have htake : (padding.drop 1).take 111 = List.replicate 111 0 := by decide
  rw [padBytes, hp, if_neg (by omega), show 128 - r = 127 - r + 1 by omega, take_padding (by omega),
    htake, show 240 - r - 2 = 127 - r + 111 by omega, ← List.replicate_append_replicate,
    List.append_assoc]
  rfl

/-- The last call of `update`. -/
theorem pad_state {c : Chain} {w : List UInt8} (h : b.padOnes.state = (c, w))
    (hw : w.length = 112) : b.pad.state = ((c.back 128).step (w ++ b.msglen), []) := by
  have hstate : (b.padOnes.countBack 128).state = (c.back 128, w) := by
    rw [state_countBack, h]
  have hfull := state_full (b.padOnes.countBack 128) b.msglen
    (by rw [hstate, length_msglen, hw])
  rw [pad, hfull, hstate]

/-- `padOnes` where there is room for a second byte. -/
theorem padOnes_short (b' : Blake512) (h111 : b.blockOffset < 111)
    (hb' : (if b.blockOffset = 0 then b.setNullt else b) = b') (hw : b'.state.2 = b.state.2) :
    b.padOnes.state = (b'.state.1.back ((111 - b.blockOffset) * 8 + 8),
      b.state.2 ++ padBytes b.blockOffset) := by
  have hwait := length_waiting b
  have hlen : (padding.take (111 - b.blockOffset)).length = 111 - b.blockOffset := by
    rw [List.length_take, length_padding]
    omega
  have hfirst : ((b'.countBack ((111 - b.blockOffset) * 8)).update
      (padding.take (111 - b.blockOffset))).state
      = (b'.state.1.back ((111 - b.blockOffset) * 8),
        b.state.2 ++ padding.take (111 - b.blockOffset)) := by
    rw [state_short, state_countBack, hw]
    rw [state_countBack, hw, hwait, hlen]
    omega
  have hsecond := state_short
    ((b'.countBack ((111 - b.blockOffset) * 8)).update (padding.take (111 - b.blockOffset))) zo
    (by rw [hfirst, List.length_append, hwait, hlen]; show _ + 1 < _; omega)
  rw [padOnes, if_neg (by omega)]
  simp only [if_pos h111, hb']
  rw [state_countBack, hsecond, hfirst, Chain.back_back, padBytes_room h111, List.append_assoc]

/-- Room for both ones and the count, with some message bits. -/
theorem pad_room (hb : b.state.1.At h t) (h0 : 0 < b.blockOffset) (h112 : b.blockOffset < 112) :
    pairs b.pad.h = compress (messageWord (b.state.2 ++ padBytes b.blockOffset ++ b.msglen)) h
      (t + b.blockOffset * 8) := by
  have hwait := length_waiting b
  have hones : b.padOnes.state = (b.state.1.back (896 - b.blockOffset * 8),
      b.state.2 ++ padBytes b.blockOffset) := by
    by_cases h111 : b.blockOffset = 111
    · have hshort := state_short (b.countBack 8) oo
        (by rw [state_countBack, hwait, h111]; decide)
      rw [padOnes, if_pos h111, hshort, state_countBack, h111]
      rfl
    · rw [padOnes_short b (by omega) (if_neg (by omega)) rfl,
        show (111 - b.blockOffset) * 8 + 8 = 896 - b.blockOffset * 8 by omega]
  have hlen : (b.state.2 ++ padBytes b.blockOffset).length = 112 := by
    rw [List.length_append, hwait, length_padBytes]
    omega
  have hback : 896 - b.blockOffset * 8 + 128 = 1024 - b.blockOffset * 8 := by omega
  rw [← state_h, pad_state hones hlen, Chain.back_back, hback]
  exact (hb.step (by rw [List.length_append, hlen, length_msglen]) (by omega)).words

/-- A block without message bits. -/
theorem pad_none (hb : b.state.1.At h t) (h0 : b.blockOffset = 0) :
    pairs b.pad.h = compress (messageWord (padBytes 0 ++ b.msglen)) h 0 := by
  have hwait : b.state.2 = [] := List.eq_nil_of_length_eq_zero ((length_waiting b).trans h0)
  have hones := padOnes_short b.setNullt (by omega) (if_pos h0) rfl
  rw [hwait, h0, List.nil_append] at hones
  rw [← state_h, pad_state hones (by decide), state_setNullt]
  exact Chain.step_null hb.words hb.salt rfl (by rw [List.length_append, length_msglen]; decide)

/-- No room: the count comes into a block of its own, without message bits. -/
theorem pad_two (hb : b.state.1.At h t) (h112 : 112 ≤ b.blockOffset) :
    pairs b.pad.h
      = compress (messageWord ((padding.drop 1).take 111 ++ zo ++ b.msglen))
        (compress (messageWord (b.state.2 ++ padding.take (128 - b.blockOffset))) h
          (t + b.blockOffset * 8)) 0 := by
  have hwait := length_waiting b
  have hlt := b.offset_lt
  have hlen : (padding.take (128 - b.blockOffset)).length = 128 - b.blockOffset := by
    rw [List.length_take, length_padding]
    omega
  obtain ⟨b1, hb1⟩ : ∃ b1, (b.countBack ((128 - b.blockOffset) * 8)).update
      (padding.take (128 - b.blockOffset)) = b1 := ⟨_, rfl⟩
  have hfirst : b1.state = ((b.state.1.back ((128 - b.blockOffset) * 8)).step
      (b.state.2 ++ padding.take (128 - b.blockOffset)), []) := by
    rw [← hb1, state_full, state_countBack]
    rw [state_countBack, hwait, hlen]
    omega
  have hat := hb.step (n := b.blockOffset * 8)
    (show (b.state.2 ++ padding.take (128 - b.blockOffset)).length = 128 by
      rw [List.length_append, hwait, hlen]; omega) (by omega)
  rw [show 1024 - b.blockOffset * 8 = (128 - b.blockOffset) * 8 by omega] at hat
  have hones : b.padOnes.state = ((b1.state.1.back (111 * 8)).null.back 8,
      (padding.drop 1).take 111 ++ zo) := by
    have hsecond : ((b1.countBack (111 * 8)).update ((padding.drop 1).take 111)).state
        = (b1.state.1.back (111 * 8), (padding.drop 1).take 111) := by
      rw [state_short, state_countBack, hfirst, List.nil_append]
      rw [state_countBack, hfirst]
      show ([] : List UInt8).length + ((padding.drop 1).take 111).length < 128
      decide
    have hthird := state_short
      ((b1.countBack (111 * 8)).update ((padding.drop 1).take 111)).setNullt zo
      (by
        rw [state_setNullt, hsecond]
        show ((padding.drop 1).take 111).length + zo.length < 128
        decide)
    rw [padOnes, if_neg (by omega)]
    simp only [if_neg (show ¬ b.blockOffset < 111 by omega), hb1]
    rw [state_countBack, hthird, state_setNullt, hsecond]
  rw [← state_h, pad_state hones (by decide)]
  refine Chain.step_null ?_ ?_ rfl (by rw [List.length_append, length_msglen]; decide)
  · rw [Chain.back_h]
    show pairs ((b1.state.1.back (111 * 8)).back 8).h = _
    rw [Chain.back_h, Chain.back_h, hfirst, hat.words]
  · rw [Chain.back_s]
    show ((b1.state.1.back (111 * 8)).back 8).s = _
    rw [Chain.back_s, Chain.back_s, hfirst, hat.salt]

end Padding

/-! ## The whole digest -/

theorem padBytes_mod (len : ℕ) : padBytes (len % 128) = padBytes len := by
  rw [padBytes, padBytes, Nat.add_mod (len % 128), Nat.mod_mod, ← Nat.add_mod]

/-- The object after a message: what its blocks made of the chain, and the rest. -/
structure Absorbed (b : Blake512) (msg : List UInt8) : Prop where
  at_chain : b.state.1.At
    (chainFrom msg.length 0 (records 128 (msg.length / 128) msg) (pairs initial))
    (1024 * (msg.length / 128))
  waiting : b.state.2 = msg.drop (msg.length / 128 * 128)

theorem state_foldl_update (b : Blake512) (pieces : List (List UInt8)) :
    (pieces.foldl update b).state = pieces.foldl (absorb 128 Chain.step) b.state := by
  induction pieces generalizing b with
  | nil => rfl
  | cons piece pieces ih => rw [List.foldl_cons, List.foldl_cons, ih, state_update]

theorem new_state : new.state = (⟨initial, noSalt, digits 4 0, false⟩, []) := rfl

/-- **ANY PIECES** leave what the message put together leaves. -/
theorem absorbed_foldl_update (pieces : List (List UInt8)) :
    Absorbed (pieces.foldl update new) pieces.flatten := by
  obtain ⟨msg, hmsg⟩ : ∃ msg, pieces.flatten = msg := ⟨_, rfl⟩
  have hstate : (pieces.foldl update new).state = absorb 128 Chain.step new.state msg := by
    rw [state_foldl_update, absorb_flatten (by omega) (by rw [new_state]; decide), hmsg]
  have hle := Nat.div_mul_le_self msg.length 128
  have hat : Chain.At ⟨initial, noSalt, digits 4 0, false⟩ (pairs initial) (1024 * 0) :=
    ⟨rfl, rfl, rfl, rfl⟩
  have hlen : 128 * (0 + (records 128 (msg.length / 128) msg).length) ≤ msg.length := by
    rw [length_records]
    omega
  have hblocks := at_foldl_step (fun block hblock => length_of_mem_records hle hblock) hlen hat
  rw [length_records, Nat.zero_add] at hblocks
  rw [hmsg]
  refine ⟨?_, ?_⟩
  · rw [hstate, absorb, new_state]
    exact hblocks
  · rw [hstate, absorb, new_state]
    rfl

theorem flatten_range_two (f : ℕ → List UInt8) (n : ℕ) :
    ((List.range (n * 2)).map f).flatten
      = ((List.range n).map fun i => f (i * 2) ++ f (i * 2 + 1)).flatten := by
  induction n with
  | zero => rfl
  | succ n ih =>
      rw [Nat.succ_mul, List.range_succ, List.range_succ, List.range_succ, List.map_append,
        List.map_append, List.map_append, List.flatten_append, List.flatten_append,
        List.flatten_append, ih]
      simp

/-- The halves of a digest. -/
theorem digest_eq (b : Blake512) : b.digest = digestWords (pairs b.pad.h) := by
  have htwo := flatten_range_two (fun i => beBytes 4 (get b.pad.h i).toNat) 8
  rw [digest, digestWords]
  refine htwo.trans (congrArg List.flatten ?_)
  apply List.map_congr_left
  intro i hi
  have hlt : i < 8 := List.mem_range.mp hi
  have hword : (pairs b.pad.h)[i]?.getD 0 = word b.pad.h i := by
    rw [pairs, Vector.getElem?_ofFn, dif_pos hlt]
    rfl
  have hlow := (get b.pad.h (i * 2 + 1)).isLt
  have hhigh : (get b.pad.h (i * 2)).toNat
      = ((get b.pad.h (i * 2)).toNat * 2 ^ 32 + (get b.pad.h (i * 2 + 1)).toNat) / 2 ^ 32 := by
    omega
  have hmod : (get b.pad.h (i * 2 + 1)).toNat
      = ((get b.pad.h (i * 2)).toNat * 2 ^ 32 + (get b.pad.h (i * 2 + 1)).toNat) % 2 ^ 32 := by
    omega
  rw [hword, word, toNat_halves]
  refine Eq.trans ?_ (beBytes_add_four 4 _).symm
  rw [← hhigh, ← beBytes_mod (_ * _ + _), ← hmod]

/-- The chain of a padded message: the blocks of the message, then the blocks of the rest. -/
theorem chainFrom_padded {msg rest : List UInt8} {n k : ℕ} (hn : n * 128 ≤ msg.length)
    (hpadded : padded msg = msg.take (n * 128) ++ rest) (hrest : rest.length = k * 128) :
    chainFrom msg.length 0 (records 128 ((padded msg).length / 128) (padded msg)) (pairs initial)
      = chainFrom msg.length n (records 128 k rest)
          (chainFrom msg.length 0 (records 128 n msg) (pairs initial)) := by
  have htake : (msg.take (n * 128)).length = n * 128 := by
    rw [List.length_take, Nat.min_eq_left hn]
  have hdiv : (padded msg).length / 128 = n + k := by
    rw [hpadded, List.length_append, htake, hrest]
    omega
  have hfirst : records 128 n (msg.take (n * 128)) = records 128 n msg := by
    conv_rhs => rw [← List.take_append_drop (n * 128) msg]
    rw [records_append 128 n (Nat.le_of_eq htake.symm)]
  rw [hdiv, records_add, hpadded, records_append 128 n (Nat.le_of_eq htake.symm), hfirst,
    List.drop_left' htake, chainFrom_append, length_records, Nat.zero_add]

/-- **BLAKE-512 OF ANY PIECES**: the object that was fed a message in any pieces returns the
    hash of the message. -/
theorem digest_foldl_update (pieces : List (List UInt8)) :
    (pieces.foldl update new).digest = blake512 pieces.flatten := by
  obtain ⟨b, hb⟩ : ∃ b, pieces.foldl update new = b := ⟨_, rfl⟩
  obtain ⟨msg, hmsg⟩ : ∃ msg, pieces.flatten = msg := ⟨_, rfl⟩
  obtain ⟨hat, hwaiting⟩ := absorbed_foldl_update pieces
  rw [hb, hmsg] at hat hwaiting
  obtain ⟨n, hn⟩ : ∃ n, msg.length / 128 = n := ⟨_, rfl⟩
  rw [hn] at hat hwaiting
  have hoffset : b.blockOffset = msg.length % 128 := by
    rw [← length_waiting, hwaiting, List.length_drop]
    omega
  have hlt := b.offset_lt
  have hle : n * 128 ≤ msg.length := by omega
  have hlen : msg.length = 128 * n + b.blockOffset := by omega
  have hbits : 1024 * n + b.blockOffset * 8 = 8 * msg.length := by omega
  have hmsglen : b.msglen = beBytes 16 (8 * msg.length) := by rw [msglen_at hat, hbits]
  have hpad : padBytes b.blockOffset = padBytes msg.length := by rw [hoffset, padBytes_mod]
  have hwait : b.state.2.length = b.blockOffset := length_waiting b
  have hpadlen := length_padBytes b.blockOffset
  have hmsglen16 := length_msglen b
  -- the padded message: the blocks of the message, then what waits and the padding
  have hpadded : padded msg = msg.take (n * 128)
      ++ (b.state.2 ++ padBytes b.blockOffset ++ b.msglen) := by
    rw [padded, hwaiting, hpad, hmsglen, ← List.append_assoc, ← List.append_assoc,
      List.take_append_drop]
  have hone : ∀ block : List UInt8, block.length = 128 → records 128 1 block = [block] :=
    fun block hblock => by rw [records, records, List.take_of_length_le (Nat.le_of_eq hblock)]
  rw [hb, hmsg, digest_eq, blake512]
  congr 1
  by_cases h112 : b.blockOffset < 112
  · -- one more block
    have hrest : (b.state.2 ++ padBytes b.blockOffset ++ b.msglen).length = 1 * 128 := by
      rw [List.length_append, List.length_append, hwait, hpadlen, hmsglen16]
      omega
    rw [chainFrom_padded hle hpadded hrest, hone _ (by omega), chainFrom, chainFrom]
    by_cases h0 : b.blockOffset = 0
    · have hnil : b.state.2 = [] := List.eq_nil_of_length_eq_zero (hwait.trans h0)
      rw [pad_none hat h0, counter, if_neg (by omega), hnil, h0, List.nil_append]
    · rw [pad_room hat (Nat.pos_of_ne_zero h0) h112, counter, if_pos (by omega),
        Nat.min_eq_left (by omega), hbits]
  · -- two more blocks
    have h112' := Nat.le_of_not_lt h112
    have htake : (padding.take (128 - b.blockOffset)).length = 128 - b.blockOffset := by
      rw [List.length_take, length_padding]
      omega
    have hfirst : (b.state.2 ++ padding.take (128 - b.blockOffset)).length = 128 := by
      rw [List.length_append, hwait, htake]
      omega
    have hsecond : ((padding.drop 1).take 111 ++ zo ++ b.msglen).length = 128 := by
      rw [List.length_append, hmsglen16]
      decide
    have hrest : b.state.2 ++ padBytes b.blockOffset ++ b.msglen
        = (b.state.2 ++ padding.take (128 - b.blockOffset))
          ++ ((padding.drop 1).take 111 ++ zo ++ b.msglen) := by
      rw [padBytes_no_room h112' hlt, ← List.append_assoc, List.append_assoc]
    have htwo : records 128 2 (b.state.2 ++ padBytes b.blockOffset ++ b.msglen)
        = [b.state.2 ++ padding.take (128 - b.blockOffset),
          (padding.drop 1).take 111 ++ zo ++ b.msglen] := by
      rw [hrest, show 2 = 1 + 1 by rfl, records_add, records_append 128 1 (by omega), hone _ hfirst,
        List.drop_left' (by omega), hone _ hsecond]
      rfl
    rw [chainFrom_padded hle hpadded (k := 2)
      (by rw [hrest, List.length_append, hfirst, hsecond]), htwo, chainFrom, chainFrom, chainFrom,
      pad_two hat h112', counter, counter, if_pos (by omega), if_neg (by omega),
      Nat.min_eq_left (by omega), hbits]

end Blake512

end Albus.Core
