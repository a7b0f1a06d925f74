import Albus.Core.ByteCodecs
import Albus.Lib.ByteView

/-! # The conversion loops of `crypto/ff/utils.ts`

    `FfUtils` follows the loops along what is left of the bytes.  Here they are as
    written: offsets into a `DataView`, which refuses a word outside it.  An array is a
    window of a buffer that other arrays may share, so the readers go through its
    offset; the writers fill an array of their own, of any length.  `&` with a mask and
    `>>` are again the remainder and the quotient rounded down. -/

namespace Albus.Core

namespace ByteLoops

open Albus.Lib Albus.Lib.ByteView

def beBuff2intLoop (buffV : ByteView) (res i offset : ℕ) : Except String ℕ :=
  if 0 < i then
    if 4 ≤ i then do
      let word ← buffV.getUint32 (i - 4) false
      beBuff2intLoop buffV (res + word <<< (offset * 8)) (i - 4) (offset + 4)
    else if 2 ≤ i then do
      let word ← buffV.getUint16 (i - 2) false
      beBuff2intLoop buffV (res + word <<< (offset * 8)) (i - 2) (offset + 2)
    else do
      let word ← buffV.getUint8 (i - 1)
      beBuff2intLoop buffV (res + word <<< (offset * 8)) (i - 1) (offset + 1)
  else .ok res
termination_by i

def beBuff2int (buff : ByteView) : Except String ℤ := do
  let res ← beBuff2intLoop buff 0 buff.byteLength 0
  pure (res : ℤ)

def beInt2BuffLoop (buffV : ByteView) (r : ℤ) (o : ℕ) : Except String (ByteView × ℤ) :=
  if 0 < o then
    if 4 ≤ o then do
      let buffV ← buffV.setUint32 (o - 4) (r % 2 ^ 32).toNat false
      beInt2BuffLoop buffV (r / 2 ^ 32) (o - 4)
    else if 2 ≤ o then do
      let buffV ← buffV.setUint16 (o - 2) (r % 2 ^ 16).toNat false
      beInt2BuffLoop buffV (r / 2 ^ 16) (o - 2)
    else do
      let buffV ← buffV.setUint8 (o - 1) (r % 2 ^ 8).toNat
      beInt2BuffLoop buffV (r / 2 ^ 8) (o - 1)
  else .ok (buffV, r)
termination_by o

def doesNotFit : String := "Number does not fit in this length"

def beInt2Buff (n : ℤ) (len : ℕ) : Except String ByteView := do
  let (buff, r) ← beInt2BuffLoop (.zeros len) n len
  if r ≠ 0 then .error doesNotFit else .ok buff

def leBuff2intLoop (buffV : ByteView) (res i : ℕ) : Except String ℕ :=
  if i < buffV.byteLength then
    if i + 4 ≤ buffV.byteLength then do
      let word ← buffV.getUint32 i true
      leBuff2intLoop buffV (res + word <<< (i * 8)) (i + 4)
    else if i + 2 ≤ buffV.byteLength then do
      let word ← buffV.getUint16 i true
      leBuff2intLoop buffV (res + word <<< (i * 8)) (i + 2)
    else do
      let word ← buffV.getUint8 i
      leBuff2intLoop buffV (res + word <<< (i * 8)) (i + 1)
  else .ok res
termination_by buffV.byteLength - i

def leBuff2int (buff : ByteView) : Except String ℤ := do
  let res ← leBuff2intLoop buff 0 0
  pure (res : ℤ)

def leInt2BuffLoop (len : ℕ) (buffV : ByteView) (r : ℤ) (o : ℕ) :
    Except String (ByteView × ℤ) :=
  if o < len then
    if o + 4 ≤ len then do
      let buffV ← buffV.setUint32 o (r % 2 ^ 32).toNat true
      leInt2BuffLoop len buffV (r / 2 ^ 32) (o + 4)
    else if o + 2 ≤ len then do
      let buffV ← buffV.setUint16 o (r % 2 ^ 16).toNat true
      leInt2BuffLoop len buffV (r / 2 ^ 16) (o + 2)
    else do
      let buffV ← buffV.setUint8 o (r % 2 ^ 8).toNat
      leInt2BuffLoop len buffV (r / 2 ^ 8) (o + 1)
  else .ok (buffV, r)
termination_by len - o

/-- The length where none is given, `none` for `NaN`. -/
def defaultLength (n : ℤ) : Option ℕ :=
  (Scalar.bitLength n).map fun bits =>
    let len := (((bits : ℤ) - 1) / 8 + 1).toNat
    if len = 0 then 1 else len

def leInt2Buff (n : ℤ) (len : Option ℕ) : Except String ByteView := do
  -- an array of length `NaN` is empty, and no offset is below `NaN`
  let len := len.getD ((defaultLength n).getD 0)
  let (buff, r) ← leInt2BuffLoop len (.zeros len) n 0
  if r ≠ 0 then .error doesNotFit else .ok buff

/-! ## Reading -/

section Reading

variable {v : ByteView}

/-- `BigInt(offset * 8)` bits are `offset` bytes. -/
theorem shiftLeft_bytes (word offset : ℕ) : word <<< (offset * 8) = word * 256 ^ offset := by
  rw [Nat.shiftLeft_eq, mul_comm offset, pow_mul]
  norm_num

/-- One word, then the rest: what was read before `i`, and the bytes from there on. -/
theorem leRead_word {k i res : ℕ} (h : i + k ≤ v.byteLength) {littleEndian : Bool}
    (hword : (if littleEndian then leNat ((v.bytes.drop i).take k)
      else beNat ((v.bytes.drop i).take k)) = leNat ((v.bytes.drop i).take k))
    {rest : ℕ → Except String ℕ}
    (hrest : ∀ word, rest word
      = .ok (res + word <<< (i * 8) + leNat (v.bytes.drop (i + k)) * 256 ^ (i + k))) :
    (getWord k v i littleEndian >>= rest) = .ok (res + leNat (v.bytes.drop i) * 256 ^ i) := by
  have hlen : ((v.bytes.drop i).take k).length = k := by
    rw [List.length_take, List.length_drop, length_bytes]
    omega
  have hsplit := leNat_append ((v.bytes.drop i).take k) ((v.bytes.drop i).drop k)
  rw [List.take_append_drop, hlen, List.drop_drop] at hsplit
  rw [getWord_of_le h, hword]
  show rest _ = _
  rw [hrest, hsplit, shiftLeft_bytes, pow_add]
  exact congrArg Except.ok (by ring)

theorem leBuff2intLoop_eq {i : ℕ} (res : ℕ) (hi : i ≤ v.byteLength) :
    leBuff2intLoop v res i = .ok (res + leNat (v.bytes.drop i) * 256 ^ i) := by
  fun_induction leBuff2intLoop v res i with
  | case1 res i hlt h4 ih => exact leRead_word h4 rfl fun word => ih word h4
  | case2 res i hlt h4 h2 ih => exact leRead_word h2 rfl fun word => ih word h2
  | case3 res i hlt h4 h2 ih =>
      refine leRead_word hlt ?_ fun word => ih word hlt
      -- one byte is read the same in either order
      obtain ⟨b, hb⟩ : ∃ b, (v.bytes.drop i).take 1 = [b] := by
        apply List.length_eq_one_iff.mp
        rw [List.length_take, List.length_drop, length_bytes]
        omega
      rw [hb]
      simp [beNat, leNat]
  | case4 res i hlt =>
      rw [List.drop_eq_nil_of_le (by rw [length_bytes]; omega)]
      simp

/-- **`leBuff2int` READS THE WINDOW**, lowest byte first. -/
theorem leBuff2int_eq (buff : ByteView) : leBuff2int buff = .ok (leNat buff.bytes : ℤ) := by
  rw [leBuff2int, leBuff2intLoop_eq 0 (Nat.zero_le _)]
  simp [pure, Except.pure, bind, Except.bind]

/-- One word, then the rest: the bytes up to `i`, and what was read after it. -/
theorem beRead_word {k i offset res : ℕ} (hk : k ≤ i) (h : i ≤ v.byteLength)
    {rest : ℕ → Except String ℕ}
    (hrest : ∀ word, rest word = .ok (res + word <<< (offset * 8) +
      beNat (v.bytes.take (i - k)) * 256 ^ (offset + k))) :
    (getWord k v (i - k) false >>= rest)
      = .ok (res + beNat (v.bytes.take i) * 256 ^ offset) := by
  have hword : ((v.bytes.drop (i - k)).take k).length = k := by
    rw [List.length_take, List.length_drop, length_bytes]
    omega
  have hsplit := beNat_append (v.bytes.take (i - k)) ((v.bytes.drop (i - k)).take k)
  rw [← List.take_add, Nat.sub_add_cancel hk, hword] at hsplit
  rw [getWord_of_le (by omega)]
  show rest (beNat _) = _
  rw [hrest, hsplit, shiftLeft_bytes, pow_add]
  exact congrArg Except.ok (by ring)

theorem beBuff2intLoop_eq {i : ℕ} (res offset : ℕ) (hi : i ≤ v.byteLength) :
    beBuff2intLoop v res i offset = .ok (res + beNat (v.bytes.take i) * 256 ^ offset) := by
  fun_induction beBuff2intLoop v res i offset with
  | case1 res i offset hlt h4 ih => exact beRead_word h4 hi fun word => ih word (by omega)
  | case2 res i offset hlt h4 h2 ih => exact beRead_word h2 hi fun word => ih word (by omega)
  | case3 res i offset hlt h4 h2 ih => exact beRead_word hlt hi fun word => ih word (by omega)
  | case4 res i offset hlt =>
      rw [Nat.eq_zero_of_not_pos hlt]
      simp

/-- **`beBuff2int` READS THE WINDOW**, lowest byte last. -/
theorem beBuff2int_eq (buff : ByteView) : beBuff2int buff = .ok (beNat buff.bytes : ℤ) := by
  rw [beBuff2int, beBuff2intLoop_eq 0 0 le_rfl, List.take_of_length_le (by rw [length_bytes])]
  simp [pure, Except.pure, bind, Except.bind]

end Reading

/-! ## Writing -/

section Writing

variable {v : ByteView}

/-- From `o` on the view now shows the low bytes of the number, lowest first; what is left
    of the number comes with it. -/
def WritesFrom (v : ByteView) (o : ℕ) (r : ℤ) (written : Except String (ByteView × ℤ)) :
    Prop :=
  ∃ v', written = .ok (v', r / 256 ^ (v.byteLength - o)) ∧ v'.byteLength = v.byteLength ∧
    v'.bytes = v.bytes.take o ++ lowBytes (v.byteLength - o) r

/-- One word, then the rest. -/
theorem writesFrom_word {k o : ℕ} (h : o + k ≤ v.byteLength) {r m : ℤ} (hm : m = 256 ^ k)
    {littleEndian : Bool} (hword : wordBytes k (r % m).toNat littleEndian = lowBytes k r)
    {rest : ByteView → Except String (ByteView × ℤ)}
    (hrest : ∀ v' : ByteView, v'.byteLength = v.byteLength →
      WritesFrom v' (o + k) (r / m) (rest v')) :
    WritesFrom v o r (setWord k v o (r % m).toNat littleEndian >>= rest) := by
  obtain ⟨v₁, hset, hlen₁, hbytes₁⟩ := setWord_of_le h (r % m).toNat littleEndian
  obtain ⟨v₂, hok, hlen₂, hbytes₂⟩ := hrest v₁ hlen₁
  have hleft : v.byteLength - o = k + (v.byteLength - (o + k)) := by omega
  have htake : v₁.bytes.take (o + k) = v.bytes.take o ++ lowBytes k r := by
    have hcut : (v.bytes.take o ++ lowBytes k r).length = o + k := by
      rw [List.length_append, List.length_take, length_bytes, length_lowBytes]
      omega
    rw [hbytes₁, hword, ← hcut, List.take_left]
  refine ⟨v₂, ?_, hlen₂.trans hlen₁, ?_⟩
  · rw [hset, hleft, pow_add, ← Int.ediv_ediv_of_nonneg (by positivity), ← hm, ← hlen₁]
    exact hok
  · rw [hbytes₂, htake, hlen₁, hm, hleft, lowBytes_add, List.append_assoc]

theorem leInt2BuffLoop_writes {len o : ℕ} (r : ℤ) (hlen : v.byteLength = len) (ho : o ≤ len) :
    WritesFrom v o r (leInt2BuffLoop len v r o) := by
  fun_induction leInt2BuffLoop len v r o with
  | case1 v r o hlt h4 ih =>
      subst hlen
      exact writesFrom_word h4 (by norm_num) rfl fun v' hv' => ih v' hv' h4
  | case2 v r o hlt h4 h2 ih =>
      subst hlen
      exact writesFrom_word h2 (by norm_num) rfl fun v' hv' => ih v' hv' h2
  | case3 v r o hlt h4 h2 ih =>
      subst hlen
      exact writesFrom_word hlt (by norm_num) rfl fun v' hv' => ih v' hv' hlt
  | case4 v r o hlt =>
      have hleft : v.byteLength - o = 0 := by omega
      refine ⟨v, ?_, rfl, ?_⟩
      · rw [hleft, pow_zero, Int.ediv_one]
      · rw [hleft, List.take_of_length_le (by rw [length_bytes]; omega)]
        exact (List.append_nil _).symm

/-- Up to `o` the view now shows the low bytes of the number, lowest last. -/
def WritesUpTo (v : ByteView) (o : ℕ) (r : ℤ) (written : Except String (ByteView × ℤ)) :
    Prop :=
  ∃ v', written = .ok (v', r / 256 ^ o) ∧ v'.byteLength = v.byteLength ∧
    v'.bytes = (lowBytes o r).reverse ++ v.bytes.drop o

/-- One word, then the rest. -/
theorem writesUpTo_word {k o : ℕ} (hk : k ≤ o) (ho : o ≤ v.byteLength) {r m : ℤ}
    (hm : m = 256 ^ k) (hword : wordBytes k (r % m).toNat false = (lowBytes k r).reverse)
    {rest : ByteView → Except String (ByteView × ℤ)}
    (hrest : ∀ v' : ByteView, v'.byteLength = v.byteLength →
      WritesUpTo v' (o - k) (r / m) (rest v')) :
    WritesUpTo v o r (setWord k v (o - k) (r % m).toNat false >>= rest) := by
  obtain ⟨v₁, hset, hlen₁, hbytes₁⟩ :=
    setWord_of_le (v := v) (k := k) (i := o - k) (by omega) (r % m).toNat false
  obtain ⟨v₂, hok, hlen₂, hbytes₂⟩ := hrest v₁ hlen₁
  have hall : o = k + (o - k) := by omega
  have hdrop : v₁.bytes.drop (o - k) = (lowBytes k r).reverse ++ v.bytes.drop o := by
    have hcut : (v.bytes.take (o - k)).length = o - k := by
      rw [List.length_take, length_bytes]
      omega
    rw [hbytes₁, hword, Nat.sub_add_cancel hk, List.append_assoc]
    exact List.drop_left' hcut
  refine ⟨v₂, ?_, hlen₂.trans hlen₁, ?_⟩
  · rw [hall, pow_add, ← Int.ediv_ediv_of_nonneg (by positivity), ← hm, ← hall, hset]
    exact hok
  · rw [hbytes₂, hdrop, hm]
    conv_rhs => rw [hall, lowBytes_add, List.reverse_append, ← hall]
    rw [List.append_assoc]

theorem beInt2BuffLoop_writes {o : ℕ} (r : ℤ) (ho : o ≤ v.byteLength) :
    WritesUpTo v o r (beInt2BuffLoop v r o) := by
  fun_induction beInt2BuffLoop v r o with
  | case1 v r o hlt h4 ih =>
      exact writesUpTo_word h4 ho (by norm_num) rfl fun v' hv' => ih v' (by omega)
  | case2 v r o hlt h4 h2 ih =>
      exact writesUpTo_word h2 ho (by norm_num) rfl fun v' hv' => ih v' (by omega)
  | case3 v r o hlt h4 h2 ih =>
      exact writesUpTo_word hlt ho (by norm_num) rfl fun v' hv' => ih v' (by omega)
  | case4 v r o hlt =>
      rw [Nat.eq_zero_of_not_pos hlt]
      exact ⟨v, by rw [pow_zero, Int.ediv_one], rfl, rfl⟩

/-- A number that fits is written as these bytes, and no other is. -/
structure Writes (n : ℤ) (len : ℕ) (bs : List UInt8) (written : Except String ByteView) :
    Prop where
  fits : 0 ≤ n → n < 256 ^ len →
    ∃ b, written = .ok b ∧ b.byteLength = len ∧ b.bytes = bs
  fails : ¬ (0 ≤ n ∧ n < 256 ^ len) → written = .error doesNotFit

/-- Nothing is left of a number exactly if it fits. -/
theorem ediv_eq_zero_iff_fits {n : ℤ} {len : ℕ} :
    n / 256 ^ len = 0 ↔ 0 ≤ n ∧ n < 256 ^ len := by
  have hpos : (0 : ℤ) < 256 ^ len := by positivity
  constructor
  · intro h
    have hmod := Int.emod_add_mul_ediv n (256 ^ len)
    rw [h, mul_zero, add_zero] at hmod
    exact ⟨hmod ▸ Int.emod_nonneg n hpos.ne', hmod ▸ Int.emod_lt_of_pos n hpos⟩
  · rintro ⟨h0, hlt⟩
    exact Int.ediv_eq_zero_of_lt h0 hlt

namespace Writes

variable {n : ℤ} {len : ℕ} {bs : List UInt8} {written : Except String ByteView}

/-- The check at the end of either writer. -/
theorem of_left {loop : Except String (ByteView × ℤ)} {b : ByteView}
    (hloop : loop = .ok (b, n / 256 ^ len)) (hlen : b.byteLength = len) :
    Writes n len b.bytes (do
      let (buff, r) ← loop
      if r ≠ 0 then .error doesNotFit else .ok buff) where
  fits h0 hlt := by
    refine ⟨b, ?_, hlen, rfl⟩
    rw [hloop]
    exact if_neg (not_not.mpr (ediv_eq_zero_iff_fits.mpr ⟨h0, hlt⟩))
  fails hnot := by
    rw [hloop]
    exact if_pos (mt ediv_eq_zero_iff_fits.mp hnot)

theorem of_ok (h : Writes n len bs written) {b : ByteView} (hb : written = .ok b) :
    (0 ≤ n ∧ n < 256 ^ len) ∧ b.byteLength = len ∧ b.bytes = bs := by
  by_cases hfits : 0 ≤ n ∧ n < 256 ^ len
  · obtain ⟨b', hb', hlen, hbytes⟩ := h.fits hfits.1 hfits.2
    obtain rfl := Except.ok.inj (hb.symm.trans hb')
    exact ⟨hfits, hlen, hbytes⟩
  · exact nomatch (h.fails hfits).symm.trans hb

theorem ok_iff (h : Writes n len bs written) :
    (∃ b, written = .ok b) ↔ 0 ≤ n ∧ n < 256 ^ len := by
  constructor
  · rintro ⟨b, hb⟩
    exact (h.of_ok hb).1
  · rintro ⟨h0, hlt⟩
    obtain ⟨b, hb, -⟩ := h.fits h0 hlt
    exact ⟨b, hb⟩

end Writes

/-- **`leInt2Buff` WRITES WHAT FITS**, lowest byte first. -/
theorem leInt2Buff_writes (n : ℤ) (len : ℕ) :
    Writes n len (lowBytes len n) (leInt2Buff n (some len)) := by
  obtain ⟨b, hloop, hlen, hbytes⟩ :=
    leInt2BuffLoop_writes (v := zeros len) n rfl (Nat.zero_le len)
  have hall : b.bytes = lowBytes len n := hbytes
  rw [← hall]
  exact .of_left hloop hlen

/-- **`beInt2Buff` WRITES WHAT FITS**, lowest byte last. -/
theorem beInt2Buff_writes (n : ℤ) (len : ℕ) :
    Writes n len (lowBytes len n).reverse (beInt2Buff n len) := by
  obtain ⟨b, hloop, hlen, hbytes⟩ := beInt2BuffLoop_writes (v := zeros len) n le_rfl
  have hall : b.bytes = (lowBytes len n).reverse := by
    rw [hbytes, List.drop_eq_nil_of_le (length_bytes _).le, List.append_nil]
    rfl
  rw [← hall]
  exact .of_left hloop hlen

example : (beInt2Buff 0x1020304050607 7).map bytes = .ok [1, 2, 3, 4, 5, 6, 7] := by
  decide +kernel

end Writing

/-! ## Both ways -/

theorem leBuff2int_leInt2Buff {n : ℤ} {len : ℕ} {b : ByteView}
    (h : leInt2Buff n (some len) = .ok b) : leBuff2int b = .ok n := by
  obtain ⟨⟨h0, hlt⟩, -, hbytes⟩ := (leInt2Buff_writes n len).of_ok h
  rw [leBuff2int_eq, hbytes, leNat_lowBytes h0 hlt]

theorem beBuff2int_beInt2Buff {n : ℤ} {len : ℕ} {b : ByteView}
    (h : beInt2Buff n len = .ok b) : beBuff2int b = .ok n := by
  obtain ⟨⟨h0, hlt⟩, -, hbytes⟩ := (beInt2Buff_writes n len).of_ok h
  rw [beBuff2int_eq, hbytes, beNat_reverse, leNat_lowBytes h0 hlt]

/-- An array is written back from its number, also where it was part of a larger
    buffer. -/
theorem leInt2Buff_leBuff2int (b : ByteView) :
    ∃ n b', leBuff2int b = .ok n ∧ leInt2Buff n (some b.byteLength) = .ok b' ∧
      b'.bytes = b.bytes := by
  have hlt : (leNat b.bytes : ℤ) < 256 ^ b.byteLength := by
    rw [← length_bytes b]
    exact_mod_cast leNat_lt b.bytes
  obtain ⟨b', hok, -, hbytes⟩ := (leInt2Buff_writes _ _).fits (Int.natCast_nonneg _) hlt
  exact ⟨_, b', leBuff2int_eq b, hok, hbytes.trans (lowBytes_leNat (length_bytes b))⟩

theorem beInt2Buff_beBuff2int (b : ByteView) :
    ∃ n b', beBuff2int b = .ok n ∧ beInt2Buff n b.byteLength = .ok b' ∧
      b'.bytes = b.bytes := by
  have hlt : (beNat b.bytes : ℤ) < 256 ^ b.byteLength := by
    rw [← length_bytes b]
    exact_mod_cast beNat_lt b.bytes
  obtain ⟨b', hok, -, hbytes⟩ := (beInt2Buff_writes _ _).fits (Int.natCast_nonneg _) hlt
  have hreverse : lowBytes b.byteLength (beNat b.bytes) = b.bytes.reverse := by
    rw [← leNat_reverse]
    exact lowBytes_leNat (by rw [List.length_reverse, length_bytes])
  refine ⟨_, b', beBuff2int_eq b, hok, ?_⟩
  rw [hbytes, hreverse, List.reverse_reverse]

/-- **THE CONVERSIONS ARE INVERSE**, in either byte order and for every length: what fits
    is written and read back, an array's bytes come back from its number, and the two
    orders are each other's mirror image. -/
theorem conversions_inverse (len : ℕ) :
    (∀ n : ℤ, ((∃ b, leInt2Buff n (some len) = .ok b) ↔ 0 ≤ n ∧ n < 256 ^ len) ∧
      ((∃ b, beInt2Buff n len = .ok b) ↔ 0 ≤ n ∧ n < 256 ^ len)) ∧
    (∀ n b, (leInt2Buff n (some len) = .ok b → b.byteLength = len ∧ leBuff2int b = .ok n) ∧
      (beInt2Buff n len = .ok b → b.byteLength = len ∧ beBuff2int b = .ok n)) ∧
    (∀ b : ByteView, b.byteLength = len →
      (∃ n b', leBuff2int b = .ok n ∧ leInt2Buff n (some len) = .ok b' ∧ b'.bytes = b.bytes) ∧
      ∃ n b', beBuff2int b = .ok n ∧ beInt2Buff n len = .ok b' ∧ b'.bytes = b.bytes) ∧
    (∀ n le be, leInt2Buff n (some len) = .ok le → beInt2Buff n len = .ok be →
      be.bytes = le.bytes.reverse) ∧
    ∀ le be : ByteView, be.bytes = le.bytes.reverse → beBuff2int be = leBuff2int le := by
  refine ⟨?_, ?_, ?_, ?_, ?_⟩
  · exact fun n => ⟨(leInt2Buff_writes n len).ok_iff, (beInt2Buff_writes n len).ok_iff⟩
  · intro n b
    refine ⟨fun h => ⟨?_, leBuff2int_leInt2Buff h⟩, fun h => ⟨?_, beBuff2int_beInt2Buff h⟩⟩
    · exact ((leInt2Buff_writes n len).of_ok h).2.1
    · exact ((beInt2Buff_writes n len).of_ok h).2.1
  · rintro b rfl
    exact ⟨leInt2Buff_leBuff2int b, beInt2Buff_beBuff2int b⟩
  · intro n le be hle hbe
    rw [((beInt2Buff_writes n len).of_ok hbe).2.2, ((leInt2Buff_writes n len).of_ok hle).2.2]
  · intro le be h
    rw [beBuff2int_eq, leBuff2int_eq, h, beNat_reverse]

/-- Three bytes, in the middle of a buffer of five. -/
def shared : ByteView := ⟨[9, 1, 2, 3, 9], 1, 3, by decide⟩

theorem conversions_inverse_three :
    ∃ le be n b', leInt2Buff 258 (some 3) = .ok le ∧ beInt2Buff 258 3 = .ok be ∧
      leBuff2int le = .ok 258 ∧ beBuff2int be = .ok 258 ∧ be.bytes = le.bytes.reverse ∧
      beBuff2int be = leBuff2int le ∧ beBuff2int shared = .ok n ∧
      beInt2Buff n 3 = .ok b' ∧ b'.bytes = [1, 2, 3] := by
  obtain ⟨hok, hback, hbytes, hmirror, hread⟩ := conversions_inverse 3
  obtain ⟨le, hle⟩ := (hok 258).1.mpr (by decide)
  obtain ⟨be, hbe⟩ := (hok 258).2.mpr (by decide)
  obtain ⟨n, b', hn, hb', hsame⟩ := (hbytes shared rfl).2
  have hrev := hmirror 258 le be hle hbe
  exact ⟨le, be, n, b', hle, hbe, ((hback 258 le).1 hle).2, ((hback 258 be).2 hbe).2, hrev,
    hread le be hrev, hn, hb', hsame⟩

/-! ## No length given -/

/-- The least length that a number fits in, one at least. -/
theorem defaultLength_natCast (n : ℕ) :
    ∃ len, defaultLength n = some len ∧ ∀ l, len ≤ l ↔ 0 < l ∧ n < 256 ^ l := by
  have hfits : ∀ l, n < 256 ^ l ↔ n.size ≤ 8 * l := by
    intro l
    rw [Nat.size_le, pow_mul]
    norm_num
  rw [defaultLength, Scalar.bitLength_natCast]
  refine ⟨_, rfl, fun l => ?_⟩
  rw [hfits]
  show (if (((n.size : ℤ) - 1) / 8 + 1).toNat = 0 then 1
    else (((n.size : ℤ) - 1) / 8 + 1).toNat) ≤ l ↔ _
  split <;> omega

/-- **WITHOUT A LENGTH** no number is refused but a negative one, and the array is as short
    as it can be. -/
theorem leInt2Buff_none (n : ℤ) :
    (n < 0 → leInt2Buff n none = .error doesNotFit) ∧
      (0 ≤ n → ∃ b, leInt2Buff n none = .ok b ∧ leBuff2int b = .ok n ∧
        ∀ l, b.byteLength ≤ l ↔ 0 < l ∧ n < 256 ^ l) := by
  refine ⟨fun hneg => ?_, fun h0 => ?_⟩
  · have hnan : defaultLength n = none := by
      rw [defaultLength, Scalar.bitLength, if_pos hneg]
      rfl
    have hempty : leInt2Buff n none = leInt2Buff n (some 0) := by
      rw [leInt2Buff, hnan]
      rfl
    rw [hempty]
    exact (leInt2Buff_writes n 0).fails fun h => absurd h.1 (by omega)
  · obtain ⟨m, rfl⟩ := Int.eq_ofNat_of_zero_le h0
    obtain ⟨len, hlen, hleast⟩ := defaultLength_natCast m
    have hgiven : leInt2Buff m none = leInt2Buff m (some len) := by
      rw [leInt2Buff, hlen]
      rfl
    obtain ⟨hpos, hlt⟩ := (hleast len).mp le_rfl
    obtain ⟨b, hok, hbytes, -⟩ :=
      (leInt2Buff_writes m len).fits h0 (by exact_mod_cast hlt)
    refine ⟨b, hgiven.trans hok, leBuff2int_leInt2Buff hok, fun l => ?_⟩
    rw [hbytes, hleast]
    norm_cast

/-! ## Along what is left -/

/-- **THE LOOPS OVER OFFSETS REFINE** those along what is left of the bytes: no word lies
    outside its view. -/
theorem leBuff2int_refines (b : ByteView) :
    leBuff2int b = .ok (FfUtils.leBuff2int b.bytes) := by
  rw [leBuff2int_eq, FfUtils.leBuff2int_eq]

theorem beBuff2int_refines (b : ByteView) :
    beBuff2int b = .ok (FfUtils.beBuff2int b.bytes) := by
  rw [beBuff2int_eq, FfUtils.beBuff2int_eq]

theorem leInt2Buff_refines (n : ℤ) (len : ℕ) :
    (leInt2Buff n (some len)).map bytes = FfUtils.leInt2Buff n len := by
  have hwrites := leInt2Buff_writes n len
  rw [FfUtils.leInt2Buff, FfUtils.leInt2BuffLoop_eq]
  by_cases hfits : 0 ≤ n ∧ n < 256 ^ len
  · obtain ⟨b, hok, -, hbytes⟩ := hwrites.fits hfits.1 hfits.2
    rw [hok, ← hbytes]
    exact (if_neg (not_not.mpr (ediv_eq_zero_iff_fits.mpr hfits))).symm
  · rw [hwrites.fails hfits]
    exact (if_pos (mt ediv_eq_zero_iff_fits.mp hfits)).symm

end ByteLoops

end Albus.Core
