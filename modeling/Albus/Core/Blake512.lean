import Albus.Lib.BlockBuffer
import Albus.Lib.LittleEndian
import Albus.Lib.WordHalves

/-! # `crypto/blake.ts`

    The source keeps every 64-bit word as two numbers of 32 bits, high half first, the bit
    count as four such numbers, low one first, and what does not fill a block in a buffer of
    128 bytes.  `>>> 0` is a `BitVec 32` here; a sum is one of natural numbers until then. -/

namespace Albus.Core

open Albus.Lib

/-- Half a word. -/
abbrev Half := BitVec 32

namespace Blake512

def sigma : List (List ℕ) := [
  [0, 1, 2, 3, 4, 5, 6, 7, 8, 9, 10, 11, 12, 13, 14, 15],
  [14, 10, 4, 8, 9, 15, 13, 6, 1, 12, 0, 2, 11, 7, 5, 3],
  [11, 8, 12, 0, 5, 2, 15, 13, 10, 14, 3, 6, 7, 1, 9, 4],
  [7, 9, 3, 1, 13, 12, 11, 14, 2, 6, 5, 10, 4, 0, 15, 8],
  [9, 0, 5, 7, 2, 4, 10, 15, 14, 1, 11, 12, 6, 8, 3, 13],
  [2, 12, 6, 10, 0, 11, 8, 3, 4, 13, 7, 5, 15, 14, 1, 9],
  [12, 5, 1, 15, 14, 13, 4, 10, 0, 7, 6, 3, 9, 2, 8, 11],
  [13, 11, 7, 14, 12, 1, 3, 9, 5, 0, 15, 4, 8, 6, 2, 10],
  [6, 15, 14, 9, 11, 3, 0, 8, 12, 2, 13, 7, 1, 4, 10, 5],
  [10, 2, 8, 4, 7, 6, 1, 5, 15, 11, 9, 14, 3, 12, 13, 0],
  [0, 1, 2, 3, 4, 5, 6, 7, 8, 9, 10, 11, 12, 13, 14, 15],
  [14, 10, 4, 8, 9, 15, 13, 6, 1, 12, 0, 2, 11, 7, 5, 3],
  [11, 8, 12, 0, 5, 2, 15, 13, 10, 14, 3, 6, 7, 1, 9, 4],
  [7, 9, 3, 1, 13, 12, 11, 14, 2, 6, 5, 10, 4, 0, 15, 8],
  [9, 0, 5, 7, 2, 4, 10, 15, 14, 1, 11, 12, 6, 8, 3, 13],
  [2, 12, 6, 10, 0, 11, 8, 3, 4, 13, 7, 5, 15, 14, 1, 9]]

def u512 : Vector Half 32 := #v[
  0x243F6A88, 0x85A308D3, 0x13198A2E, 0x03707344, 0xA4093822, 0x299F31D0, 0x082EFA98, 0xEC4E6C89,
  0x452821E6, 0x38D01377, 0xBE5466CF, 0x34E90C6C, 0xC0AC29B7, 0xC97C50DD, 0x3F84D5B5, 0xB5470917,
  0x9216D5D9, 0x8979FB1B, 0xD1310BA6, 0x98DFB5AC, 0x2FFD72DB, 0xD01ADFB7, 0xB8E1AFED, 0x6A267E96,
  0xBA7C9045, 0xF12C7F99, 0x24A19947, 0xB3916CF7, 0x0801F2E2, 0x858EFC16, 0x636920D8, 0x71574E69]

/-- The halves that the constructor sets `_h` to. -/
def initial : Vector Half 16 := #v[
  0x6A09E667, 0xF3BCC908, 0xBB67AE85, 0x84CAA73B, 0x3C6EF372, 0xFE94F82B, 0xA54FF53A,
  0x5F1D36F1, 0x510E527F, 0xADE682D1, 0x9B05688C, 0x2B3E6C1F, 0x1F83D9AB, 0xFB41BD6B,
  0x5BE0CD19, 0x137E2179]

def zo : List UInt8 := [0x01]

def oo : List UInt8 := [0x81]

/-- `Blake512.padding`, of 129 bytes. -/
def padding : List UInt8 := 0x80 :: List.replicate 128 0

/-! ## Arithmetic on halves -/

/-- An element of an array; every index that the source reads is in bounds. -/
def get {n : ℕ} (v : Vector Half n) (i : ℕ) : Half := v[i]?.getD 0

/-- The two numbers of a rotation by `n`. -/
def rotHalves (hi lo : Half) (n : ℕ) : Half × Half :=
  if n = 0 then (hi, lo)
  else (hi >>> n ||| lo <<< (32 - n), lo >>> n ||| hi <<< (32 - n))

/-- Three exclusive ors exchange `hi` and `lo` where `n` is 32 or more. -/
def swapped (hi lo : Half) : Half × Half :=
  let lo := lo ^^^ hi
  let hi := lo ^^^ hi
  let lo := lo ^^^ hi
  (hi, lo)

def rot (v : Vector Half 32) (i j n : ℕ) : Vector Half 32 :=
  let hi := get v (i * 2) ^^^ get v (j * 2)
  let lo := get v (i * 2 + 1) ^^^ get v (j * 2 + 1)
  let r :=
    if 32 ≤ n then rotHalves (swapped hi lo).1 (swapped hi lo).2 (n - 32) else rotHalves hi lo n
  (v.setIfInBounds (i * 2) r.1).setIfInBounds (i * 2 + 1) r.2

/-- The assignments of a sum to `v[a]`: the sum of the low halves is `lo`. -/
def setSum (v : Vector Half 32) (a hi lo : ℕ) : Vector Half 32 :=
  (v.setIfInBounds (a * 2) (BitVec.ofNat 32 (hi + lo / 2 ^ 32))).setIfInBounds (a * 2 + 1)
    (BitVec.ofNat 32 lo)

/-- `v[a] += (m[x] ^ u512[y]) + v[b]`. -/
def addMessage (v m : Vector Half 32) (a b x y : ℕ) : Vector Half 32 :=
  setSum v a
    ((get v (a * 2)).toNat + (get m (x * 2) ^^^ get u512 (y * 2)).toNat + (get v (b * 2)).toNat)
    ((get v (a * 2 + 1)).toNat + (get m (x * 2 + 1) ^^^ get u512 (y * 2 + 1)).toNat
      + (get v (b * 2 + 1)).toNat)

/-- `v[c] += v[d]`. -/
def addWord (v : Vector Half 32) (c d : ℕ) : Vector Half 32 :=
  setSum v c ((get v (c * 2)).toNat + (get v (d * 2)).toNat)
    ((get v (c * 2 + 1)).toNat + (get v (d * 2 + 1)).toNat)

/-- `v[i * 2] ^= hi` and `v[i * 2 + 1] ^= lo`. -/
def xorWord {n : ℕ} (v : Vector Half n) (i : ℕ) (hi lo : Half) : Vector Half n :=
  let v := v.setIfInBounds (i * 2) (get v (i * 2) ^^^ hi)
  v.setIfInBounds (i * 2 + 1) (get v (i * 2 + 1) ^^^ lo)

/-- `sigma[i][e]`. -/
def sigmaAt (i e : ℕ) : ℕ := (sigma.getD i []).getD e 0

def g (m v : Vector Half 32) (i a b c d e : ℕ) : Vector Half 32 :=
  let v := addMessage v m a b (sigmaAt i e) (sigmaAt i (e + 1))
  let v := rot v d a 32
  let v := addWord v c d
  let v := rot v b c 25
  let v := addMessage v m a b (sigmaAt i (e + 1)) (sigmaAt i e)
  let v := rot v d a 16
  let v := addWord v c d
  rot v b c 11

/-! ## The object -/

end Blake512

/-- `new Uint8Array(128)` and what is counted.  An entry of `_length` is below zero while
    the padding is counted back. -/
structure Blake512 where
  h : Vector Half 16
  s : Vector Half 8
  block : List UInt8
  blockOffset : ℕ
  length : List ℤ
  nullt : Bool
  length_block : block.length = 128
  offset_lt : blockOffset < 128

namespace Blake512

def new : Blake512 where
  h := initial
  s := Vector.replicate 8 0
  block := List.replicate 128 0
  blockOffset := 0
  length := [0, 0, 0, 0]
  nullt := false
  length_block := List.length_replicate
  offset_lt := by omega

/-- The loop of `_lengthCarry` from an entry to which `c` was added.  A carry out of the last
    entry would make the array longer. -/
def carryFrom (c : ℤ) : List ℤ → List ℤ
  | [] => []
  | x :: arr => if x + c < 2 ^ 32 then (x + c) :: arr else (x + c - 2 ^ 32) :: carryFrom 1 arr

def lengthCarry (arr : List ℤ) : List ℤ := carryFrom 0 arr

/-- `arr[0] += n`. -/
def addFirst (arr : List ℤ) (n : ℤ) : List ℤ := arr.set 0 (arr.getD 0 0 + n)

/-- `dataView.getUint32(i * 4)`. -/
def getUint32 (block : List UInt8) (i : ℕ) : Half :=
  BitVec.ofNat 32 (beNat ((block.drop (i * 4)).take 4))

/-- The halves of `v` before the rounds. -/
def start (h : Vector Half 16) (s : Vector Half 8) (length : List ℤ) (nullt : Bool) :
    Vector Half 32 :=
  let v := Vector.ofFn fun i : Fin 32 =>
    if (i : ℕ) < 16 then get h i
    else if (i : ℕ) < 24 then get s (i - 16) ^^^ get u512 (i - 16)
    else get u512 (i - 16)
  -- the bit count enters the last four words
  let count := fun j => BitVec.ofInt 32 (length.getD j 0)
  if nullt then v
  else
    let v := xorWord v 12 (count 1) (count 0)
    let v := xorWord v 13 (count 1) (count 0)
    let v := xorWord v 14 (count 3) (count 2)
    xorWord v 15 (count 3) (count 2)

/-- The eight calls of `g` in a round: the columns and the diagonals. -/
def round (m v : Vector Half 32) (i : ℕ) : Vector Half 32 :=
  let v := g m v i 0 4 8 12 0
  let v := g m v i 1 5 9 13 2
  let v := g m v i 2 6 10 14 4
  let v := g m v i 3 7 11 15 6
  let v := g m v i 0 5 10 15 8
  let v := g m v i 1 6 11 12 10
  let v := g m v i 2 7 8 13 12
  g m v i 3 4 9 14 14

/-- What `_compress` leaves in `_h`. -/
def compressed (h : Vector Half 16) (s : Vector Half 8) (length : List ℤ) (nullt : Bool)
    (block : List UInt8) : Vector Half 16 :=
  let m := Vector.ofFn fun i : Fin 32 => getUint32 block i
  let v := (List.range 16).foldl (round m) (start h s length nullt)
  let h := (List.range 16).foldl
    (fun h i => xorWord h (i % 8) (get v (i * 2)) (get v (i * 2 + 1))) h
  (List.range 8).foldl
    (fun h i => xorWord h i (get s (i % 4 * 2)) (get s (i % 4 * 2 + 1))) h

def update (b : Blake512) (data : List UInt8) : Blake512 :=
  if hfull : 128 ≤ b.blockOffset + data.length then
    let part := data.take (128 - b.blockOffset)
    let block := overwrite b.block b.blockOffset part
    let length := lengthCarry (addFirst b.length (128 * 8))
    update
      { b with
        block := block
        length := length
        h := compressed b.h b.s length b.nullt block
        blockOffset := 0
        length_block := by
          rw [length_overwrite, b.length_block]
          have := b.offset_lt
          rw [List.length_take, b.length_block]
          omega
        offset_lt := by omega }
      (data.drop (128 - b.blockOffset))
  else
    { b with
      block := overwrite b.block b.blockOffset data
      blockOffset := b.blockOffset + data.length
      length_block := by
        rw [length_overwrite, b.length_block]
        rw [b.length_block]
        omega
      offset_lt := by omega }
termination_by b.blockOffset + data.length
decreasing_by
  rw [List.length_drop]
  have := b.offset_lt
  omega

/-- `this._length[0] -= n`. -/
def countBack (b : Blake512) (n : ℕ) : Blake512 := { b with length := addFirst b.length (-n) }

def setNullt (b : Blake512) : Blake512 := { b with nullt := true }

/-- The bit count, high byte first. -/
def msglen (b : Blake512) : List UInt8 :=
  let len := lengthCarry (addFirst b.length ((b.blockOffset * 8 : ℕ) : ℤ))
  ((List.range 4).map fun i => beBytes 4 (BitVec.ofInt 32 (len.getD (3 - i) 0)).toNat).flatten

/-- The part of `_padding` up to the second one. -/
def padOnes (b : Blake512) : Blake512 :=
  if b.blockOffset = 111 then (b.countBack 8).update oo
  else
    let b :=
      if b.blockOffset < 111 then
        let n := 111 - b.blockOffset
        let b := if b.blockOffset = 0 then b.setNullt else b
        (b.countBack (n * 8)).update (padding.take n)
      else
        let n := 128 - b.blockOffset
        let b := (b.countBack (n * 8)).update (padding.take n)
        let b := (b.countBack (111 * 8)).update ((padding.drop 1).take 111)
        b.setNullt
    (b.update zo).countBack 8

/-- `_padding`. -/
def pad (b : Blake512) : Blake512 := (b.padOnes.countBack 128).update b.msglen

def digest (b : Blake512) : List UInt8 :=
  ((List.range 16).map fun i => beBytes 4 (get b.pad.h i).toNat).flatten

end Blake512

end Albus.Core
