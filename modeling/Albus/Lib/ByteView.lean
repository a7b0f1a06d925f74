import Albus.Lib.LittleEndian

/-! # Views of byte buffers

    A typed array of bytes is a window of a buffer, and so is a view of it.  A view
    reads and writes words in either byte order, and refuses a word that does not lie
    in its window. -/

namespace Albus.Lib

/-- A window of a buffer. -/
structure ByteView where
  buffer : List UInt8
  byteOffset : ℕ
  byteLength : ℕ
  inside : byteOffset + byteLength ≤ buffer.length

namespace ByteView

/-- A new array of zeros, with a buffer of its own. -/
def zeros (len : ℕ) : ByteView where
  buffer := List.replicate len 0
  byteOffset := 0
  byteLength := len
  inside := by rw [List.length_replicate, Nat.zero_add]

/-- What the window shows. -/
def bytes (v : ByteView) : List UInt8 := (v.buffer.drop v.byteOffset).take v.byteLength

def outOfBounds : String := "Offset is outside the bounds of the DataView"

/-- The word of `k` bytes at `i`. -/
def getWord (k : ℕ) (v : ByteView) (i : ℕ) (littleEndian : Bool) : Except String ℕ :=
  if i + k ≤ v.byteLength then
    let word := (v.buffer.drop (v.byteOffset + i)).take k
    .ok (if littleEndian then leNat word else beNat word)
  else .error outOfBounds

def getUint32 : ByteView → ℕ → Bool → Except String ℕ := getWord 4

def getUint16 : ByteView → ℕ → Bool → Except String ℕ := getWord 2

/-- One byte has no order. -/
def getUint8 (v : ByteView) (i : ℕ) : Except String ℕ := getWord 1 v i false

/-- `k` bytes as a word, in either order. -/
def wordBytes (k value : ℕ) (littleEndian : Bool) : List UInt8 :=
  if littleEndian then leBytes k value else beBytes k value

theorem length_wordBytes (k value : ℕ) (littleEndian : Bool) :
    (wordBytes k value littleEndian).length = k := by
  cases littleEndian with
  | false => exact length_beBytes k value
  | true => exact length_leBytes k value

/-- The view after a word of `k` bytes is written at `i`. -/
def setWord (k : ℕ) (v : ByteView) (i value : ℕ) (littleEndian : Bool) :
    Except String ByteView :=
  if h : i + k ≤ v.byteLength then
    .ok
      { v with
        buffer := v.buffer.take (v.byteOffset + i) ++ wordBytes k value littleEndian ++
          v.buffer.drop (v.byteOffset + i + k)
        inside := by
          have hinside := v.inside
          rw [List.length_append, List.length_append, length_wordBytes, List.length_take,
            List.length_drop]
          omega }
  else .error outOfBounds

def setUint32 : ByteView → ℕ → ℕ → Bool → Except String ByteView := setWord 4

def setUint16 : ByteView → ℕ → ℕ → Bool → Except String ByteView := setWord 2

def setUint8 (v : ByteView) (i value : ℕ) : Except String ByteView := setWord 1 v i value false

@[simp] theorem length_bytes (v : ByteView) : v.bytes.length = v.byteLength := by
  have hinside := v.inside
  rw [bytes, List.length_take, List.length_drop]
  omega

/-- A window of the window. -/
theorem take_drop_bytes (v : ByteView) {k i : ℕ} (h : i + k ≤ v.byteLength) :
    (v.bytes.drop i).take k = (v.buffer.drop (v.byteOffset + i)).take k := by
  rw [bytes, List.drop_take, List.take_take, List.drop_drop, Nat.min_eq_left (by omega)]

/-- **A WORD IN THE WINDOW** is read, from the bytes the window shows. -/
theorem getWord_of_le {v : ByteView} {k i : ℕ} (h : i + k ≤ v.byteLength)
    (littleEndian : Bool) :
    getWord k v i littleEndian
      = .ok (if littleEndian then leNat ((v.bytes.drop i).take k)
          else beNat ((v.bytes.drop i).take k)) := by
  rw [getWord, if_pos h, take_drop_bytes v h]

/-- **A WORD IN THE WINDOW** is written there, and the window shows the rest as before. -/
theorem setWord_of_le {v : ByteView} {k i : ℕ} (h : i + k ≤ v.byteLength) (value : ℕ)
    (littleEndian : Bool) :
    ∃ v' : ByteView, setWord k v i value littleEndian = .ok v' ∧
      v'.byteLength = v.byteLength ∧
      v'.bytes = v.bytes.take i ++ wordBytes k value littleEndian ++ v.bytes.drop (i + k) := by
  refine ⟨_, dif_pos h, rfl, ?_⟩
  have hinside := v.inside
  have hbefore : (v.buffer.take (v.byteOffset + i)).drop v.byteOffset = v.bytes.take i := by
    rw [bytes, List.take_take, Nat.min_eq_left (by omega), List.drop_take, Nat.add_sub_cancel_left]
  have hafter : (v.buffer.drop (v.byteOffset + i + k)).take (v.byteLength - (i + k))
      = v.bytes.drop (i + k) := by
    rw [bytes, List.drop_take, List.drop_drop, Nat.add_assoc]
  have hoffset : v.byteOffset ≤ (v.buffer.take (v.byteOffset + i)).length := by
    rw [List.length_take]
    omega
  have hlen : (v.bytes.take i ++ wordBytes k value littleEndian).length = i + k := by
    rw [List.length_append, List.length_take, length_bytes, length_wordBytes]
    omega
  show ((v.buffer.take (v.byteOffset + i) ++ wordBytes k value littleEndian ++
    v.buffer.drop (v.byteOffset + i + k)).drop v.byteOffset).take v.byteLength = _
  rw [List.append_assoc, List.drop_append_of_le_length hoffset, hbefore, ← List.append_assoc,
    List.take_append, hlen, hafter, List.take_of_length_le (by rw [hlen]; exact h)]

end ByteView

end Albus.Lib
