import Albus.Core.ByteCodecs

/-! # Groth16 data as bytes

    The codecs of `zkp.ts`, between the decimal numbers of snarkjs and the byte
    layout of the `alt_bn128` syscalls: big-endian coordinates, the two
    components of an `Fp2` coordinate in the other order, and the first point of
    a proof with its `y` negated.  A projective point keeps its third coordinate
    only on the client: the encoders drop it, the decoders put one. -/

namespace Albus.Core

open Albus.Lib

/-- `F1Field::neg` of the field of order `p`. -/
def F1Field.neg (p a : ℤ) : ℤ := if a ≠ 0 then p - a else a

namespace Zkp

def bn128PrimeField : ℕ :=
  21888242871839275222246405745257275088696311157297823662689037894645226208583

/-- snarkjs `ProofData`. -/
structure ProofData where
  piA : List ℤ
  piB : List (ℤ × ℤ)
  piC : List ℤ
  deriving DecidableEq

/-- snarkjs `VK`. -/
structure VK where
  curve : String
  protocol : String
  nPublic : ℤ
  vkAlpha1 : List ℤ
  vkBeta2 : List (ℤ × ℤ)
  vkGamma2 : List (ℤ × ℤ)
  vkDelta2 : List (ℤ × ℤ)
  ic : List (List ℤ)
  deriving DecidableEq

/-- What `encodeProof` returns. -/
structure EncodedProof where
  a : List UInt8
  b : List UInt8
  c : List UInt8
  deriving DecidableEq

/-- What `encodeVerifyingKey` returns, and `decodeVerifyingKey` takes. -/
structure EncodedVK where
  curve : Option String
  protocol : Option String
  nPublic : String
  alpha : List UInt8
  beta : List UInt8
  gamma : List UInt8
  delta : List UInt8
  ic : List (List UInt8)
  deriving DecidableEq

/-- `bytes.slice(lo, hi)`. -/
def slice (bytes : List UInt8) (lo hi : ℕ) : List UInt8 := (bytes.take hi).drop lo

/-- `finiteToBytes`, with its default length. -/
def finiteToBytes (n : ℤ) : Except String (List UInt8) := FfUtils.leInt2Buff n 32

def bytesToFinite (bytes : List UInt8) : ℤ := FfUtils.leBuff2int bytes

def altBn128G1Neg (input : List UInt8) : Except String (List UInt8) := do
  -- `p.slice(32)` reaches to the end, whatever the length
  let y ← Utils.bytesToBigInt (input.drop 32)
  let negated ← Utils.bigintToBytes (F1Field.neg bn128PrimeField y) 32
  .ok (slice input 0 32 ++ negated)

def encodeG1 (p : List ℤ) : Except String (List UInt8) := do
  let bytes ← p.foldlM (fun a b => do
    let n ← finiteToBytes b
    .ok (a ++ n.reverse)) []
  -- `z` is written like the others, and cut off
  .ok (slice bytes 0 64)

def encodeG2 (p : List (ℤ × ℤ)) : Except String (List UInt8) := do
  let bytes ← p.foldlM (fun a b => do
    let b0 ← finiteToBytes b.1
    let b1 ← finiteToBytes b.2
    -- reversed as one string: the imaginary part comes first
    .ok (a ++ (b0 ++ b1).reverse)) []
  .ok (slice bytes 0 128)

def decodeG1 (bytes : List UInt8) : Except String (List ℤ) :=
  if bytes.length < 64 then .error "G1 point must be 64 long"
  else
    .ok [bytesToFinite (slice bytes 0 32).reverse, bytesToFinite (slice bytes 32 64).reverse, 1]

/-- One turn of the loop of `decodeG2`. -/
def decodeChunk (bytes : List UInt8) (i : ℕ) : ℤ × ℤ :=
  let chunk := (slice bytes i (i + 64)).reverse
  (bytesToFinite (slice chunk 0 32), bytesToFinite (slice chunk 32 64))

/-- `i` goes up to the length in steps of 64. -/
def decodeG2 (bytes : List UInt8) : Except String (List (ℤ × ℤ)) :=
  if bytes.length < 128 then .error "G2 point must be 128 long"
  else
    let result := (List.range ((bytes.length + 63) / 64)).map fun k => decodeChunk bytes (64 * k)
    .ok (result ++ [(1, 0)])

def encodeProof (payload : ProofData) : Except String EncodedProof := do
  let piA ← encodeG1 payload.piA
  let a ← altBn128G1Neg piA
  let b ← encodeG2 payload.piB
  let c ← encodeG1 payload.piC
  .ok { a, b, c }

def decodeProof (proof : EncodedProof) : Except String ProofData := do
  let a ← altBn128G1Neg proof.a
  let piA ← decodeG1 a
  let piB ← decodeG2 proof.b
  let piC ← decodeG1 proof.c
  .ok { piA, piB, piC }

def encodePublicSignals (publicSignals : List ℤ) : Except String (List (List UInt8)) :=
  publicSignals.mapM fun s => do
    let bytes ← finiteToBytes s
    .ok bytes.reverse

def decodePublicSignals (publicSignals : List (List UInt8)) : List ℤ :=
  publicSignals.map fun s => bytesToFinite s.reverse

/-- The protocol is not written. -/
def encodeVerifyingKey (data : VK) : Except String EncodedVK := do
  let alpha ← encodeG1 data.vkAlpha1
  let beta ← encodeG2 data.vkBeta2
  let gamma ← encodeG2 data.vkGamma2
  let delta ← encodeG2 data.vkDelta2
  let ic ← data.ic.mapM encodeG1
  .ok
    { curve := some data.curve
      protocol := none
      nPublic := toString data.nPublic
      alpha, beta, gamma, delta, ic }

def decodeVerifyingKey (data : EncodedVK) : Except String VK := do
  let vkAlpha1 ← decodeG1 data.alpha
  let vkBeta2 ← decodeG2 data.beta
  let vkGamma2 ← decodeG2 data.gamma
  let vkDelta2 ← decodeG2 data.delta
  let ic ← data.ic.mapM decodeG1
  .ok
    { curve := data.curve.getD "bn128"
      protocol := data.protocol.getD "groth16"
      -- counted anew; what was written for it is not read
      nPublic := data.ic.length - 1
      vkAlpha1, vkBeta2, vkGamma2, vkDelta2, ic }

/-! ## Affine points -/

/-- A coordinate in `[0, q)`. -/
def Reduced (n : ℤ) : Prop := 0 ≤ n ∧ n < bn128PrimeField

instance (n : ℤ) : Decidable (Reduced n) :=
  inferInstanceAs (Decidable (0 ≤ n ∧ n < bn128PrimeField))

/-- A point of the first group with `z = 1`. -/
def AffineG1 (p : List ℤ) : Prop := ∃ x y, p = [x, y, 1] ∧ Reduced x ∧ Reduced y

/-- A point of the second group with `z = 1`. -/
def AffineG2 (p : List (ℤ × ℤ)) : Prop :=
  ∃ x y : ℤ × ℤ, p = [x, y, (1, 0)] ∧
    Reduced x.1 ∧ Reduced x.2 ∧ Reduced y.1 ∧ Reduced y.2

structure ProofData.Affine (proof : ProofData) : Prop where
  piA : AffineG1 proof.piA
  piB : AffineG2 proof.piB
  piC : AffineG1 proof.piC

structure VK.Affine (vk : VK) : Prop where
  vkAlpha1 : AffineG1 vk.vkAlpha1
  vkBeta2 : AffineG2 vk.vkBeta2
  vkGamma2 : AffineG2 vk.vkGamma2
  vkDelta2 : AffineG2 vk.vkDelta2
  ic : ∀ p ∈ vk.ic, AffineG1 p

theorem bn128PrimeField_lt : bn128PrimeField < 256 ^ 32 := by decide

theorem Reduced.exists_nat {n : ℤ} (h : Reduced n) : ∃ m : ℕ, n = m ∧ m < bn128PrimeField := by
  obtain ⟨m, rfl⟩ := Int.eq_ofNat_of_zero_le h.1
  exact ⟨m, rfl, Int.ofNat_lt.mp h.2⟩

theorem slice_append_left {as bs : List UInt8} {n : ℕ} (h : as.length = n) :
    slice (as ++ bs) 0 n = as := by
  rw [slice, List.drop_zero, List.take_left' h]

theorem slice_append_right {as bs : List UInt8} {m n : ℕ} (h : as.length = m)
    (h' : as.length + bs.length = n) : slice (as ++ bs) m n = bs := by
  have hlen : (as ++ bs).length = n := by rw [List.length_append, h']
  rw [slice, ← hlen, List.take_length, List.drop_left' h]

theorem finiteToBytes_of_lt {n : ℕ} (h : n < 256 ^ 32) :
    finiteToBytes n = .ok (leBytes 32 n) := FfUtils.leInt2Buff_of_lt h

theorem bytesToFinite_leBytes {n : ℕ} (h : n < 256 ^ 32) :
    bytesToFinite (leBytes 32 n) = n := by
  rw [bytesToFinite, FfUtils.leBuff2int_eq, leNat_leBytes_of_lt h]

theorem bytesToFinite_reverse_beBytes {n : ℕ} (h : n < 256 ^ 32) :
    bytesToFinite (beBytes 32 n).reverse = n := by
  rw [beBytes, List.reverse_reverse, bytesToFinite_leBytes h]

/-! ## Points -/

/-- The bytes of an affine point of the first group. -/
def g1Bytes (x y : ℕ) : List UInt8 := beBytes 32 x ++ beBytes 32 y

/-- The bytes of an `Fp2` coordinate, the imaginary component first. -/
def fp2Bytes (c : ℕ × ℕ) : List UInt8 := beBytes 32 c.2 ++ beBytes 32 c.1

/-- The bytes of an affine point of the second group. -/
def g2Bytes (x y : ℕ × ℕ) : List UInt8 := fp2Bytes x ++ fp2Bytes y

@[simp] theorem length_g1Bytes (x y : ℕ) : (g1Bytes x y).length = 64 := by
  simp [g1Bytes]

@[simp] theorem length_fp2Bytes (c : ℕ × ℕ) : (fp2Bytes c).length = 64 := by
  simp [fp2Bytes]

@[simp] theorem length_g2Bytes (x y : ℕ × ℕ) : (g2Bytes x y).length = 128 := by
  simp [g2Bytes]

theorem g1Bytes_inj {x y x' y' : ℕ} (hx : x < bn128PrimeField) (hy : y < bn128PrimeField)
    (hx' : x' < bn128PrimeField) (hy' : y' < bn128PrimeField)
    (h : g1Bytes x y = g1Bytes x' y') : x = x' ∧ y = y' := by
  have hq := bn128PrimeField_lt
  obtain ⟨hleft, hright⟩ := List.append_inj h (by simp)
  exact ⟨beBytes_inj (hx.trans hq) (hx'.trans hq) hleft,
    beBytes_inj (hy.trans hq) (hy'.trans hq) hright⟩

/-- `encodeG1` on an affine point. -/
theorem encodeG1_eq {x y : ℕ} (hx : x < bn128PrimeField) (hy : y < bn128PrimeField) :
    encodeG1 [(x : ℤ), y, 1] = .ok (g1Bytes x y) := by
  have hq := bn128PrimeField_lt
  have hone : finiteToBytes 1 = .ok (leBytes 32 1) :=
    finiteToBytes_of_lt (n := 1) (by norm_num)
  rw [encodeG1]
  simp only [List.foldlM_cons, List.foldlM_nil, finiteToBytes_of_lt (hx.trans hq),
    finiteToBytes_of_lt (hy.trans hq), hone, bind, Except.bind, pure, Except.pure]
  refine congrArg Except.ok ?_
  exact slice_append_left (length_g1Bytes x y)

theorem encodeG2_eq {x y : ℕ × ℕ} (hx : x.1 < bn128PrimeField ∧ x.2 < bn128PrimeField)
    (hy : y.1 < bn128PrimeField ∧ y.2 < bn128PrimeField) :
    encodeG2 [((x.1 : ℤ), (x.2 : ℤ)), ((y.1 : ℤ), (y.2 : ℤ)), (1, 0)]
      = .ok (g2Bytes x y) := by
  have hq := bn128PrimeField_lt
  have hone : finiteToBytes 1 = .ok (leBytes 32 1) :=
    finiteToBytes_of_lt (n := 1) (by norm_num)
  have hzero : finiteToBytes 0 = .ok (leBytes 32 0) :=
    finiteToBytes_of_lt (n := 0) (by norm_num)
  rw [encodeG2]
  simp only [List.foldlM_cons, List.foldlM_nil, finiteToBytes_of_lt (hx.1.trans hq),
    finiteToBytes_of_lt (hx.2.trans hq), finiteToBytes_of_lt (hy.1.trans hq),
    finiteToBytes_of_lt (hy.2.trans hq), hone, hzero, bind, Except.bind, pure, Except.pure,
    List.reverse_append]
  refine congrArg Except.ok ?_
  exact slice_append_left (length_g2Bytes x y)

theorem decodeG1_eq {x y : ℕ} (hx : x < bn128PrimeField) (hy : y < bn128PrimeField) :
    decodeG1 (g1Bytes x y) = .ok [(x : ℤ), y, 1] := by
  have hq := bn128PrimeField_lt
  have hlen : ¬ (g1Bytes x y).length < 64 := by simp
  have hlo : slice (g1Bytes x y) 0 32 = beBytes 32 x := slice_append_left (length_beBytes _ _)
  have hhi : slice (g1Bytes x y) 32 64 = beBytes 32 y :=
    slice_append_right (length_beBytes _ _) (by simp)
  rw [decodeG1, if_neg hlen, hlo, hhi, bytesToFinite_reverse_beBytes (hx.trans hq),
    bytesToFinite_reverse_beBytes (hy.trans hq)]

/-- A chunk that holds a coordinate is read as that coordinate. -/
theorem decodeChunk_eq {bytes : List UInt8} {i : ℕ} {c : ℕ × ℕ}
    (hc : c.1 < bn128PrimeField ∧ c.2 < bn128PrimeField)
    (h : slice bytes i (i + 64) = fp2Bytes c) :
    decodeChunk bytes i = ((c.1 : ℤ), (c.2 : ℤ)) := by
  have hq := bn128PrimeField_lt
  have hchunk : (fp2Bytes c).reverse = leBytes 32 c.1 ++ leBytes 32 c.2 := by
    simp [fp2Bytes, beBytes]
  have hlo : slice (leBytes 32 c.1 ++ leBytes 32 c.2) 0 32 = leBytes 32 c.1 :=
    slice_append_left (length_leBytes _ _)
  have hhi : slice (leBytes 32 c.1 ++ leBytes 32 c.2) 32 64 = leBytes 32 c.2 :=
    slice_append_right (length_leBytes _ _) (by simp)
  rw [decodeChunk, h, hchunk]
  simp only [hlo, hhi, bytesToFinite_leBytes (hc.1.trans hq),
    bytesToFinite_leBytes (hc.2.trans hq)]

theorem decodeG2_eq {x y : ℕ × ℕ} (hx : x.1 < bn128PrimeField ∧ x.2 < bn128PrimeField)
    (hy : y.1 < bn128PrimeField ∧ y.2 < bn128PrimeField) :
    decodeG2 (g2Bytes x y)
      = .ok [((x.1 : ℤ), (x.2 : ℤ)), ((y.1 : ℤ), (y.2 : ℤ)), (1, 0)] := by
  have hlen : ¬ (g2Bytes x y).length < 128 := by simp
  have hfirst : decodeChunk (g2Bytes x y) (64 * 0) = ((x.1 : ℤ), (x.2 : ℤ)) :=
    decodeChunk_eq hx (slice_append_left (length_fp2Bytes x))
  have hsecond : decodeChunk (g2Bytes x y) (64 * 1) = ((y.1 : ℤ), (y.2 : ℤ)) :=
    decodeChunk_eq hy (slice_append_right (length_fp2Bytes x) (by simp))
  have hcount : ((g2Bytes x y).length + 63) / 64 = 2 := by simp
  rw [decodeG2, if_neg hlen, hcount]
  show Except.ok [decodeChunk (g2Bytes x y) (64 * 0), decodeChunk (g2Bytes x y) (64 * 1),
    (1, 0)] = _
  rw [hfirst, hsecond]

/-- The representative of the negated coordinate; zero stays zero. -/
def negY (y : ℕ) : ℕ := if y = 0 then 0 else bn128PrimeField - y

theorem negY_lt (y : ℕ) : negY y < bn128PrimeField := by
  have hpos : 0 < bn128PrimeField := by decide
  rw [negY]
  split <;> omega

/-- **NEGATION** of an encoded point. -/
theorem altBn128G1Neg_eq {x y : ℕ} (hy : y < bn128PrimeField) :
    altBn128G1Neg (g1Bytes x y) = .ok (g1Bytes x (negY y)) := by
  have hq := bn128PrimeField_lt
  have hdrop : (g1Bytes x y).drop 32 = beBytes 32 y := List.drop_left' (length_beBytes _ _)
  -- `BigInt("0x")` of an empty string would throw
  have hne : beBytes 32 y ≠ [] := by
    intro hnil
    have hlen := congrArg List.length hnil
    simp at hlen
  have hneg : F1Field.neg bn128PrimeField (y : ℤ) = (negY y : ℕ) := by
    rw [F1Field.neg, negY]
    by_cases h : y = 0
    · simp [h]
    · rw [if_pos (by exact_mod_cast h), if_neg h, Nat.cast_sub (Nat.le_of_lt hy)]
  rw [altBn128G1Neg, hdrop, Utils.bytesToBigInt_eq hne, beNat_beBytes_of_lt (hy.trans hq)]
  show (do
    let negated ← Utils.bigintToBytes (F1Field.neg bn128PrimeField (y : ℤ)) 32
    Except.ok (slice (g1Bytes x y) 0 32 ++ negated)) = _
  rw [hneg, Utils.bigintToBytes_of_lt (by norm_num) ((negY_lt y).trans hq)]
  refine congrArg Except.ok ?_
  rw [g1Bytes, slice_append_left (length_beBytes _ _), g1Bytes]

theorem negY_negY {y : ℕ} (hy : y < bn128PrimeField) : negY (negY y) = y := by
  rw [negY, negY]
  split <;> split <;> omega

/-! ## Round trips -/

theorem AffineG1.round_trip {p : List ℤ} (h : AffineG1 p) :
    ∃ bytes, encodeG1 p = .ok bytes ∧ decodeG1 bytes = .ok p := by
  obtain ⟨_, _, rfl, hxr, hyr⟩ := h
  obtain ⟨x, rfl, hx⟩ := hxr.exists_nat
  obtain ⟨y, rfl, hy⟩ := hyr.exists_nat
  exact ⟨_, encodeG1_eq hx hy, decodeG1_eq hx hy⟩

theorem AffineG1.round_trip_neg {p : List ℤ} (h : AffineG1 p) :
    ∃ bytes negated, encodeG1 p = .ok bytes ∧ altBn128G1Neg bytes = .ok negated ∧
      altBn128G1Neg negated = .ok bytes ∧ decodeG1 bytes = .ok p := by
  obtain ⟨_, _, rfl, hxr, hyr⟩ := h
  obtain ⟨x, rfl, hx⟩ := hxr.exists_nat
  obtain ⟨y, rfl, hy⟩ := hyr.exists_nat
  refine ⟨_, _, encodeG1_eq hx hy, altBn128G1Neg_eq hy, ?_, decodeG1_eq hx hy⟩
  rw [altBn128G1Neg_eq (negY_lt y), negY_negY hy]

theorem AffineG2.round_trip {p : List (ℤ × ℤ)} (h : AffineG2 p) :
    ∃ bytes, encodeG2 p = .ok bytes ∧ decodeG2 bytes = .ok p := by
  obtain ⟨⟨_, _⟩, ⟨_, _⟩, rfl, hr₀, hr₁, hs₀, hs₁⟩ := h
  obtain ⟨x₀, rfl, hx₀⟩ := hr₀.exists_nat
  obtain ⟨x₁, rfl, hx₁⟩ := hr₁.exists_nat
  obtain ⟨y₀, rfl, hy₀⟩ := hs₀.exists_nat
  obtain ⟨y₁, rfl, hy₁⟩ := hs₁.exists_nat
  exact ⟨_, encodeG2_eq (x := (x₀, x₁)) (y := (y₀, y₁)) ⟨hx₀, hx₁⟩ ⟨hy₀, hy₁⟩,
    decodeG2_eq ⟨hx₀, hx₁⟩ ⟨hy₀, hy₁⟩⟩

/-- A decoder that inverts an encoder on each entry inverts it on the list. -/
theorem mapM_round_trip {α β : Type} {enc : α → Except String β} {dec : β → Except String α}
    (xs : List α) (h : ∀ x ∈ xs, ∃ y, enc x = .ok y ∧ dec y = .ok x) :
    ∃ ys, xs.mapM enc = .ok ys ∧ ys.mapM dec = .ok xs ∧ ys.length = xs.length := by
  induction xs with
  | nil => exact ⟨[], rfl, rfl, rfl⟩
  | cons x xs ih =>
      obtain ⟨y, henc, hdec⟩ := h x List.mem_cons_self
      obtain ⟨ys, hencs, hdecs, hlen⟩ := ih fun x' hx' => h x' (List.mem_cons_of_mem _ hx')
      refine ⟨y :: ys, ?_, ?_, ?_⟩
      · rw [List.mapM_cons, henc, hencs]
        rfl
      · rw [List.mapM_cons, hdec, hdecs]
        rfl
      · rw [List.length_cons, List.length_cons, hlen]

/-- Signals go through one by one. -/
theorem decodePublicSignals_encode (s : List ℤ) (h : ∀ n ∈ s, 0 ≤ n ∧ n < 2 ^ 256) :
    ∃ bytes, encodePublicSignals s = .ok bytes ∧ decodePublicSignals bytes = s := by
  -- the decoder as one that could fail, to use the round trip of lists
  have hdec : ∀ bytes : List (List UInt8),
      bytes.mapM (fun b => (Except.ok (bytesToFinite b.reverse) : Except String ℤ))
        = .ok (decodePublicSignals bytes) := by
    intro bytes
    rw [decodePublicSignals]
    exact List.mapM_pure
  have hsignal : ∀ n ∈ s, ∃ b : List UInt8,
      (do
        let bytes ← finiteToBytes n
        Except.ok bytes.reverse) = .ok b ∧
      (Except.ok (bytesToFinite b.reverse) : Except String ℤ) = .ok n := by
    intro n hn
    obtain ⟨m, rfl⟩ := Int.eq_ofNat_of_zero_le (h n hn).1
    have hm : m < 256 ^ 32 := by
      have := (h m hn).2
      norm_num at this ⊢
      omega
    refine ⟨(leBytes 32 m).reverse, ?_, ?_⟩
    · simp only [finiteToBytes_of_lt hm]
      rfl
    · simp only [List.reverse_reverse, bytesToFinite_leBytes hm]
  obtain ⟨bytes, henc, hround, -⟩ := mapM_round_trip s hsignal
  refine ⟨bytes, henc, ?_⟩
  rw [hdec] at hround
  exact Except.ok.inj hround

/-- **THE CODECS LOSE NOTHING.**  A proof of affine points comes back, a key of affine
    points comes back with its number of inputs, and so does every list of signals
    that fit 256 bits. -/
theorem codecs_lossless :
    (∀ proof : ProofData, proof.Affine →
      ∃ bytes decoded, encodeProof proof = .ok bytes ∧ decodeProof bytes = .ok decoded ∧
        decoded.piA = proof.piA ∧ decoded.piB = proof.piB ∧ decoded.piC = proof.piC) ∧
    (∀ vk : VK, vk.Affine →
      ∃ bytes decoded, encodeVerifyingKey vk = .ok bytes ∧
        decodeVerifyingKey bytes = .ok decoded ∧
        decoded.vkAlpha1 = vk.vkAlpha1 ∧ decoded.vkBeta2 = vk.vkBeta2 ∧
        decoded.vkGamma2 = vk.vkGamma2 ∧ decoded.vkDelta2 = vk.vkDelta2 ∧
        decoded.ic = vk.ic ∧ decoded.nPublic = vk.ic.length - 1) ∧
    (∀ signals : List ℤ, (∀ n ∈ signals, 0 ≤ n ∧ n < 2 ^ 256) →
      ∃ bytes, encodePublicSignals signals = .ok bytes ∧
        decodePublicSignals bytes = signals) := by
  refine ⟨?_, ?_, decodePublicSignals_encode⟩
  · intro proof h
    obtain ⟨a, a', hencA, hneg, hneg', hdecA⟩ := h.piA.round_trip_neg
    obtain ⟨b, hencB, hdecB⟩ := h.piB.round_trip
    obtain ⟨c, hencC, hdecC⟩ := h.piC.round_trip
    refine ⟨⟨a', b, c⟩, proof, ?_, ?_, rfl, rfl, rfl⟩
    · simp only [encodeProof, hencA, hneg, hencB, hencC, bind, Except.bind]
    · simp only [decodeProof, hneg', hdecA, hdecB, hdecC, bind, Except.bind]
  · intro vk h
    obtain ⟨alpha, hencα, hdecα⟩ := h.vkAlpha1.round_trip
    obtain ⟨beta, hencβ, hdecβ⟩ := h.vkBeta2.round_trip
    obtain ⟨gamma, hencγ, hdecγ⟩ := h.vkGamma2.round_trip
    obtain ⟨delta, hencδ, hdecδ⟩ := h.vkDelta2.round_trip
    obtain ⟨ic, henc, hdec, hlen⟩ :=
      mapM_round_trip vk.ic fun p hp => (h.ic p hp).round_trip
    refine ⟨⟨some vk.curve, none, toString vk.nPublic, alpha, beta, gamma, delta, ic⟩,
      ⟨vk.curve, "groth16", ic.length - 1, vk.vkAlpha1, vk.vkBeta2, vk.vkGamma2, vk.vkDelta2,
        vk.ic⟩, ?_, ?_, rfl, rfl, rfl, rfl, rfl, by rw [hlen]⟩
    · simp only [encodeVerifyingKey, hencα, hencβ, hencγ, hencδ, henc, bind, Except.bind]
    · simp only [decodeVerifyingKey, hdecα, hdecβ, hdecγ, hdecδ, hdec, bind, Except.bind,
        Option.getD_some, Option.getD_none]

namespace Sample

/-- The generators of the two groups. -/
def g1 : List ℤ := [1, 2, 1]

def g2 : List (ℤ × ℤ) :=
  [(10857046999023057135944570762232829481370756359578518086990519993285655852781,
      11559732032986387107991004021392285783925812861821192530917403151452391805634),
    (8495653923123431417604973247489272438418190587263600148770280649306958101930,
      4082367875863433681332203403145435568316851327593401208105741076214120093531),
    (1, 0)]

/-- A coordinate that is zero, and one with leading zero bytes. -/
def proof : ProofData where
  piA := [0, 256, 1]
  piB := g2
  piC := g1

def vk : VK where
  curve := "bn128"
  protocol := "groth16"
  nPublic := 1
  vkAlpha1 := g1
  vkBeta2 := g2
  vkGamma2 := g2
  vkDelta2 := g2
  ic := [g1, [3, 0, 1]]

def signals : List ℤ := [0, 18, 2 ^ 256 - 1]

theorem affineG2_g2 : AffineG2 g2 :=
  ⟨_, _, rfl, by decide, by decide, by decide, by decide⟩

theorem affine_proof : proof.Affine where
  piA := ⟨0, 256, rfl, by decide, by decide⟩
  piB := affineG2_g2
  piC := ⟨1, 2, rfl, by decide, by decide⟩

theorem affine_vk : vk.Affine where
  vkAlpha1 := ⟨1, 2, rfl, by decide, by decide⟩
  vkBeta2 := affineG2_g2
  vkGamma2 := affineG2_g2
  vkDelta2 := affineG2_g2
  ic := by
    intro p hp
    rcases List.mem_cons.mp hp with rfl | hp
    · exact ⟨1, 2, rfl, by decide, by decide⟩
    · rw [List.mem_singleton.mp hp]
      exact ⟨3, 0, rfl, by decide, by decide⟩

end Sample

theorem codecs_lossless_sample :
    (∃ bytes decoded, encodeProof Sample.proof = .ok bytes ∧
      decodeProof bytes = .ok decoded ∧ decoded.piA = [0, 256, 1]) ∧
    (∃ bytes decoded, encodeVerifyingKey Sample.vk = .ok bytes ∧
      decodeVerifyingKey bytes = .ok decoded ∧ decoded.ic = Sample.vk.ic ∧
      decoded.nPublic = 1) ∧
    (∃ bytes, encodePublicSignals Sample.signals = .ok bytes ∧
      decodePublicSignals bytes = [0, 18, 2 ^ 256 - 1]) := by
  obtain ⟨bytes, decoded, henc, hdec, hA, -⟩ := codecs_lossless.1 _ Sample.affine_proof
  obtain ⟨bytes', decoded', henc', hdec', -, -, -, -, hic, hn⟩ :=
    codecs_lossless.2.1 _ Sample.affine_vk
  refine ⟨⟨bytes, decoded, henc, hdec, hA⟩, ⟨bytes', decoded', henc', hdec', hic, hn⟩, ?_⟩
  exact codecs_lossless.2.2 Sample.signals (by decide)

end Zkp

end Albus.Core
