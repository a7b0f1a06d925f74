import Albus.Core.Zkp
import Albus.Lib.ArrayHeap

/-! # Decoding arrays that others hold

    The decoders of `zkp.ts` again, on the arrays of an account that has been loaded:
    `slice`, `map` and `Array.from` make new arrays, `reverse` turns an array around
    where it is.  The points are taken from copies (`decodeProof_follows`,
    `decodeVerifyingKey_follows`); `decodePublicSignals` turns the account's own arrays
    (`decoding_undisturbed_iff`). -/

namespace Albus.Core.Zkp

open Albus.Lib Albus.Lib.HeapM

namespace Arrays

/-- `number[]` of bytes. -/
abbrev Js := HeapM UInt8 String

/-- The argument of `decodeProof`. -/
structure ProofRefs where
  a : Ref
  b : Ref
  c : Ref

/-- The argument of `decodeVerifyingKey`. -/
structure VKRefs where
  curve : Option String
  protocol : Option String
  nPublic : String
  alpha : Ref
  beta : Ref
  gamma : Ref
  delta : Ref
  ic : List Ref

/-- What the arrays of a proof hold. -/
def ProofRefs.read (proof : ProofRefs) (h : ArrayHeap UInt8) : EncodedProof where
  a := h.read proof.a
  b := h.read proof.b
  c := h.read proof.c

/-- What the arrays of a key hold. -/
def VKRefs.read (data : VKRefs) (h : ArrayHeap UInt8) : EncodedVK where
  curve := data.curve
  protocol := data.protocol
  nPublic := data.nPublic
  alpha := h.read data.alpha
  beta := h.read data.beta
  gamma := h.read data.gamma
  delta := h.read data.delta
  ic := data.ic.map h.read

/-- The arrays of the proof are there. -/
def ProofRefs.Live (proof : ProofRefs) (h : ArrayHeap UInt8) : Prop :=
  proof.a < h.length ∧ proof.b < h.length ∧ proof.c < h.length

def VKRefs.Live (data : VKRefs) (h : ArrayHeap UInt8) : Prop :=
  data.alpha < h.length ∧ data.beta < h.length ∧ data.gamma < h.length ∧
    data.delta < h.length ∧ ∀ p ∈ data.ic, p < h.length

instance (proof : ProofRefs) (h : ArrayHeap UInt8) : Decidable (proof.Live h) :=
  inferInstanceAs (Decidable (_ ∧ _))

instance (data : VKRefs) (h : ArrayHeap UInt8) : Decidable (data.Live h) :=
  inferInstanceAs (Decidable (_ ∧ _))

/-! ## The decoders -/

/-- `bytes.slice(lo, hi)`. -/
def slice (bytes : Ref) (lo hi : ℕ) : Js Ref := do
  let xs ← contents bytes
  alloc (Zkp.slice xs lo hi)

/-- `bytes.slice(lo)`. -/
def sliceFrom (bytes : Ref) (lo : ℕ) : Js Ref := do
  let xs ← contents bytes
  alloc (xs.drop lo)

/-- `bytes.slice(lo, hi).reverse()`. -/
def sliceReverse (bytes : Ref) (lo hi : ℕ) : Js Ref := do
  let xs ← contents bytes
  alloc (Zkp.slice xs lo hi) >>= reverse

/-- `Array.from`. -/
def arrayFrom (input : Ref) : Js Ref := do
  let xs ← contents input
  alloc xs

def bytesToFinite (bytes : Ref) : Js ℤ := do
  let buff ← arrayFrom bytes
  let xs ← contents buff
  pure (FfUtils.leBuff2int xs)

def altBn128G1Neg (input : Ref) : Js Ref := do
  let p ← arrayFrom input
  let x ← slice p 0 32
  let y ← sliceFrom p 32
  let xs ← contents x
  let ys ← contents y
  let n ← lift (Utils.bytesToBigInt ys)
  let negated ← lift (Utils.bigintToBytes (F1Field.neg bn128PrimeField n) 32)
  alloc (xs ++ negated)

def decodeG1 (bytes : Ref) : Js (List ℤ) := do
  let xs ← contents bytes
  if xs.length < 64 then lift (.error "G1 point must be 64 long")
  else do
    let lo ← sliceReverse bytes 0 32
    let x ← bytesToFinite lo
    let hi ← sliceReverse bytes 32 64
    let y ← bytesToFinite hi
    pure [x, y, 1]

/-- One turn of the loop of `decodeG2`. -/
def decodeChunk (bytes : Ref) (i : ℕ) : Js (ℤ × ℤ) := do
  let chunk ← sliceReverse bytes i (i + 64)
  let lo ← slice chunk 0 32
  let re ← bytesToFinite lo
  let hi ← slice chunk 32 64
  let im ← bytesToFinite hi
  pure (re, im)

def decodeG2 (bytes : Ref) : Js (List (ℤ × ℤ)) := do
  let xs ← contents bytes
  if xs.length < 128 then lift (.error "G2 point must be 128 long")
  else do
    let result ← (List.range ((xs.length + 63) / 64)).mapM fun k => decodeChunk bytes (64 * k)
    pure (result ++ [(1, 0)])

def decodeProof (proof : ProofRefs) : Js ProofData := do
  let a ← altBn128G1Neg proof.a
  let piA ← decodeG1 a
  let piB ← decodeG2 proof.b
  let piC ← decodeG1 proof.c
  pure { piA, piB, piC }

def decodePublicSignals (publicSignals : List Ref) : Js (List ℤ) :=
  publicSignals.mapM fun s => do
    -- no copy: the array of the signal itself
    let turned ← reverse s
    bytesToFinite turned

def decodeVerifyingKey (data : VKRefs) : Js VK := do
  let vkAlpha1 ← decodeG1 data.alpha
  let vkBeta2 ← decodeG2 data.beta
  let vkGamma2 ← decodeG2 data.gamma
  let vkDelta2 ← decodeG2 data.delta
  let ic ← data.ic.mapM decodeG1
  pure
    { curve := data.curve.getD "bn128"
      protocol := data.protocol.getD "groth16"
      nPublic := data.ic.length - 1
      vkAlpha1, vkBeta2, vkGamma2, vkDelta2, ic }

/-! ## Points are taken from copies -/

section Points

variable {h : ArrayHeap UInt8} {a : Ref} {xs : List UInt8}

theorem contents_follows (ha : Holds h a xs) : Follows h Same (contents a : Js _) (.ok xs) := by
  rw [← ha.2]
  exact Follows.contents_same a

theorem slice_follows (ha : Holds h a xs) (lo hi : ℕ) :
    Follows h Holds (slice a lo hi) (.ok (Zkp.slice xs lo hi)) := by
  refine Follows.bind_ok (contents_follows ha) ?_
  rintro h' _ _ rfl
  exact Follows.alloc_holds _

theorem sliceFrom_follows (ha : Holds h a xs) (lo : ℕ) :
    Follows h Holds (sliceFrom a lo) (.ok (xs.drop lo)) := by
  refine Follows.bind_ok (contents_follows ha) ?_
  rintro h' _ _ rfl
  exact Follows.alloc_holds _

theorem sliceReverse_follows (ha : Holds h a xs) (lo hi : ℕ) :
    Follows h Holds (sliceReverse a lo hi) (.ok (Zkp.slice xs lo hi).reverse) := by
  refine Follows.bind_ok (contents_follows ha) ?_
  rintro h' _ _ rfl
  exact Follows.alloc_reverse_holds _

theorem arrayFrom_follows (ha : Holds h a xs) : Follows h Holds (arrayFrom a) (.ok xs) := by
  refine Follows.bind_ok (contents_follows ha) ?_
  rintro h' _ _ rfl
  exact Follows.alloc_holds _

theorem bytesToFinite_follows (ha : Holds h a xs) :
    Follows h Same (bytesToFinite a) (.ok (Zkp.bytesToFinite xs)) := by
  refine Follows.bind_ok (arrayFrom_follows ha) ?_
  intro h' buff _ hbuff
  refine Follows.bind_ok (contents_follows hbuff) ?_
  rintro h'' _ _ rfl
  exact Follows.pure_same _

theorem altBn128G1Neg_follows (ha : Holds h a xs) :
    Follows h Holds (altBn128G1Neg a) (Zkp.altBn128G1Neg xs) := by
  refine Follows.bind_ok (arrayFrom_follows ha) ?_
  intro h₁ p _ hp
  refine Follows.bind_ok (slice_follows hp 0 32) ?_
  intro h₂ x hle₂ hx
  refine Follows.bind_ok (sliceFrom_follows (hp.mono hle₂) 32) ?_
  intro h₃ y hle₃ hy
  refine Follows.bind_ok (contents_follows (hx.mono hle₃)) ?_
  rintro h₄ _ hle₄ rfl
  refine Follows.bind_ok (contents_follows (hy.mono hle₄)) ?_
  rintro h₅ _ _ rfl
  refine Follows.bind (Follows.lift_same _) ?_
  rintro h₆ n _ _ rfl
  refine Follows.bind (Follows.lift_same _) ?_
  rintro h₇ negated _ _ rfl
  exact Follows.alloc_holds _

theorem decodeG1_follows (ha : Holds h a xs) :
    Follows h Same (decodeG1 a) (Zkp.decodeG1 xs) := by
  refine Follows.bind_ok (contents_follows ha) ?_
  rintro h₁ _ hle₁ rfl
  rw [Zkp.decodeG1]
  split
  · exact Follows.lift_same _
  · have ha₁ := ha.mono hle₁
    refine Follows.bind_ok (sliceReverse_follows ha₁ 0 32) ?_
    intro h₂ lo hle₂ hlo
    refine Follows.bind_ok (bytesToFinite_follows hlo) ?_
    rintro h₃ _ hle₃ rfl
    have ha₃ := (ha₁.mono hle₂).mono hle₃
    refine Follows.bind_ok (sliceReverse_follows ha₃ 32 64) ?_
    intro h₄ hi _ hhi
    refine Follows.bind_ok (bytesToFinite_follows hhi) ?_
    rintro h₅ _ _ rfl
    exact Follows.pure_same _

theorem decodeChunk_follows (ha : Holds h a xs) (i : ℕ) :
    Follows h Same (decodeChunk a i) (.ok (Zkp.decodeChunk xs i)) := by
  refine Follows.bind_ok (sliceReverse_follows ha i (i + 64)) ?_
  intro h₁ chunk _ hchunk
  refine Follows.bind_ok (slice_follows hchunk 0 32) ?_
  intro h₂ lo hle₂ hlo
  refine Follows.bind_ok (bytesToFinite_follows hlo) ?_
  rintro h₃ _ hle₃ rfl
  refine Follows.bind_ok
    (slice_follows ((hchunk.mono hle₂).mono hle₃) 32 64) ?_
  intro h₄ hi _ hhi
  refine Follows.bind_ok (bytesToFinite_follows hhi) ?_
  rintro h₅ _ _ rfl
  exact Follows.pure_same _

theorem decodeG2_follows (ha : Holds h a xs) :
    Follows h Same (decodeG2 a) (Zkp.decodeG2 xs) := by
  refine Follows.bind_ok (contents_follows ha) ?_
  intro h₁ ys hle₁ hys
  rw [show ys = xs from hys, Zkp.decodeG2]
  split
  · exact Follows.lift_same _
  · refine Follows.bind_ok (Follows.mapM_ok (g := fun k => Zkp.decodeChunk xs (64 * k)) ?_) ?_
    · intro k _ h' hle
      exact decodeChunk_follows ((ha.mono hle₁).mono hle) (64 * k)
    · rintro h₂ _ _ rfl
      exact Follows.pure_same _

/-- **`decodeProof` FOLLOWS THE CODEC**, and adds arrays only. -/
theorem decodeProof_follows {proof : ProofRefs} (bytes : EncodedProof)
    (ha : Holds h proof.a bytes.a) (hb : Holds h proof.b bytes.b)
    (hc : Holds h proof.c bytes.c) :
    Follows h Same (decodeProof proof) (Zkp.decodeProof bytes) := by
  refine Follows.bind (altBn128G1Neg_follows ha) ?_
  intro h₁ a xs hle₁ ha₁
  refine Follows.bind (decodeG1_follows ha₁) ?_
  rintro h₂ piA _ hle₂ rfl
  refine Follows.bind (decodeG2_follows ((hb.mono hle₁).mono hle₂)) ?_
  rintro h₃ piB _ hle₃ rfl
  refine Follows.bind
    (decodeG1_follows (((hc.mono hle₁).mono hle₂).mono hle₃)) ?_
  rintro h₄ piC _ _ rfl
  exact Follows.pure_same _

/-- **`decodeVerifyingKey` FOLLOWS THE CODEC**, and adds arrays only. -/
theorem decodeVerifyingKey_follows {data : VKRefs} (hdata : data.Live h) :
    ∀ h', h <+: h' → Follows h' Same (decodeVerifyingKey data)
      (Zkp.decodeVerifyingKey (data.read h)) := by
  intro h₀ hle₀
  obtain ⟨halpha, hbeta, hgamma, hdelta, hic⟩ := hdata
  have hholds : ∀ r < h.length, ∀ h', h <+: h' → Holds h' r (h.read r) :=
    fun r hr h' hle => Holds.mono hle ⟨hr, rfl⟩
  refine Follows.bind (decodeG1_follows (hholds _ halpha _ hle₀)) ?_
  rintro h₁ vkAlpha1 _ hle₁ rfl
  have hle := hle₀.trans hle₁
  refine Follows.bind (decodeG2_follows (hholds _ hbeta _ hle)) ?_
  rintro h₂ vkBeta2 _ hle₂ rfl
  replace hle := hle.trans hle₂
  refine Follows.bind (decodeG2_follows (hholds _ hgamma _ hle)) ?_
  rintro h₃ vkGamma2 _ hle₃ rfl
  replace hle := hle.trans hle₃
  refine Follows.bind (decodeG2_follows (hholds _ hdelta _ hle)) ?_
  rintro h₄ vkDelta2 _ hle₄ rfl
  replace hle := hle.trans hle₄
  have hic : Follows h₄ Same (data.ic.mapM decodeG1) ((data.read h).ic.mapM Zkp.decodeG1) := by
    show Follows h₄ Same _ ((data.ic.map h.read).mapM Zkp.decodeG1)
    rw [List.mapM_map]
    exact Follows.mapM fun p hp h' hle' =>
      decodeG1_follows (hholds p (hic p hp) h' (hle.trans hle'))
  refine Follows.bind hic ?_
  rintro h₅ ic _ _ rfl
  have hlength : ((data.read h).ic.length : ℤ) = data.ic.length := by
    rw [VKRefs.read, List.length_map]
  rw [hlength]
  exact Follows.pure_same _

theorem decodeProof_undisturbed {proof : ProofRefs} (hproof : proof.Live h) :
    Undisturbed (decodeProof proof) h :=
  Undisturbed.of_follows fun _ hle => decodeProof_follows (proof.read h)
    (Holds.mono hle ⟨hproof.1, rfl⟩) (Holds.mono hle ⟨hproof.2.1, rfl⟩)
    (Holds.mono hle ⟨hproof.2.2, rfl⟩)

theorem decodeVerifyingKey_undisturbed {data : VKRefs} (hdata : data.Live h) :
    Undisturbed (decodeVerifyingKey data) h :=
  Undisturbed.of_follows (decodeVerifyingKey_follows hdata)

end Points

/-! ## Signals are turned where they are -/

section Signals

/-- One signal: its array is turned, and a copy of it is made. -/
theorem decodeSignal_run (h : ArrayHeap UInt8) (s : Ref) :
    (do
      let turned ← reverse s
      bytesToFinite turned : Js ℤ) h
      = (.ok (Zkp.bytesToFinite (h.read s).reverse),
          h.modify s List.reverse ++ [(h.read s).reverse]) := by
  have hread : ArrayHeap.read (h.modify s List.reverse) s = (h.read s).reverse := by
    rw [ArrayHeap.read_modify_reverse, Function.update_self]
  show (Except.ok (FfUtils.leBuff2int (ArrayHeap.read (h.modify s List.reverse
      ++ [ArrayHeap.read (h.modify s List.reverse) s]) (h.modify s List.reverse).length)),
    h.modify s List.reverse ++ [ArrayHeap.read (h.modify s List.reverse) s]) = _
  rw [ArrayHeap.read_append_length, hread]
  rfl

/-- **WHAT IS READ, AND WHAT IS LEFT.** -/
theorem decodePublicSignals_run {signals : List Ref} {h : ArrayHeap UInt8}
    (hlive : ∀ s ∈ signals, s < h.length) :
    (decodePublicSignals signals h).1
        = .ok (readTurning Zkp.bytesToFinite h.read signals) ∧
      h.length ≤ (decodePublicSignals signals h).2.length ∧
      ∀ a < h.length, ArrayHeap.read (decodePublicSignals signals h).2 a
        = turnAll h.read signals a := by
  induction signals generalizing h with
  | nil => exact ⟨rfl, Nat.le_refl _, fun _ _ => rfl⟩
  | cons s signals ih =>
      -- the heap after the first signal
      obtain ⟨h₁, hh₁⟩ : ∃ h₁ : ArrayHeap UInt8,
          h₁ = h.modify s List.reverse ++ [(h.read s).reverse] := ⟨_, rfl⟩
      have hlength : h₁.length = h.length + 1 := by
        rw [hh₁, List.length_append, List.length_modify, List.length_singleton]
      have hread : ∀ a < h.length,
          h₁.read a = Function.update h.read s (h.read s).reverse a := by
        intro a ha
        rw [hh₁, ← ArrayHeap.read_modify_reverse]
        exact ArrayHeap.read_mono (List.prefix_append _ _) (by rwa [List.length_modify])
      have hlive₁ : ∀ t ∈ signals, t < h.length :=
        fun t ht => hlive t (List.mem_cons_of_mem s ht)
      obtain ⟨hvalues, hle, hturned⟩ :=
        ih (h := h₁) fun t ht => Nat.lt_of_lt_of_le (hlive₁ t ht) (by omega)
      have hrun : decodePublicSignals (s :: signals) h
          = (.ok (readTurning Zkp.bytesToFinite h.read (s :: signals)),
              (decodePublicSignals signals h₁).2) := by
        have hrest : decodePublicSignals signals h₁
            = (.ok (readTurning Zkp.bytesToFinite h₁.read signals),
                (decodePublicSignals signals h₁).2) := Prod.ext hvalues rfl
        rw [readTurning_congr fun a ha => hread a (hlive₁ a ha)] at hrest
        have hfirst := decodeSignal_run h s
        rw [← hh₁] at hfirst
        rw [decodePublicSignals, List.mapM_cons, bind_apply_ok hfirst]
        exact bind_apply_ok hrest
      rw [hrun]
      refine ⟨rfl, ?_, ?_⟩
      · show h.length ≤ (decodePublicSignals signals h₁).2.length
        omega
      · intro a ha
        show ArrayHeap.read (decodePublicSignals signals h₁).2 a = _
        rw [hturned a (by omega), turnAll, turnAll_apply, turnAll_apply, hread a ha]

theorem bytesToFinite_reverse_inj (xs : List UInt8)
    (h : Zkp.bytesToFinite xs = Zkp.bytesToFinite xs.reverse) : xs.reverse = xs := by
  rw [Zkp.bytesToFinite, Zkp.bytesToFinite, FfUtils.leBuff2int_eq, FfUtils.leBuff2int_eq] at h
  exact (leNat_inj (List.length_reverse).symm (Int.ofNat_inj.mp h)).symm

/-- Every array of the list is listed an even number of times, or reads the same both
    ways. -/
def TurnedBack (h : ArrayHeap UInt8) (signals : List Ref) : Prop :=
  ∀ s ∈ signals, Even (signals.count s) ∨ (h.read s).reverse = h.read s

variable {signals : List Ref} {h : ArrayHeap UInt8}

/-- After the signals have been decoded, any computation that ends in a heap with the
    same arrays finds them turned: decoding gives the same again just if they are back. -/
theorem decodePublicSignals_again_iff (hlive : ∀ s ∈ signals, s < h.length)
    {h' : ArrayHeap UInt8} (hle : h.length ≤ h'.length)
    (hturned : ∀ a < h.length, h'.read a = turnAll h.read signals a) :
    (decodePublicSignals signals h').1 = (decodePublicSignals signals h).1 ↔
      TurnedBack h signals := by
  have hlive' : ∀ s ∈ signals, s < h'.length :=
    fun s hs => Nat.lt_of_lt_of_le (hlive s hs) hle
  rw [(decodePublicSignals_run hlive').1, (decodePublicSignals_run hlive).1,
    readTurning_congr fun s hs => hturned s (hlive s hs), Except.ok.injEq]
  exact readTurning_again_iff bytesToFinite_reverse_inj h.read signals

theorem decodePublicSignals_undisturbed_iff (hlive : ∀ s ∈ signals, s < h.length) :
    Undisturbed (decodePublicSignals signals) h ↔ TurnedBack h signals := by
  obtain ⟨-, hle, hturned⟩ := decodePublicSignals_run hlive
  constructor
  · intro hundisturbed
    exact (decodePublicSignals_again_iff hlive hle hturned).mp hundisturbed.again
  · intro hback
    refine ⟨?_, (decodePublicSignals_again_iff hlive hle hturned).mpr hback⟩
    intro a ha
    rw [hturned a ha, turnAll_eq_iff]
    by_cases hmem : a ∈ signals
    · exact hback a hmem
    · rw [List.count_eq_zero_of_not_mem hmem]
      exact Or.inl ⟨0, rfl⟩

/-- **WHEN DECODING LEAVES ITS INPUT ALONE.**  Keys and proofs always do. -/
theorem decoding_undisturbed_iff {data : VKRefs} {proof : ProofRefs} (hdata : data.Live h)
    (hproof : proof.Live h) (hlive : ∀ s ∈ signals, s < h.length) :
    (Undisturbed (decodeVerifyingKey data) h ∧ Undisturbed (decodeProof proof) h ∧
        Undisturbed (decodePublicSignals signals) h) ↔
      ∀ s ∈ signals, Even (signals.count s) ∨ (h.read s).reverse = h.read s := by
  rw [decodePublicSignals_undisturbed_iff hlive]
  constructor
  · rintro ⟨-, -, hback⟩
    exact hback
  · intro hback
    exact ⟨decodeVerifyingKey_undisturbed hdata, decodeProof_undisturbed hproof, hback⟩

end Signals

/-! ## `ProofRequestManager.verify` -/

/-- The fields of a loaded proof request that are read. -/
structure LoadedRequest where
  proof : Option ProofRefs
  publicInputs : List Ref

/-- `verify`, once request and circuit are loaded; `verifyProof` is snarkjs. -/
def verify (verifyProof : VK → ProofData → List ℤ → Bool) (vk : VKRefs)
    (proofRequest : LoadedRequest) : Js Bool :=
  match proofRequest.proof with
  | none => lift (.error "Unable to verify the request, probably it's not proved")
  | some proofRefs => do
    let vk ← decodeVerifyingKey vk
    let proof ← decodeProof proofRefs
    let publicInput ← decodePublicSignals proofRequest.publicInputs
    pure (verifyProof vk proof publicInput)

/-- **VERIFYING TURNS THE SIGNALS OF THE REQUEST.**  Decoding them afterwards gives
    what it gives before just if they are back as they were. -/
theorem verify_then_decode_iff {verifyProof : VK → ProofData → List ℤ → Bool}
    {h : ArrayHeap UInt8} {data : VKRefs} {proof : ProofRefs} {publicInputs : List Ref}
    (hdata : data.Live h) (hproof : proof.Live h) (hlive : ∀ s ∈ publicInputs, s < h.length)
    {vk : VK} (hvk : Zkp.decodeVerifyingKey (data.read h) = .ok vk) {proofData : ProofData}
    (hproofData : Zkp.decodeProof (proof.read h) = .ok proofData) :
    (decodePublicSignals publicInputs
        (verify verifyProof data ⟨some proof, publicInputs⟩ h).2).1
      = (decodePublicSignals publicInputs h).1 ↔ TurnedBack h publicInputs := by
  -- the key and the proof add arrays only
  obtain ⟨hle₁, hkey⟩ := Follows.same_iff.mp (decodeVerifyingKey_follows hdata h List.prefix_rfl)
  obtain ⟨h₁, hrun₁⟩ : ∃ h₁, decodeVerifyingKey data h = (.ok vk, h₁) :=
    ⟨_, Prod.ext (hkey.trans hvk) rfl⟩
  rw [hrun₁] at hle₁
  obtain ⟨hle₂, hdecoded⟩ := Follows.same_iff.mp (decodeProof_follows (h := h₁)
    (proof.read h) (Holds.mono hle₁ ⟨hproof.1, rfl⟩)
    (Holds.mono hle₁ ⟨hproof.2.1, rfl⟩) (Holds.mono hle₁ ⟨hproof.2.2, rfl⟩))
  obtain ⟨h₂, hrun₂⟩ : ∃ h₂, decodeProof proof h₁ = (.ok proofData, h₂) :=
    ⟨_, Prod.ext (hdecoded.trans hproofData) rfl⟩
  rw [hrun₂] at hle₂
  have hle : h <+: h₂ := hle₁.trans hle₂
  have hlive₂ : ∀ s ∈ publicInputs, s < h₂.length :=
    fun s hs => Nat.lt_of_lt_of_le (hlive s hs) hle.length_le
  obtain ⟨hvalues, hlength, hturned⟩ := decodePublicSignals_run hlive₂
  obtain ⟨h₃, hrun₃⟩ : ∃ h₃, decodePublicSignals publicInputs h₂
      = (.ok (readTurning Zkp.bytesToFinite (ArrayHeap.read h₂) publicInputs), h₃) :=
    ⟨_, Prod.ext hvalues rfl⟩
  have hverify : (verify verifyProof data ⟨some proof, publicInputs⟩ h).2 = h₃ := by
    show ((decodeVerifyingKey data >>= _) h).2 = _
    rw [bind_apply_ok hrun₁, bind_apply_ok hrun₂, bind_apply_ok hrun₃]
    rfl
  rw [hrun₃] at hlength hturned
  rw [hverify]
  refine decodePublicSignals_again_iff hlive (hle.length_le.trans hlength) ?_
  intro a ha
  rw [hturned a (Nat.lt_of_lt_of_le ha hle.length_le), turnAll_apply, turnAll_apply,
    ArrayHeap.read_mono hle ha]

/-! ## A signal decoded twice -/

namespace Sample

/-- A point of each group at the origin, and the signal 1 as a proof request keeps it. -/
def heap : ArrayHeap UInt8 :=
  [List.replicate 64 0, List.replicate 128 0, beBytes 32 1]

def vk : VKRefs :=
  { curve := none
    protocol := none
    nPublic := "1"
    alpha := 0
    beta := 1
    gamma := 1
    delta := 1
    ic := [0, 0] }

def proof : ProofRefs := ⟨0, 1, 0⟩

/-- For the signal once both sides are false; listed twice, it is turned back. -/
theorem decoding_undisturbed_iff_one :
    ((Undisturbed (decodeVerifyingKey vk) heap ∧ Undisturbed (decodeProof proof) heap ∧
        Undisturbed (decodePublicSignals [2]) heap) ↔
      ∀ s ∈ [2], Even (List.count s [2]) ∨
        (ArrayHeap.read heap s).reverse = ArrayHeap.read heap s) ∧
    Undisturbed (decodeVerifyingKey vk) heap ∧ Undisturbed (decodeProof proof) heap ∧
      Undisturbed (decodePublicSignals [2, 2]) heap :=
  ⟨decoding_undisturbed_iff (by decide) (by decide) (by decide),
    (decoding_undisturbed_iff (by decide) (by decide) (by decide)).mpr (by decide)⟩

/-- The second time it is 2^248. -/
theorem decoding_disturbs :
    (decodePublicSignals [2] heap).1 = .ok [1] ∧
      (decodePublicSignals [2] (decodePublicSignals [2] heap).2).1 = .ok [2 ^ 248] ∧
      ArrayHeap.read (decodePublicSignals [2] heap).2 2 ≠ ArrayHeap.read heap 2 := by
  decide +kernel

end Sample

end Arrays

end Albus.Core.Zkp
