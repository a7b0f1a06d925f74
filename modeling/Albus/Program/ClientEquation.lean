import Albus.Lib.LittleEndian
import Albus.Core.Bn128Curve
import Albus.Program.Groth16
import Mathlib.Logic.Function.Basic

/-! # One equation on both sides

    What the client encodes and what the verifier of the program then checks.
    The syscalls stay parameters; what is relied on is that they are the group
    operations and a bilinear pairing in the layout of the curve's points.  The
    verifier accepts exactly when the equation of the scheme holds. -/

namespace Albus.Program

open Albus.Lib Albus.Core Albus.Core.Bn128

/-! ## The syscalls on points -/

section Implements

variable {GT : Type*} [CommGroup GT]

/-- Pairs of points, as the pairing takes them. -/
def encodePairs (pairs : List (G1 × G2)) : List UInt8 :=
  pairs.flatMap fun p => encode1 p.1 ++ encode2 p.2

/-- The syscalls are the operations of the groups and the product of the pairings. -/
structure AltBn128.Implements (sys : AltBn128) (e : BilinearPairing G1 G2 GT) : Prop where
  addition : ∀ P Q : G1, sys.addition (encode1 P ++ encode1 Q) = some (encode1 (P + Q))
  multiplication : ∀ (P : G1) (s : Bytes 32),
    sys.multiplication (encode1 P ++ s.toList) = some (encode1 (s.toNum • P))
  pairing_one : ∀ pairs, e.prod pairs = 1 →
    sys.pairing (encodePairs pairs) = some (List.replicate 31 0 ++ [1])
  pairing_ne : ∀ pairs, e.prod pairs ≠ 1 →
    sys.pairing (encodePairs pairs) = some (List.replicate 32 0)

/-! ## What the client sends -/

/-- `Proof::new` on the bytes of `encodeProof`. -/
def Proof.ofEncoded (bytes : Zkp.EncodedProof) : Option ProofData := do
  let a ← fixedArray 64 bytes.a
  let b ← fixedArray 128 bytes.b
  let c ← fixedArray 64 bytes.c
  some { a, b, c }

/-- The key of the verifier on the bytes of `encodeVerifyingKey`. -/
def VerificationKey.ofEncoded (bytes : Zkp.EncodedVK) : Option VerificationKey := do
  let alpha ← fixedArray 64 bytes.alpha
  let beta ← fixedArray 128 bytes.beta
  let gamma ← fixedArray 128 bytes.gamma
  let delta ← fixedArray 128 bytes.delta
  let ic ← bytes.ic.mapM (fixedArray 64)
  some { alpha, beta, gamma, delta, ic }

/-- The public inputs on the bytes of `encodePublicSignals`. -/
def publicInputsOfEncoded (bytes : List (List UInt8)) : Option (List (Bytes 32)) :=
  bytes.mapM (fixedArray 32)

/-- A point with affine coordinates. -/
abbrev FiniteG1 := {P : G1 // P ≠ 0}

abbrev FiniteG2 := {Q : G2 // Q ≠ 0}

/-- The points of a snarkjs proof. -/
structure ProofPoints where
  a : FiniteG1
  b : FiniteG2
  c : FiniteG1

/-- The points of a snarkjs key. -/
structure KeyPoints where
  alpha : FiniteG1
  beta : FiniteG2
  gamma : FiniteG2
  delta : FiniteG2
  ic : List FiniteG1

def ProofPoints.toSnarkjs (proof : ProofPoints) : Zkp.ProofData where
  piA := toObject1 proof.a
  piB := toObject2 proof.b.1
  piC := toObject1 proof.c

def KeyPoints.toSnarkjs (key : KeyPoints) (nPublic : ℤ) : Zkp.VK where
  curve := "bn128"
  protocol := "groth16"
  nPublic := nPublic
  vkAlpha1 := toObject1 key.alpha
  vkBeta2 := toObject2 key.beta.1
  vkGamma2 := toObject2 key.gamma.1
  vkDelta2 := toObject2 key.delta.1
  ic := key.ic.map fun P : FiniteG1 => toObject1 P.1

/-- `IC₀ + Σ sᵢ • ICᵢ`. -/
def publicPoint : List FiniteG1 → List ℤ → G1
  | [], _ => 0
  | ic0 :: ics, signals => ic0 + (signals.zipWith (fun s (P : FiniteG1) => s • P.1) ics).sum

/-- The equation of the scheme. -/
def Groth16Equation (e : BilinearPairing G1 G2 GT) (proof : ProofPoints) (key : KeyPoints)
    (signals : List ℤ) : Prop :=
  e proof.a proof.b
    = e key.alpha key.beta * e (publicPoint key.ic signals) key.gamma * e proof.c key.delta

/-! ## Encoding -/

theorem FiniteG2.encodeG2 (Q : FiniteG2) :
    Zkp.encodeG2 (toObject2 Q.1) = .ok (encode2 Q.1) :=
  encodeG2_toObject2 fun h => Q.2 (Subtype.ext h)

theorem FiniteG1.encodeG1 (P : FiniteG1) : Zkp.encodeG1 (toObject1 P) = .ok (encode1 P) :=
  encodeG1_toObject1 P.2

theorem encodeProof_toSnarkjs (proof : ProofPoints) :
    ∃ p, (Zkp.encodeProof proof.toSnarkjs).toOption.bind Proof.ofEncoded = some p ∧
      p.a.toList = encode1 (-proof.a) ∧ p.b.toList = encode2 proof.b.1 ∧
      p.c.toList = encode1 proof.c := by
  have henc : Zkp.encodeProof proof.toSnarkjs
      = .ok ⟨encode1 (-proof.a), encode2 proof.b.1, encode1 proof.c⟩ := by
    simp only [Zkp.encodeProof, ProofPoints.toSnarkjs, FiniteG1.encodeG1, FiniteG2.encodeG2,
      altBn128G1Neg_encode1 proof.a.2, bind, Except.bind]
  obtain ⟨a, ha, hla⟩ := fixedArray_of_length (length_encode1 (-proof.a))
  obtain ⟨b, hb, hlb⟩ := fixedArray_of_length (length_encode2 proof.b.1)
  obtain ⟨c, hc, hlc⟩ := fixedArray_of_length (length_encode1 proof.c)
  refine ⟨⟨a, b, c⟩, ?_, hla, hlb, hlc⟩
  rw [henc]
  simp only [Except.toOption, Option.bind_some, Proof.ofEncoded, ha, hb, hc, bind]

theorem mapM_encodeG1 (ic : List FiniteG1) :
    (ic.map fun P : FiniteG1 => toObject1 P.1).mapM Zkp.encodeG1
      = .ok (ic.map fun P : FiniteG1 => encode1 P.1) := by
  induction ic with
  | nil => rfl
  | cons P ic ih =>
      rw [List.map_cons, List.mapM_cons, FiniteG1.encodeG1, ih]
      rfl

theorem encodeVerifyingKey_toSnarkjs (key : KeyPoints) (nPublic : ℤ) :
    ∃ k, (Zkp.encodeVerifyingKey (key.toSnarkjs nPublic)).toOption.bind VerificationKey.ofEncoded
        = some k ∧
      k.alpha.toList = encode1 key.alpha ∧ k.beta.toList = encode2 key.beta.1 ∧
      k.gamma.toList = encode2 key.gamma.1 ∧ k.delta.toList = encode2 key.delta.1 ∧
      k.ic.map Vector.toList = key.ic.map fun P : FiniteG1 => encode1 P.1 := by
  have henc : Zkp.encodeVerifyingKey (key.toSnarkjs nPublic)
      = .ok
        { curve := some "bn128"
          protocol := none
          nPublic := toString nPublic
          alpha := encode1 key.alpha
          beta := encode2 key.beta.1
          gamma := encode2 key.gamma.1
          delta := encode2 key.delta.1
          ic := key.ic.map fun P : FiniteG1 => encode1 P.1 } := by
    simp only [Zkp.encodeVerifyingKey, KeyPoints.toSnarkjs, FiniteG1.encodeG1, FiniteG2.encodeG2,
      mapM_encodeG1, bind, Except.bind]
  obtain ⟨alpha, hα, hlα⟩ := fixedArray_of_length (length_encode1 key.alpha)
  obtain ⟨beta, hβ, hlβ⟩ := fixedArray_of_length (length_encode2 key.beta.1)
  obtain ⟨gamma, hγ, hlγ⟩ := fixedArray_of_length (length_encode2 key.gamma.1)
  obtain ⟨delta, hδ, hlδ⟩ := fixedArray_of_length (length_encode2 key.delta.1)
  have hlen : ∀ bs ∈ key.ic.map (fun P : FiniteG1 => encode1 P.1), bs.length = 64 := by
    intro bs hbs
    obtain ⟨P, -, rfl⟩ := List.mem_map.mp hbs
    exact length_encode1 P.1
  obtain ⟨ic, hic, hlic⟩ := mapM_fixedArray hlen
  refine ⟨⟨alpha, beta, gamma, delta, ic⟩, ?_, hlα, hlβ, hlγ, hlδ, hlic⟩
  rw [henc]
  simp only [Except.toOption, Option.bind_some, VerificationKey.ofEncoded, hα, hβ, hγ, hδ, hic,
    bind]

theorem signal_fits {s : ℤ} (h : 0 ≤ s ∧ s < bn254r) : ∃ n : ℕ, s = n ∧ n < 256 ^ 32 := by
  obtain ⟨n, rfl⟩ := Int.eq_ofNat_of_zero_le h.1
  have hr := bn254r_lt_two_pow
  norm_num at hr ⊢
  omega

theorem encodePublicSignals_eq {signals : List ℤ} (h : ∀ s ∈ signals, 0 ≤ s ∧ s < bn254r) :
    Zkp.encodePublicSignals signals = .ok (signals.map fun s => beBytes 32 s.toNat) := by
  induction signals with
  | nil => rfl
  | cons s signals ih =>
      have ih' := ih fun n hn => h n (List.mem_cons_of_mem _ hn)
      obtain ⟨n, rfl, hn⟩ := signal_fits (h s List.mem_cons_self)
      rw [Zkp.encodePublicSignals] at ih'
      rw [Zkp.encodePublicSignals, List.mapM_cons, Zkp.finiteToBytes_of_lt hn, ih']
      rfl

/-- The inputs are the signals: a number below the group order fits its word. -/
theorem encodePublicSignals_lt {signals : List ℤ} (h : ∀ s ∈ signals, 0 ≤ s ∧ s < bn254r) :
    ∃ xs, (Zkp.encodePublicSignals signals).toOption.bind publicInputsOfEncoded = some xs ∧
      xs.map (fun x => (x.toNum : ℤ)) = signals := by
  have hlen : ∀ bs ∈ signals.map (fun s => beBytes 32 s.toNat), bs.length = 32 := by
    intro bs hbs
    obtain ⟨s, -, rfl⟩ := List.mem_map.mp hbs
    exact length_beBytes 32 s.toNat
  have hback : ∀ s ∈ signals, (beNat (beBytes 32 s.toNat) : ℤ) = id s := by
    intro s hs
    obtain ⟨n, rfl, hn⟩ := signal_fits (h s hs)
    rw [Int.toNat_natCast, beNat_beBytes_of_lt hn]
    rfl
  obtain ⟨xs, hxs, hlists⟩ := mapM_fixedArray hlen
  refine ⟨xs, ?_, ?_⟩
  · rw [encodePublicSignals_eq h]
    exact hxs
  · calc xs.map (fun x => (x.toNum : ℤ))
        = (xs.map Vector.toList).map fun bs => (beNat bs : ℤ) := by
          rw [List.map_map]
          rfl
      _ = signals.map fun s => (beNat (beBytes 32 s.toNat) : ℤ) := by
          rw [hlists, List.map_map]
          rfl
      _ = signals := by rw [List.map_congr_left hback, List.map_id]

/-! ## The verifier on points -/

variable {sys : AltBn128} {e : BilinearPairing G1 G2 GT}

theorem accumulate_encode1 (hsys : sys.Implements e) {x : Bytes 32} {ic : Bytes 64} {P : G1}
    (hic : ic.toList = encode1 P) (acc : G1) :
    Groth16Verifier.accumulate sys (encode1 acc) (x, ic)
      = .ok (encode1 (acc + (x.toNum : ℤ) • P)) := by
  have hmul := hsys.multiplication P x
  have hadd := hsys.addition (x.toNum • P) acc
  simp only [Groth16Verifier.accumulate, hic, hmul, hadd, length_encode1, if_true]
  rw [add_comm, natCast_zsmul]

/-- The loop sums the multiples: induction on the inputs, with the points beside them. -/
theorem foldlM_accumulate (hsys : sys.Implements e) (xs : List (Bytes 32))
    (ics : List (Bytes 64)) (points : List FiniteG1)
    (hics : ics.map Vector.toList = points.map fun P : FiniteG1 => encode1 P.1) (acc : G1) :
    (xs.zip ics).foldlM (Groth16Verifier.accumulate sys) (encode1 acc)
      = .ok (encode1 (acc + ((xs.map fun x => (x.toNum : ℤ)).zipWith
          (fun s (P : FiniteG1) => s • P.1) points).sum)) := by
  induction xs generalizing ics points acc with
  | nil => simp only [List.zip_nil_left, List.map_nil, List.zipWith_nil_left, List.sum_nil,
      add_zero, List.foldlM_nil, pure, Except.pure]
  | cons x xs ih =>
      cases points with
      | nil =>
          -- `zip` drops the inputs that no point is left for
          obtain rfl := List.map_eq_nil_iff.mp hics
          simp only [List.zip_nil_right, List.zipWith_nil_right, List.sum_nil, add_zero,
            List.foldlM_nil, pure, Except.pure]
      | cons P points =>
          cases ics with
          | nil => exact nomatch hics
          | cons ic ics =>
              rw [List.map_cons, List.map_cons] at hics
              obtain ⟨hic, hrest⟩ := List.cons.inj hics
              rw [List.zip_cons_cons, List.foldlM_cons, accumulate_encode1 hsys hic]
              show List.foldlM _ (encode1 _) (xs.zip ics) = _
              rw [ih ics points hrest, List.map_cons, List.zipWith_cons_cons, List.sum_cons,
                add_assoc]

/-- **THE PAIRING CHECK IS THE EQUATION**: four pairs of points, the first negated. -/
theorem pairing_points (hsys : sys.Implements e) (A P C α : G1) (B γ δ β : G2) :
    ∃ res, sys.pairing (encode1 (-A) ++ encode2 B.1 ++ encode1 P ++ encode2 γ.1 ++ encode1 C
        ++ encode2 δ.1 ++ encode1 α ++ encode2 β.1) = some res ∧ res.length = 32 ∧
      (res[31]? = some 1 ↔ e A B = e α β * e P γ * e C δ) := by
  have hinput : encode1 (-A) ++ encode2 B.1 ++ encode1 P ++ encode2 γ.1 ++ encode1 C
        ++ encode2 δ.1 ++ encode1 α ++ encode2 β.1
      = encodePairs [(-A, B), (P, γ), (C, δ), (α, β)] := by
    simp only [encodePairs, List.flatMap_cons, List.flatMap_nil, List.append_nil,
      List.append_assoc]
  -- the negated pair goes to the other side; then only the order differs
  have hprod : e.prod [(-A, B), (P, γ), (C, δ), (α, β)] = 1
      ↔ e A B = e α β * e P γ * e C δ := by
    rw [e.prod_eq_one_iff]
    simp only [BilinearPairing.prod, List.map_cons, List.map_nil, List.prod_cons, List.prod_nil,
      mul_one]
    rw [← mul_assoc, mul_comm (e P γ * e C δ), mul_assoc]
  rw [hinput, ← hprod]
  by_cases h : e.prod [(-A, B), (P, γ), (C, δ), (α, β)] = 1
  · exact ⟨_, hsys.pairing_one _ h, rfl, iff_of_true rfl h⟩
  · exact ⟨_, hsys.pairing_ne _ h, rfl, iff_of_false (by decide) h⟩

/-- The verifier, on arrays that hold points. -/
theorem verify_points (hsys : sys.Implements e) (proof : ProofPoints) (key : KeyPoints)
    {p : ProofData} {xs : List (Bytes 32)} {k : VerificationKey}
    (hA : p.a.toList = encode1 (-proof.a)) (hB : p.b.toList = encode2 proof.b.1)
    (hC : p.c.toList = encode1 proof.c) (hα : k.alpha.toList = encode1 key.alpha)
    (hβ : k.beta.toList = encode2 key.beta.1) (hγ : k.gamma.toList = encode2 key.gamma.1)
    (hδ : k.delta.toList = encode2 key.delta.1)
    (hic : k.ic.map Vector.toList = key.ic.map fun P : FiniteG1 => encode1 P.1)
    (hne : key.ic ≠ []) :
    Groth16Verifier.verify sys ⟨p, xs, k⟩ = .ok ()
      ↔ Groth16Equation e proof key (xs.map fun x => (x.toNum : ℤ)) := by
  cases hpoints : key.ic with
  | nil => exact absurd hpoints hne
  | cons P0 points =>
      rw [hpoints, List.map_cons] at hic
      cases hkic : k.ic with
      | nil =>
          rw [hkic] at hic
          exact nomatch hic
      | cons ic0 ics =>
          rw [hkic, List.map_cons] at hic
          obtain ⟨hic0, hics⟩ := List.cons.inj hic
          -- the loop starts from the first point
          have hfold := foldlM_accumulate hsys xs ics points hics P0.1
          obtain ⟨res, hres, hlen, hiff⟩ := pairing_points hsys proof.a.1
            (P0 + ((xs.map fun x => (x.toNum : ℤ)).zipWith (fun s (P : FiniteG1) => s • P.1)
              points).sum) proof.c.1 key.alpha.1 proof.b.1 key.gamma.1 key.delta.1 key.beta.1
          obtain ⟨b, hb⟩ : ∃ b, res[31]? = some b :=
            ⟨_, List.getElem?_eq_getElem (by rw [hlen]; decide)⟩
          rw [hb, Option.some_inj] at hiff
          rw [Groth16Equation, hpoints, publicPoint, ← hiff]
          simp only [Groth16Verifier.verify, hkic, hic0, hfold, bind, Except.bind,
            Groth16Verifier.pairingInput, hA, hB, hC, hα, hβ, hγ, hδ, hres, hb]
          by_cases hone : b = 1 <;> simp [hone]

/-- **CLIENT AND CHAIN CHECK ONE EQUATION.**  Whatever the proof, the key and the signals
    below the group order, their encodings fit the arrays of the program, and the
    verifier accepts them exactly when there is one point for each signal and one more,
    and the equation of the scheme holds. -/
theorem verifier_accepts_iff_equation (hsys : sys.Implements e) (proof : ProofPoints)
    (key : KeyPoints) (nPublic : ℤ) (signals : List ℤ)
    (h : ∀ s ∈ signals, 0 ≤ s ∧ s < bn254r) :
    ∃ p xs k,
      (Zkp.encodeProof proof.toSnarkjs).toOption.bind Proof.ofEncoded = some p ∧
      (Zkp.encodePublicSignals signals).toOption.bind publicInputsOfEncoded = some xs ∧
      (Zkp.encodeVerifyingKey (key.toSnarkjs nPublic)).toOption.bind VerificationKey.ofEncoded
        = some k ∧
      ((Groth16Verifier.new p xs k >>= Groth16Verifier.verify sys) = .ok ()
        ↔ signals.length + 1 = key.ic.length ∧ Groth16Equation e proof key signals) := by
  obtain ⟨p, hp, hA, hB, hC⟩ := encodeProof_toSnarkjs proof
  obtain ⟨xs, hxs, hnums⟩ := encodePublicSignals_lt h
  obtain ⟨k, hk, hα, hβ, hγ, hδ, hic⟩ := encodeVerifyingKey_toSnarkjs key nPublic
  refine ⟨p, xs, k, hp, hxs, hk, ?_⟩
  have hsignals : xs.length = signals.length := by
    rw [← hnums, List.length_map]
  have hpoints : k.ic.length = key.ic.length := by
    have hlen := congrArg List.length hic
    rwa [List.length_map, List.length_map] at hlen
  -- `new` compares the lengths, `verify` decides the equation
  rw [Groth16Verifier.new, hsignals, hpoints]
  by_cases hcount : signals.length + 1 = key.ic.length
  · have hne : key.ic ≠ [] := by
      intro hnil
      rw [hnil] at hcount
      exact nomatch hcount
    have hverify : Groth16Verifier.verify sys ⟨p, xs, k⟩ = .ok () ↔ _ :=
      verify_points hsys proof key hA hB hC hα hβ hγ hδ hic hne
    rw [hnums] at hverify
    rw [if_neg (not_not.mpr hcount), and_iff_right hcount, ← hverify]
    rfl
  · rw [if_pos hcount]
    exact iff_of_false (fun hok => nomatch hok) fun hboth => hcount hboth.1

/-! ## Syscalls that are the group operations

    A layout determines its points, so a syscall can read them off its bytes. -/

theorem encodePair1_injective :
    Function.Injective fun p : G1 × G1 => encode1 p.1 ++ encode1 p.2 := by
  intro p p' h
  obtain ⟨hP, hQ⟩ := List.append_inj h (by simp only [length_encode1])
  exact Prod.ext (encode1_injective hP) (encode1_injective hQ)

theorem encodeScaled_injective :
    Function.Injective fun p : G1 × Bytes 32 => encode1 p.1 ++ p.2.toList := by
  intro p p' h
  obtain ⟨hP, hs⟩ := List.append_inj h (by simp only [length_encode1])
  exact Prod.ext (encode1_injective hP) (Vector.toList_inj.mp hs)

theorem encodePairs_injective : Function.Injective encodePairs := by
  have hcons : ∀ (p : G1 × G2) pairs,
      encodePairs (p :: pairs) = encode1 p.1 ++ (encode2 p.2.1 ++ encodePairs pairs) := by
    intro p pairs
    rw [encodePairs, List.flatMap_cons, List.append_assoc]
    rfl
  have hne : ∀ (p : G1 × G2) pairs, encodePairs (p :: pairs) ≠ [] := by
    intro p pairs h
    have hlen := congrArg List.length h
    rw [hcons, List.length_append, length_encode1, List.length_nil] at hlen
    omega
  -- every piece has its fixed size: the first pair comes off both strings
  intro pairs
  induction pairs with
  | nil =>
      intro pairs' h
      cases pairs' with
      | nil => rfl
      | cons p pairs' => exact absurd h.symm (hne p pairs')
  | cons p pairs ih =>
      intro pairs' h
      cases pairs' with
      | nil => exact absurd h (hne p pairs)
      | cons p' pairs' =>
          rw [hcons, hcons] at h
          obtain ⟨h1, hrest⟩ := List.append_inj h (by simp only [length_encode1])
          obtain ⟨h2, htail⟩ := List.append_inj hrest (by simp only [length_encode2])
          rw [ih htail, Prod.ext (encode1_injective h1) (Subtype.ext (encode2_injective h2))]

open Classical in
/-- The syscalls of a pairing. -/
noncomputable def AltBn128.ofPairing (e : BilinearPairing G1 G2 GT) : AltBn128 where
  addition input :=
    (Function.partialInv (fun p : G1 × G1 => encode1 p.1 ++ encode1 p.2) input).map
      fun p => encode1 (p.1 + p.2)
  multiplication input :=
    (Function.partialInv (fun p : G1 × Bytes 32 => encode1 p.1 ++ p.2.toList) input).map
      fun p => encode1 (p.2.toNum • p.1)
  pairing input :=
    (Function.partialInv encodePairs input).map fun pairs =>
      if e.prod pairs = 1 then List.replicate 31 0 ++ [1] else List.replicate 32 0

theorem AltBn128.ofPairing_implements (e : BilinearPairing G1 G2 GT) :
    (ofPairing e).Implements e where
  addition P Q := by
    have hread := Function.partialInv_left encodePair1_injective (P, Q)
    simp only [ofPairing, hread, Option.map_some]
  multiplication P s := by
    have hread := Function.partialInv_left encodeScaled_injective (P, s)
    simp only [ofPairing, hread, Option.map_some]
  pairing_one pairs h := by
    simp only [ofPairing, Function.partialInv_left encodePairs_injective, Option.map_some, if_pos h]
  pairing_ne pairs h := by
    simp only [ofPairing, Function.partialInv_left encodePairs_injective, Option.map_some, if_neg h]

end Implements

/-! ## A proof of the generators -/

namespace GeneratorProof

def finite1 : FiniteG1 := ⟨P1, fun h => nomatch h⟩

def finite2 : FiniteG2 :=
  ⟨⟨P2, AddSubgroup.mem_zmultiples P2⟩, fun h => nomatch congrArg Subtype.val h⟩

def negated1 : FiniteG1 := ⟨-P1, fun h => nomatch neg_eq_zero.mp h⟩

def proof : ProofPoints where
  a := finite1
  b := finite2
  c := negated1

def key : KeyPoints where
  alpha := finite1
  beta := finite2
  gamma := finite2
  delta := finite2
  ic := [negated1, finite1]

/-- With the signal two the public point is the generator, whatever the pairing. -/
theorem equation {GT : Type*} [CommGroup GT] (e : BilinearPairing G1 G2 GT) :
    Groth16Equation e proof key [2] := by
  have hpoint : publicPoint key.ic [2] = P1 := by
    show -P1 + ((2 : ℤ) • P1 + 0) = P1
    rw [two_zsmul, add_zero, neg_add_cancel_left]
  rw [Groth16Equation, hpoint]
  show e P1 finite2 = e P1 finite2 * e P1 finite2 * e (-P1) finite2
  rw [e.neg_left, mul_inv_cancel_right]

end GeneratorProof

theorem verifier_accepts_generators :
    ∃ p xs k,
      (Zkp.encodeProof GeneratorProof.proof.toSnarkjs).toOption.bind Proof.ofEncoded = some p ∧
      (Zkp.encodePublicSignals [2]).toOption.bind publicInputsOfEncoded = some xs ∧
      (Zkp.encodeVerifyingKey (GeneratorProof.key.toSnarkjs 1)).toOption.bind
        VerificationKey.ofEncoded = some k ∧
      (Groth16Verifier.new p xs k >>= Groth16Verifier.verify
        (AltBn128.ofPairing (BilinearPairing.trivial G1 G2 (Multiplicative ℤ)))) = .ok () := by
  obtain ⟨p, xs, k, hp, hxs, hk, hiff⟩ :=
    verifier_accepts_iff_equation
      (AltBn128.ofPairing_implements (BilinearPairing.trivial G1 G2 (Multiplicative ℤ)))
      GeneratorProof.proof GeneratorProof.key 1 [2] (by decide)
  exact ⟨p, xs, k, hp, hxs, hk, hiff.mpr ⟨rfl, GeneratorProof.equation _⟩⟩

end Albus.Program
