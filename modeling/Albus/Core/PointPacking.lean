import Albus.Core.BabyJubGroup
import Albus.Core.ByteCodecs
import Albus.Core.FieldRoots
import Mathlib.Data.Nat.Bitwise

/-! # Packed points

    `packPoint` and `unpackPoint`.  The second divides the ordinate's `1 - y²` by
    `A - D y²` and takes the root, after a test that lets only the power one pass: so it
    does not come back from the abscissa zero.  Its range test lets `p` pass, and it
    clears the sign in the buffer that it is given (`packing_iff`). -/

namespace Albus.Core.BabyJub

open Albus.Lib

/-- Result and buffer afterwards; the inner `none` is `null`. -/
def unpackPoint (K : F1Field.Over.SqrtConstants) (fuel : ℕ) (buff : Bytes 32) :
    Option (Except String (Option (ℕ × ℕ))) × Bytes 32 :=
  let sign : Bool := buff[31] &&& 0x80 ≠ 0
  let buff := if sign then buff.set 31 (buff[31] &&& 0x7F) else buff
  let y := Scalar.fromRprLE buff.toList 32
  let point :=
    if bn254r < y then some (.ok none)
    else
      let y2 := F1Field.square y
      match F1Field.div (F1Field.sub 1 y2) (F1Field.sub A (F1Field.mul D y2)) with
      | .error e => some (.error e)
      | .ok x2 =>
        let x2h := F1Field.Over.exp bn254r x2 (F1Field.Over.half bn254r)
        if x2h ≠ 1 then some (.ok none)
        else
          (F1Field.Over.sqrt bn254r K fuel x2).map fun x =>
            .ok (x.map fun x => (if sign then F1Field.Over.neg bn254r x else x, y))
  (point, buff)

/-! ## The number of a buffer -/

theorem leNat_split (buff : Bytes 32) :
    leNat buff.toList = leNat (buff.toList.take 31) + 256 ^ 31 * buff[31].toNat := by
  have hlen : buff.toList.length = 32 := Vector.length_toList
  have htake : buff.toList = buff.toList.take 31 ++ [buff[31]] := by
    rw [← Vector.getElem_toList (by omega : 31 < buff.toList.length), List.take_append_getElem,
      List.take_of_length_le (by omega)]
  have hlast : leNat [buff[31]] = buff[31].toNat := by
    rw [leNat_cons, leNat_nil, mul_zero, add_zero]
  conv_lhs => rw [htake]
  rw [leNat_append, List.length_take, hlen, hlast, Nat.min_eq_left (by omega)]

theorem leNat_take_lt (buff : Bytes 32) : leNat (buff.toList.take 31) < 256 ^ 31 :=
  (leNat_lt _).trans_le (Nat.pow_le_pow_right (by omega) (List.length_take_le _ _))

/-- The mask of the sign and the mask of the rest. -/
theorem toNat_masks (b : UInt8) :
    (b &&& 0x80 ≠ 0 ↔ 128 ≤ b.toNat) ∧ (b &&& 0x7F).toNat = b.toNat % 128 := by
  have hb := b.toNat_lt
  have hsign : (b &&& 0x80).toNat = (b.toNat.testBit 7).toNat * 2 ^ 7 := by
    rw [UInt8.toNat_and]
    exact Nat.and_two_pow _ 7
  refine ⟨?_, ?_⟩
  · rw [Ne, ← UInt8.toNat_inj, hsign, Nat.testBit_eq_decide_div_mod_eq]
    by_cases hbit : b.toNat / 2 ^ 7 % 2 = 1
    · rw [decide_eq_true hbit]
      exact iff_of_true (by decide) (by omega)
    · rw [decide_eq_false hbit]
      exact iff_of_false (fun h => h rfl) (by omega)
  · rw [UInt8.toNat_and]
    exact Nat.and_two_pow_sub_one_eq_mod _ 7

/-- The sign bit. -/
theorem sign_iff (buff : Bytes 32) :
    buff[31] &&& 0x80 ≠ 0 ↔ 2 ^ 255 ≤ leNat buff.toList := by
  have hlow := leNat_take_lt buff
  rw [(toNat_masks buff[31]).1, leNat_split]
  omega

theorem leNat_set_last (buff : Bytes 32) (b : UInt8) :
    leNat (buff.set 31 b).toList = leNat (buff.toList.take 31) + 256 ^ 31 * b.toNat := by
  rw [leNat_split, Vector.getElem_set_self, Vector.toList_set, List.take_set,
    List.set_eq_of_length_le (List.length_take_le _ _)]

theorem leNat_cleared (buff : Bytes 32) :
    leNat (buff.set 31 (buff[31] &&& 0x7F)).toList = leNat buff.toList % 2 ^ 255 := by
  have hlow := leNat_take_lt buff
  rw [leNat_set_last, (toNat_masks buff[31]).2, leNat_split buff]
  omega

/-- The bytes that `packPoint` starts from. -/
theorem toList_toRprLE (e : ℕ) : (toRprLE e).toList = Scalar.toRprLE e 32 := by
  have hbytes : ∀ w e, leBytes w e = List.ofFn fun i : Fin w => UInt8.ofNat (e / 256 ^ i.val) := by
    intro w
    induction w with
    | zero => exact fun _ => rfl
    | succ w ih =>
        intro e
        rw [leBytes_succ, ih, List.ofFn_succ]
        simp only [Fin.val_zero, pow_zero, Nat.div_one, Fin.val_succ, pow_succ',
          Nat.div_div_eq_div_mul]
  have hwords : Scalar.toRprLE e 32 = leBytes 32 e := Scalar.toRprLE_eq e 8
  rw [hwords, hbytes, toRprLE, Vector.toList_ofFn]

theorem leNat_toRprLE {e : ℕ} (h : e < 256 ^ 32) : leNat (toRprLE e).toList = e := by
  rw [toList_toRprLE]
  exact (congrArg leNat (Scalar.toRprLE_eq e 8)).trans (leNat_leBytes_of_lt h)

theorem leNat_packPoint {P : ℕ × ℕ} (h : P.2 < bn254r) :
    leNat (packPoint P).toList = P.2 + if pm1d2 < P.1 then 2 ^ 255 else 0 := by
  have hbytes : leNat (toRprLE P.2).toList = P.2 := leNat_toRprLE (h.trans (by decide))
  have hlast := packPoint_last h
  have hsplit := leNat_split (toRprLE P.2)
  rw [hbytes] at hsplit
  by_cases hsign : pm1d2 < P.1
  · simp only [packPoint, if_pos hsign] at hlast ⊢
    rw [Vector.getElem_set_self] at hlast
    rw [leNat_set_last, hlast]
    have hlow := leNat_take_lt (toRprLE P.2)
    omega
  · simp only [packPoint, if_neg hsign]
    exact hbytes

/-! ## What comes back -/

/-- The sign of a buffer, and the buffer without it. -/
def signed (buff : Bytes 32) : Bool := buff[31] &&& 0x80 ≠ 0

def cleared (buff : Bytes 32) : Bytes 32 :=
  if signed buff then buff.set 31 (buff[31] &&& 0x7F) else buff

theorem signed_iff (buff : Bytes 32) :
    signed buff = true ↔ 2 ^ 255 ≤ leNat buff.toList :=
  decide_eq_true_iff.trans (sign_iff buff)

theorem leNat_toList_cleared (buff : Bytes 32) :
    leNat (cleared buff).toList = leNat buff.toList % 2 ^ 255 := by
  rw [cleared]
  by_cases hsign : signed buff = true
  · rw [if_pos hsign, leNat_cleared]
  · rw [if_neg hsign, Nat.mod_eq_of_lt]
    exact Nat.lt_of_not_le fun h => hsign ((signed_iff buff).mpr h)

/-- **THE BUFFER IS UNCHANGED WHERE IT HAS NO SIGN.** -/
theorem cleared_eq_iff (buff : Bytes 32) : cleared buff = buff ↔ leNat buff.toList < 2 ^ 255 := by
  constructor
  · intro h
    rw [← h, leNat_toList_cleared]
    exact Nat.mod_lt _ (Nat.two_pow_pos 255)
  · intro h
    rw [cleared, if_neg fun hsign => absurd ((signed_iff buff).mp hsign) (Nat.not_le_of_lt h)]

theorem fromRprLE_cleared (buff : Bytes 32) :
    Scalar.fromRprLE (cleared buff).toList 32 = leNat buff.toList % 2 ^ 255 := by
  have hlen : (cleared buff).toList.length = 32 := Vector.length_toList
  have hread := Scalar.fromRprLE_eq (cleared buff).toList (show 4 * 8 ≤ _ by omega)
  rw [List.take_of_length_le (by omega), leNat_toList_cleared] at hread
  exact hread

/-- The rest of `unpackPoint`. -/
def pointOf (K : F1Field.Over.SqrtConstants) (fuel : ℕ) (sign : Bool) (y : ℕ) :
    Option (Except String (Option (ℕ × ℕ))) :=
  if bn254r < y then some (.ok none)
  else
    let y2 := F1Field.square y
    match F1Field.div (F1Field.sub 1 y2) (F1Field.sub A (F1Field.mul D y2)) with
    | .error e => some (.error e)
    | .ok x2 =>
      if F1Field.Over.exp bn254r x2 (F1Field.Over.half bn254r) ≠ 1 then some (.ok none)
      else
        (F1Field.Over.sqrt bn254r K fuel x2).map fun x =>
          .ok (x.map fun x => (if sign then F1Field.Over.neg bn254r x else x, y))

theorem unpackPoint_parts (K : F1Field.Over.SqrtConstants) (fuel : ℕ) (buff : Bytes 32) :
    unpackPoint K fuel buff
      = (pointOf K fuel (signed buff) (leNat buff.toList % 2 ^ 255), cleared buff) := by
  rw [← fromRprLE_cleared, unpackPoint, pointOf, cleared, signed]

/-- The point that comes back for a sign and an ordinate: not one with the abscissa
    zero, and the ordinate may be `p`. -/
structure Unpacks (sign : Bool) (y : ℕ) (Q : ℕ × ℕ) : Prop where
  snd : Q.2 = y
  snd_le : y ≤ bn254r
  fst_lt : Q.1 < bn254r
  fst_ne : Q.1 ≠ 0
  on : curve.On (Q.1 : F) (y : F)
  sign : pm1d2 < Q.1 ↔ sign = true

theorem Unpacks.unique {sign : Bool} {y : ℕ} {P Q : ℕ × ℕ} (hP : Unpacks sign y P)
    (hQ : Unpacks sign y Q) : P = Q := by
  have hsquare : (P.1 : F) * P.1 = Q.1 * Q.1 := by
    rw [EdwardsCurve.on_iff_abscissa.mp hP.on, EdwardsCurve.on_iff_abscissa.mp hQ.on]
  have hP1 : (P.1 : F).val = P.1 := ZMod.val_cast_of_lt hP.fst_lt
  have hQ1 : (Q.1 : F).val = Q.1 := ZMod.val_cast_of_lt hQ.fst_lt
  have hfst := eq_of_mul_self_of_sign hsquare (by rw [hP1, hQ1, hP.sign, hQ.sign])
  refine Prod.ext ?_ (hP.snd.trans hQ.snd.symm)
  rw [← hP1, hfst, hQ1]

/-- The test before the root. -/
theorem exp_half_iff (x : F) :
    F1Field.Over.exp bn254r x.val (F1Field.Over.half bn254r) = 1 ↔ x ≠ 0 ∧ IsSquare x := by
  rw [F1Field.Over.exp_val, F1Field.Over.val_eq_one_iff, F1Field.Over.half,
    Nat.shiftRight_one]
  by_cases hx : x = 0
  · rw [hx, zero_pow (by decide)]
    exact iff_of_false zero_ne_one fun h => h.1 rfl
  · rw [← ZMod.euler_criterion bn254r hx]
    exact (and_iff_right hx).symm

/-- The root that comes back: with the sign of the buffer, and never zero. -/
theorem signed_abscissa {x2 : F} (hne : x2 ≠ 0) {r : ℕ} (hle : r ≤ (bn254r - 1) / 2)
    (hroot : r * r % bn254r = x2.val) (sign : Bool) :
    ∃ x : F, x.val = (if sign then F1Field.Over.neg bn254r r else r) ∧ x ≠ 0 ∧
      x * x = x2 ∧ (pm1d2 < x.val ↔ sign = true) := by
  have hval : (r : F).val = r := ZMod.val_cast_of_lt (hle.trans_lt (by decide))
  have hsquare : (r : F) * r = x2 := by
    rw [← Nat.cast_mul, ← ZMod.natCast_zmod_val x2, ← hroot, ZMod.natCast_mod]
  have hrne : (r : F) ≠ 0 := by
    intro hzero
    rw [hzero, mul_zero] at hsquare
    exact hne hsquare.symm
  cases sign with
  | false =>
      refine ⟨r, hval, hrne, hsquare, iff_of_false ?_ Bool.false_ne_true⟩
      rw [hval]
      exact Nat.not_lt_of_le hle
  | true =>
      have hneg : (-(r : F)).val = F1Field.Over.neg bn254r r := by
        rw [← F1Field.Over.neg_val, hval]
      refine ⟨-r, hneg, neg_ne_zero.mpr hrne, ?_, iff_of_true ?_ rfl⟩
      · rw [neg_mul_neg, hsquare]
      · have hpos : r ≠ 0 := by
          rw [← hval]
          exact (ZMod.val_ne_zero _).mpr hrne
        have hodd : 2 * ((bn254r - 1) / 2) + 1 = bn254r := by decide
        rw [hneg, F1Field.Over.neg, if_pos hpos]
        show (bn254r - 1) / 2 < _
        omega

theorem abscissa_val (y : ℕ) :
    F1Field.div (F1Field.sub 1 (F1Field.square y))
        (F1Field.sub A (F1Field.mul D (F1Field.square y)))
      = .ok ((1 - (y : F) * y) / (curve.a - curve.d * (y * y))).val := by
  have hone : (1 : ℕ) = (1 : F).val := (ZMod.val_one _).symm
  have hA : A = ((A : ℕ) : F).val := (ZMod.val_cast_of_lt (by decide)).symm
  have hsquare : F1Field.square y = ((y : F) * y).val := by
    rw [← Nat.cast_mul, ZMod.val_natCast, F1Field.square]
  have hden : (A : F) - (D : F) * (y * y) ≠ 0 :=
    EdwardsCurve.den_abscissa_ne_zero (E := curve) _
  rw [hsquare, mul_D, hone, hA, F1Field.sub_val, F1Field.sub_val, F1Field.div_val _ hden]
  rfl

/-- **WHAT COMES BACK.** -/
theorem pointOf_eq {c : ℕ} (hc : c < bn254r) (hns : ¬ IsSquare (c : F)) {fuel : ℕ}
    (hfuel : (F1Field.Over.tonelliShanks bn254r c).sqrtS ≤ fuel) (sign : Bool) (y : ℕ) :
    ∃ res, pointOf (F1Field.Over.tonelliShanks bn254r c) fuel sign y = some (.ok res) ∧
      ∀ Q, res = some Q ↔ Unpacks sign y Q := by
  obtain ⟨x2, hx2⟩ : ∃ x2 : F, x2 = (1 - y * y) / (curve.a - curve.d * (y * y)) := ⟨_, rfl⟩
  have habscissa := abscissa_val y
  rw [← hx2] at habscissa
  have hcval : (c : F).val = c := ZMod.val_cast_of_lt hc
  by_cases hy : bn254r < y
  · refine ⟨none, ?_, fun Q => iff_of_false (fun h => nomatch h) fun h => ?_⟩
    · rw [pointOf, if_pos hy]
    · exact absurd h.snd_le (Nat.not_le_of_lt hy)
  · by_cases hpow : x2 ≠ 0 ∧ IsSquare x2
    · rw [← hcval] at hfuel ⊢
      obtain ⟨r, hr, hle, hroot⟩ :=
        (F1Field.Over.sqrt_spec (by decide) hns x2 hfuel).2 hpow.2
      obtain ⟨x, hx, hxne, hxx, hsign⟩ := signed_abscissa hpow.1 hle hroot sign
      have hunpacks : Unpacks sign y (x.val, y) := by
        refine ⟨rfl, Nat.le_of_not_lt hy, x.val_lt, (ZMod.val_ne_zero x).mpr hxne, ?_, hsign⟩
        rw [ZMod.natCast_zmod_val, EdwardsCurve.on_iff_abscissa, hxx, hx2]
      refine ⟨some (x.val, y), ?_, fun Q => ⟨?_, fun h => ?_⟩⟩
      · rw [pointOf, if_neg hy]
        simp only [habscissa]
        rw [if_neg (not_not.mpr ((exp_half_iff x2).mpr hpow)), hr, hx]
        rfl
      · intro h
        rw [← Option.some.inj h]
        exact hunpacks
      · rw [hunpacks.unique h]
    · refine ⟨none, ?_, fun Q => iff_of_false (fun h => nomatch h) fun h => hpow ?_⟩
      · rw [pointOf, if_neg hy]
        simp only [habscissa]
        rw [if_pos fun hone => hpow ((exp_half_iff x2).mp hone)]
      · have hsquare := EdwardsCurve.on_iff_abscissa.mp h.on
        rw [← hx2] at hsquare
        have hne : (Q.1 : F) ≠ 0 := by
          rw [← ZMod.val_ne_zero, ZMod.val_cast_of_lt h.fst_lt]
          exact h.fst_ne
        rw [← hsquare]
        exact ⟨mul_self_ne_zero.mpr hne, ⟨_, rfl⟩⟩

/-- It comes back, and with which points. -/
theorem unpackPoint_iff {c : ℕ} (hc : c < bn254r) (hns : ¬ IsSquare (c : F)) {fuel : ℕ}
    (hfuel : (F1Field.Over.tonelliShanks bn254r c).sqrtS ≤ fuel) (buff : Bytes 32) :
    (∃ res, (unpackPoint (F1Field.Over.tonelliShanks bn254r c) fuel buff).1
      = some (.ok res)) ∧
    ∀ Q, (unpackPoint (F1Field.Over.tonelliShanks bn254r c) fuel buff).1
        = some (.ok (some Q)) ↔
      Unpacks (signed buff) (leNat buff.toList % 2 ^ 255) Q := by
  rw [unpackPoint_parts]
  obtain ⟨res, hres, hiff⟩ := pointOf_eq hc hns hfuel (signed buff)
    (leNat buff.toList % 2 ^ 255)
  refine ⟨⟨res, hres⟩, fun Q => ?_⟩
  show pointOf _ _ _ _ = _ ↔ _
  rw [hres, ← hiff Q]
  exact ⟨fun h => Except.ok.inj (Option.some.inj h), fun h => by rw [h]⟩

/-! ## Both ways -/

theorem fst_ne_iff {a : ℕ} (h : a < bn254r) : (a : F) ≠ 0 ↔ a ≠ 0 := by
  rw [← ZMod.val_ne_zero, ZMod.val_cast_of_lt h]

/-- Of two opposite elements one has the sign. -/
theorem exists_sign {x : F} (hx : x ≠ 0) (sign : Bool) :
    ∃ x', (x' = x ∨ x' = -x) ∧ (pm1d2 < x'.val ↔ sign = true) := by
  by_cases h : pm1d2 < x.val ↔ sign = true
  · exact ⟨x, Or.inl rfl, h⟩
  · refine ⟨-x, Or.inr rfl, ?_⟩
    have hlt := x.val_lt
    have hpos := (ZMod.val_ne_zero x).mpr hx
    have hodd : 2 * pm1d2 + 1 = bn254r := by decide
    have hneg : pm1d2 < (-x).val ↔ ¬ pm1d2 < x.val := by
      rw [ZMod.neg_val, if_neg hx]
      omega
    rw [hneg]
    tauto

/-- The number `p` has a point, with either sign. -/
theorem exists_unpacks_p (sign : Bool) : ∃ Q, Unpacks sign bn254r Q := by
  have hs := curve.s_ne_zero
  obtain ⟨x, hx, hsign⟩ := exists_sign (inv_ne_zero hs) sign
  have hsquare : x * x = curve.s⁻¹ * curve.s⁻¹ := by
    rcases hx with rfl | rfl
    · rfl
    · exact neg_mul_neg _ _
  have hne : x ≠ 0 := by
    intro hzero
    rw [hzero, mul_zero] at hsquare
    exact mul_self_ne_zero.mpr (inv_ne_zero hs) hsquare.symm
  refine ⟨(x.val, bn254r), rfl, le_rfl, x.val_lt, (ZMod.val_ne_zero x).mpr hne, ?_, hsign⟩
  show curve.On ((x.val : ℕ) : F) _
  rw [ZMod.natCast_zmod_val, ZMod.natCast_self, EdwardsCurve.On, hsquare, ← curve.s_mul_self]
  field_simp
  ring

/-- On canonical coordinates. -/
theorem inCurve_iff {P : ℕ × ℕ} (hx : P.1 < bn254r) (hy : P.2 < bn254r) :
    inCurve P = true ↔ curve.On (P.1 : F) (P.2 : F) := by
  rw [← on_iff, ZMod.val_cast_of_lt hx, ZMod.val_cast_of_lt hy]

theorem number_packPoint {P : ℕ × ℕ} (hy : P.2 < bn254r) :
    leNat (packPoint P).toList % 2 ^ 255 = P.2 ∧
      (signed (packPoint P) = true ↔ pm1d2 < P.1) := by
  have hlt : P.2 < 2 ^ 255 := hy.trans (by decide)
  rw [signed_iff, leNat_packPoint hy]
  split <;> omega

/-- What a packed point comes back as: itself, if its abscissa is not zero. -/
theorem unpacks_packPoint {P : ℕ × ℕ} (hx : P.1 < bn254r) (hy : P.2 < bn254r)
    (hcurve : inCurve P = true) (Q : ℕ × ℕ) :
    Unpacks (signed (packPoint P)) (leNat (packPoint P).toList % 2 ^ 255) Q ↔
      P.1 ≠ 0 ∧ Q = P := by
  obtain ⟨hordinate, hsign⟩ := number_packPoint hy
  have hon := (inCurve_iff hx hy).mp hcurve
  rw [hordinate]
  have hP : P.1 ≠ 0 → Unpacks (signed (packPoint P)) P.2 P := fun hne =>
    ⟨rfl, le_of_lt hy, hx, hne, hon, hsign.symm⟩
  constructor
  · intro h
    have hne : P.1 ≠ 0 := by
      rw [← fst_ne_iff hx, ← mul_self_ne_zero, EdwardsCurve.on_iff_abscissa.mp hon,
        ← EdwardsCurve.on_iff_abscissa.mp h.on, mul_self_ne_zero, fst_ne_iff h.fst_lt]
      exact h.fst_ne
    exact ⟨hne, h.unique (hP hne)⟩
  · rintro ⟨hne, rfl⟩
    exact hP hne

/-- Below `p` the buffer is what the point packs to. -/
theorem Unpacks.packsTo {buff : Bytes 32} {Q : ℕ × ℕ}
    (h : Unpacks (signed buff) (leNat buff.toList % 2 ^ 255) Q)
    (hne : leNat buff.toList % 2 ^ 255 ≠ bn254r) : PacksTo Q buff := by
  have hsnd : Q.2 < bn254r := by
    rw [h.snd]
    exact lt_of_le_of_ne h.snd_le hne
  have hon := h.on
  rw [← h.snd] at hon
  refine ⟨h.fst_lt, hsnd, (inCurve_iff h.fst_lt hsnd).mpr hon, ?_⟩
  have hlt : leNat buff.toList < 2 ^ 256 := by
    have hbound := leNat_lt buff.toList
    rw [Vector.length_toList] at hbound
    exact hbound
  have hsign := h.sign.trans (signed_iff buff)
  have hnumber : leNat (packPoint Q).toList = leNat buff.toList := by
    rw [leNat_packPoint hsnd, h.snd]
    split <;> omega
  refine Vector.toList_inj.mp (leNat_inj ?_ hnumber)
  rw [Vector.length_toList, Vector.length_toList]

/-- **WHERE PACKING IS ONE TO ONE.**  For the generator `c` that the constructor drew: a
    point comes back exactly when its abscissa is not zero; a buffer decodes to no point
    but the one that it packs exactly when its number, without the sign, is not `p`; and
    it stays as it was exactly when it has no sign. -/
theorem packing_iff {c : ℕ} (hc : c < bn254r) (hne : c ≠ 0)
    (hdrawn : F1Field.Over.Drawn bn254r c) {fuel : ℕ}
    (hfuel : (F1Field.Over.tonelliShanks bn254r c).sqrtS ≤ fuel) :
    (∀ P : ℕ × ℕ, P.1 < bn254r → P.2 < bn254r → inCurve P = true →
      ((unpackPoint (F1Field.Over.tonelliShanks bn254r c) fuel (packPoint P)).1
        = some (.ok (some P)) ↔ P.1 ≠ 0)) ∧
    ∀ buff : Bytes 32,
      (∃ res, (unpackPoint (F1Field.Over.tonelliShanks bn254r c) fuel buff).1
        = some (.ok res)) ∧
      ((∀ Q, (unpackPoint (F1Field.Over.tonelliShanks bn254r c) fuel buff).1
        = some (.ok (some Q)) → PacksTo Q buff) ↔ leNat buff.toList % 2 ^ 255 ≠ bn254r) ∧
      ((unpackPoint (F1Field.Over.tonelliShanks bn254r c) fuel buff).2 = buff ↔
        leNat buff.toList < 2 ^ 255) := by
  have hns : ¬ IsSquare (c : F) := by
    rw [← ZMod.val_cast_of_lt hc] at hdrawn
    exact ((F1Field.Over.drawn_iff (by decide) _).mp hdrawn).resolve_left
      ((fst_ne_iff hc).mpr hne)
  refine ⟨?_, ?_⟩
  · intro P hx hy hcurve
    rw [(unpackPoint_iff hc hns hfuel (packPoint P)).2, unpacks_packPoint hx hy hcurve]
    exact and_iff_left rfl
  · intro buff
    obtain ⟨hres, hiff⟩ := unpackPoint_iff hc hns hfuel buff
    refine ⟨hres, ⟨?_, ?_⟩, ?_⟩
    · intro hall hp
      obtain ⟨Q, hQ⟩ := exists_unpacks_p (signed buff)
      rw [← hp] at hQ
      have hlt := (hall Q ((hiff Q).mpr hQ)).snd_lt
      rw [hQ.snd, hp] at hlt
      exact lt_irrefl _ hlt
    · intro hp Q hQ
      exact ((hiff Q).mp hQ).packsTo hp
    · rw [unpackPoint_parts]
      exact cleared_eq_iff buff

/-! ## Samples

    The generator 5: the points with the abscissa zero, `Base8` negated, and the number
    `p`. -/

namespace Sample

theorem five_not_square : ¬ IsSquare ((5 : ℕ) : F) := by
  intro hsquare
  have hone := (ZMod.euler_criterion bn254r ((fst_ne_iff (by decide)).mpr (by decide))).mp hsquare
  rw [← natCast_powMod (show bn254r / 2 < 256 ^ 32 by decide +kernel)] at hone
  have hval := congrArg ZMod.val hone
  rw [ZMod.val_natCast, ZMod.val_one] at hval
  exact absurd hval (by decide +kernel)

theorem five_drawn : F1Field.Over.Drawn bn254r 5 := by
  rw [← ZMod.val_cast_of_lt (by decide : 5 < bn254r), F1Field.Over.drawn_iff (by decide)]
  exact Or.inr five_not_square

theorem five_sqrtS : (F1Field.Over.tonelliShanks bn254r 5).sqrtS ≤ 28 := by
  show (F1Field.Over.splitLoop 0 (bn254r - 1)).1 ≤ 28
  decide +kernel

theorem packing_iff_five :
    (∀ P : ℕ × ℕ, P.1 < bn254r → P.2 < bn254r → inCurve P = true →
      ((unpackPoint (F1Field.Over.tonelliShanks bn254r 5) 28 (packPoint P)).1
        = some (.ok (some P)) ↔ P.1 ≠ 0)) ∧
    ∀ buff : Bytes 32,
      (∃ res, (unpackPoint (F1Field.Over.tonelliShanks bn254r 5) 28 buff).1
        = some (.ok res)) ∧
      ((∀ Q, (unpackPoint (F1Field.Over.tonelliShanks bn254r 5) 28 buff).1
        = some (.ok (some Q)) → PacksTo Q buff) ↔ leNat buff.toList % 2 ^ 255 ≠ bn254r) ∧
      ((unpackPoint (F1Field.Over.tonelliShanks bn254r 5) 28 buff).2 = buff ↔
        leNat buff.toList < 2 ^ 255) :=
  packing_iff (by decide) (by decide) five_drawn five_sqrtS

/-- `Base8` negated, which has a sign. -/
def negated : ℕ × ℕ := (bn254r - Base8.1, Base8.2)

/-- **PACKING IS NOT ONE TO ONE**: the neutral element is packed and does not come back,
    a packed key changes when it is read, and the number `p` gives a point. -/
theorem packing_fails :
    (inCurve (0, 1) = true ∧
      (unpackPoint (F1Field.Over.tonelliShanks bn254r 5) 28 (packPoint (0, 1))).1
        = some (.ok none)) ∧
    (inCurve negated = true ∧
      (unpackPoint (F1Field.Over.tonelliShanks bn254r 5) 28 (packPoint negated)).2
        ≠ packPoint negated) ∧
    ∃ Q, (unpackPoint (F1Field.Over.tonelliShanks bn254r 5) 28 (toRprLE bn254r)).1
        = some (.ok (some Q)) ∧ ¬ PacksTo Q (toRprLE bn254r) := by
  refine ⟨⟨by decide, ?_⟩, ⟨by decide +kernel, ?_⟩, ?_⟩
  · obtain ⟨⟨res, hres⟩, hiff⟩ :=
      unpackPoint_iff (by decide) five_not_square five_sqrtS (packPoint (0, 1))
    cases res with
    | none => exact hres
    | some Q =>
        have hne := (unpacks_packPoint (by decide) (by decide) (by decide) Q).mp
          ((hiff Q).mp hres)
        exact absurd rfl hne.1
  · rw [unpackPoint_parts]
    show cleared (packPoint negated) ≠ _
    rw [Ne, cleared_eq_iff, leNat_packPoint (by decide), if_pos (by decide)]
    exact Nat.not_lt_of_le (Nat.le_add_left _ _)
  · have hnumber : leNat (toRprLE bn254r).toList % 2 ^ 255 = bn254r := by
      rw [leNat_toRprLE (by decide), Nat.mod_eq_of_lt (by decide)]
    obtain ⟨Q, hQ⟩ := exists_unpacks_p (signed (toRprLE bn254r))
    refine ⟨Q, ?_, ?_⟩
    · rw [(unpackPoint_iff (by decide) five_not_square five_sqrtS _).2, hnumber]
      exact hQ
    · intro hpacks
      have hlt := hpacks.snd_lt
      rw [hQ.snd] at hlt
      exact lt_irrefl _ hlt

end Sample

end Albus.Core.BabyJub
