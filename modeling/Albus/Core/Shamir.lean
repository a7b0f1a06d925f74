import Albus.Core.F1Field
import Albus.Lib.Interpolation
import Mathlib.Data.List.GetD

/-! # Reconstructing a secret

    `crypto/shamir.ts`.  The interpolation formula at zero, written with the field
    operations: with distinct indices no division fails, and the result is the sum of
    the first `k` shares, each with its weight (`reconstruct_eq`).

    A share is its index and its value; the text of a value is the number. -/

namespace Albus.Core

open Albus.Lib

/-- The inner loop: the factor of share `j`. -/
def shamirProduct (k : ℕ) (shares : List (ℕ × ℕ)) (j : ℕ) : Except String ℕ :=
  (List.range k).foldlM
    (fun product m =>
      if m = j then .ok product
      else
        let xm := F1Field.e (shares.getD m (0, 0)).1
        let xj := F1Field.e (shares.getD j (0, 0)).1
        (F1Field.div xm (F1Field.sub xm xj)).map fun quotient =>
          F1Field.mul product quotient)
    (F1Field.e 1)

/-- `reconstructShamirSecret`, over the field of `babyJub`. -/
def reconstructShamirSecret (k : ℕ) (shares : List (ℕ × ℕ)) : Except String ℕ :=
  if shares.length < k then .error "Not enough shares to reconstruct secret"
  else if (shares.map Prod.fst).dedup.length < shares.length then
    .error "Share inputs need to be unique"
  else
    -- if more than k shares are provided, only the first k are used
    (List.range k).foldlM
      (fun sum j =>
        (shamirProduct k shares j).map fun product =>
          F1Field.add sum (F1Field.mul (F1Field.e (shares.getD j (0, 0)).2) product))
      (F1Field.e 0)

/-- A loop over a range whose steps go through one value after the other. -/
theorem foldlM_range_ok {β ε : Type} {f : β → ℕ → Except ε β} (value : ℕ → β) {n : ℕ}
    (h : ∀ i < n, f (value i) i = .ok (value (i + 1))) :
    (List.range n).foldlM f (value 0) = .ok (value n) := by
  induction n with
  | zero => rfl
  | succ n ih =>
      rw [List.range_succ, List.foldlM_append, ih fun i hi => h i (by omega)]
      show ([n].foldlM f (value n)) = _
      rw [List.foldlM_cons, h n (by omega)]
      rfl

/-! ## The result -/

section Shares

/-- The index of share `m`, as an element. -/
def shareX (shares : List (ℕ × ℕ)) (m : ℕ) : F := (shares.getD m (0, 0)).1

def shareY (shares : List (ℕ × ℕ)) (m : ℕ) : F := (shares.getD m (0, 0)).2

variable {k : ℕ} {shares : List (ℕ × ℕ)}

theorem shamirProduct_eq {j : ℕ}
    (hx : ∀ m < k, m ≠ j → shareX shares m ≠ shareX shares j) :
    shamirProduct k shares j = .ok (weightAtZero k (shareX shares) j).val := by
  have hstart : F1Field.e 1 = (weightAtZero 0 (shareX shares) j).val := by
    rw [weightAtZero_zero]
    exact F1Field.e_eq_val 1
  rw [shamirProduct, hstart]
  refine foldlM_range_ok (fun n => (weightAtZero n (shareX shares) j).val) ?_
  intro m hm
  show (if m = j then _ else _) = Except.ok (weightAtZero (m + 1) (shareX shares) j).val
  rw [weightAtZero_succ]
  by_cases hmj : m = j
  · rw [if_pos hmj, if_pos hmj, mul_one]
  · have hne : shareX shares m - shareX shares j ≠ 0 := sub_ne_zero.mpr (hx m hm hmj)
    rw [if_neg hmj, if_neg hmj, F1Field.e_eq_val, F1Field.e_eq_val]
    show (F1Field.div (shareX shares m).val
      (F1Field.sub (shareX shares m).val (shareX shares j).val)).map _ = _
    rw [F1Field.sub_val, F1Field.div_val _ hne]
    show Except.ok (F1Field.mul (weightAtZero m (shareX shares) j).val _) = _
    rw [F1Field.mul_val]

/-- **THE RESULT** is the weighted sum of the first `k` shares. -/
theorem reconstruct_eq (hlen : k ≤ shares.length)
    (hnodup : (shares.map Prod.fst).Nodup)
    (hx : Set.InjOn (shareX shares) (Finset.range k)) :
    reconstructShamirSecret k shares = .ok
      (∑ j ∈ Finset.range k, shareY shares j * weightAtZero k (shareX shares) j).val := by
  have hdedup : ¬ (shares.map Prod.fst).dedup.length < shares.length := by
    rw [hnodup.dedup, List.length_map]
    exact Nat.lt_irrefl _
  have hstart : F1Field.e 0 = (∑ j ∈ Finset.range 0,
      shareY shares j * weightAtZero k (shareX shares) j).val := by
    rw [Finset.sum_range_zero]
    exact F1Field.e_eq_val 0
  rw [reconstructShamirSecret, if_neg (Nat.not_lt.mpr hlen), if_neg hdedup, hstart]
  refine foldlM_range_ok (fun n => (∑ j ∈ Finset.range n,
    shareY shares j * weightAtZero k (shareX shares) j).val) ?_
  intro j hj
  have hproduct : shamirProduct k shares j
      = .ok (weightAtZero k (shareX shares) j).val := by
    refine shamirProduct_eq ?_
    intro m hm hmj heq
    exact hmj (hx (Finset.mem_coe.mpr (Finset.mem_range.mpr hm))
      (Finset.mem_coe.mpr (Finset.mem_range.mpr hj)) heq)
  show (shamirProduct k shares j).map _ = Except.ok (∑ j ∈ Finset.range (j + 1),
    shareY shares j * weightAtZero k (shareX shares) j).val
  rw [hproduct, Finset.sum_range_succ, F1Field.e_eq_val]
  show Except.ok (F1Field.add _ (F1Field.mul (shareY shares j).val _)) = _
  rw [F1Field.mul_val, F1Field.add_val]

/-- Indices below the modulus are distinct elements. -/
theorem injOn_shareX (hlen : k ≤ shares.length) (hnodup : (shares.map Prod.fst).Nodup)
    (hlt : ∀ p ∈ shares, p.1 < bn254r) : Set.InjOn (shareX shares) (Finset.range k) := by
  have hindex : ∀ {m : ℕ} (hm : m < shares.length), shareX shares m = (shares[m].1 : F) := by
    intro m hm
    rw [shareX, List.getD_eq_getElem _ _ hm]
  intro m hm m' hm' heq
  have hm : m < shares.length :=
    Nat.lt_of_lt_of_le (Finset.mem_range.mp (Finset.mem_coe.mp hm)) hlen
  have hm' : m' < shares.length :=
    Nat.lt_of_lt_of_le (Finset.mem_range.mp (Finset.mem_coe.mp hm')) hlen
  rw [hindex hm, hindex hm', ZMod.natCast_eq_natCast_iff',
    Nat.mod_eq_of_lt (hlt _ (List.getElem_mem hm)),
    Nat.mod_eq_of_lt (hlt _ (List.getElem_mem hm'))] at heq
  have hl : m < (shares.map Prod.fst).length := by rwa [List.length_map]
  have hl' : m' < (shares.map Prod.fst).length := by rwa [List.length_map]
  have hfst : (shares.map Prod.fst)[m] = (shares.map Prod.fst)[m'] := by
    rw [List.getElem_map, List.getElem_map, heq]
  exact (List.Nodup.getElem_inj_iff hnodup).mp hfst

/-- **POINTS OF A POLYNOMIAL** of degree below `k` give its constant. -/
theorem reconstruct_points (coef : ℕ → F) (hk : 1 ≤ k) (hlen : k ≤ shares.length)
    (hnodup : (shares.map Prod.fst).Nodup) (hlt : ∀ p ∈ shares, p.1 < bn254r)
    (hvalue : ∀ p ∈ shares, (p.2 : F) = ∑ i ∈ Finset.range k, coef i * (p.1 : F) ^ i) :
    reconstructShamirSecret k shares = .ok (coef 0).val := by
  have hx := injOn_shareX hlen hnodup hlt
  have hvalues : ∀ j < k, shareY shares j
      = ∑ i ∈ Finset.range k, coef i * shareX shares j ^ i := by
    intro j hj
    have hj' : j < shares.length := Nat.lt_of_lt_of_le hj hlen
    rw [shareX, shareY, List.getD_eq_getElem _ _ hj']
    exact hvalue _ (List.getElem_mem hj')
  rw [reconstruct_eq hlen hnodup hx, constant_of_values hk hx hvalues]

end Shares

end Albus.Core
