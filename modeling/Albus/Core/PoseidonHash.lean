import Albus.Core.Smt
import Albus.Lib.SparseRounds
import Mathlib.Data.List.OfFn

/-! # The two permutations of `poseidon/poseidon-opt.ts`

    `Poseidon.hash` runs the optimised rounds on the tables of `poseidon-constants-opt.json`,
    `poseidonStrategy` the plain ones on `poseidon-constants.json`.  A state is the list of
    residues of a vector (`stateOf`), each loop is then one of `SparseRounds`, and under the
    equations between the tables the hash is the first element of the plain permutation
    (`hash_eq_poseidonStrategy`).  The hash takes one to sixteen inputs, the plain
    permutation states of fewer than sixteen elements, so they meet on one to fourteen.

    A read behind the end of a table is zero here; the tables that are spoken of are as
    long as the loops (`Fits`). -/

namespace Albus.Core.PoseidonOpt

open Albus.Lib Matrix

/-! ## The source -/

def nRoundsF : ℕ := 8

/-- `N_ROUNDS_P`. -/
def nRoundsP : List ℕ := [56, 57, 56, 60, 60, 63, 64, 63, 60, 66, 60, 65, 70, 60, 64, 68]

def pow5 (a : ℕ) : ℕ := F1Field.mul a (F1Field.square (F1Field.square a))

/-- `poseidon-constants.json`. -/
structure PoseidonConstants where
  C : List (List ℕ)
  M : List (List (List ℕ))

/-- `poseidon-constants-opt.json`. -/
structure OptConstants where
  C : List (List ℕ)
  S : List (List ℕ)
  M : List (List (List ℕ))
  P : List (List (List ℕ))

/-- An entry of a matrix. -/
def entry (m : List (List ℕ)) (i j : ℕ) : ℕ := (m.getD i []).getD j 0

/-- `state.map((a, i) => F.add(a, C[s + i]))`. -/
def addConstants (C : List ℕ) (s : ℕ) (state : List ℕ) : List ℕ :=
  state.mapIdx fun i a => F1Field.add a (C.getD (s + i) 0)

/-- `state.reduce((acc, a, j) => F.add(acc, F.mul(m[j], a)), F.zero)`. -/
def reduce (m : ℕ → ℕ) (state : List ℕ) : ℕ :=
  (state.mapIdx fun j a => F1Field.mul (m j) a).foldl F1Field.add 0

/-- The mix of every round. -/
def mix (m : ℕ → ℕ → ℕ) (state : List ℕ) : List ℕ :=
  state.mapIdx fun i _ => reduce (m i) state

section Hash

variable (OPT : OptConstants)

/-- The body of the first and the third loop of `hash`. -/
def fullRound (t s : ℕ) (state : List ℕ) (r : ℕ) : List ℕ :=
  mix (fun i j => entry (OPT.M.getD (t - 2) []) j i)
    (addConstants (OPT.C.getD (t - 2) []) (s + r * t) (state.map pow5))

/-- The body of the second loop. -/
def partialRound (t : ℕ) (state : List ℕ) (r : ℕ) : List ℕ :=
  let C := OPT.C.getD (t - 2) []
  let S := OPT.S.getD (t - 2) []
  let state := state.set 0 (pow5 (state.getD 0 0))
  let state := state.set 0 (F1Field.add (state.getD 0 0) (C.getD ((nRoundsF / 2 + 1) * t + r) 0))
  let s0 := reduce (fun j => S.getD ((t * 2 - 1) * r + j) 0) state
  let state := (List.range' 1 (t - 1)).foldl (fun state k =>
    state.set k (F1Field.add (state.getD k 0)
      (F1Field.mul (state.getD 0 0) (S.getD ((t * 2 - 1) * r + t + k - 1) 0)))) state
  state.set 0 s0

/-- The rounds of `Poseidon.hash` on the elements of its inputs. -/
def permute (inputs : List ℕ) : ℕ :=
  let t := inputs.length + 1
  let nP := nRoundsP.getD (t - 2) 0
  let C := OPT.C.getD (t - 2) []
  let P := OPT.P.getD (t - 2) []
  let state := 0 :: inputs
  let state := addConstants C 0 state
  let state := (List.range (nRoundsF / 2 - 1)).foldl (fullRound OPT t t) state
  let state := state.map pow5
  let state := addConstants C ((nRoundsF / 2 - 1 + 1) * t) state
  let state := mix (fun i j => entry P j i) state
  let state := (List.range nP).foldl (partialRound OPT t) state
  let state := (List.range (nRoundsF / 2 - 1)).foldl
    (fullRound OPT t ((nRoundsF / 2 + 1) * t + nP)) state
  let state := state.map pow5
  let state := mix (fun i j => entry (OPT.M.getD (t - 2) []) j i) state
  state.getD 0 0

/-- `Poseidon.hash`. -/
def hash (inputs : List ℕ) : Except String ℕ :=
  if ¬ (0 < inputs.length ∧ inputs.length ≤ nRoundsP.length) then .error "Invalid inputs"
  else .ok (Poseidon.hash (permute OPT) inputs)

end Hash

section Strategy

variable (constants : PoseidonConstants)

/-- The body of the loop of `poseidonStrategy`. -/
def strategyRound (t nP : ℕ) (state : List ℕ) (r : ℕ) : List ℕ :=
  let state := addConstants (constants.C.getD (t - 2) []) (r * t) state
  let state :=
    if r < nRoundsF / 2 ∨ nRoundsF / 2 + nP ≤ r then state.map pow5
    else state.set 0 (pow5 (state.getD 0 0))
  mix (fun i j => entry (constants.M.getD (t - 2) []) i j) state

/-- The rounds of `poseidonStrategy`.  For one element there is no `N_ROUNDS_P[t - 2]`: the
    bound of the loop is not a number, and no round is made. -/
def poseidonRounds (state : List ℕ) : List ℕ :=
  let t := state.length
  let nP := nRoundsP.getD (t - 2) 0
  let rounds := if t < 2 then 0 else nRoundsF + nP
  let state := state.map fun x : ℕ => F1Field.e x
  let state := (List.range rounds).foldl (strategyRound constants t nP) state
  state.map fun x : ℕ => F1Field.normalize x

/-- `poseidonStrategy`, with its two assertions. -/
def poseidonStrategy (state : List ℕ) : Except String (List ℕ) :=
  if ¬ 0 < state.length then .error "AssertionError"
  else if ¬ state.length < nRoundsP.length then .error "AssertionError"
  else .ok (poseidonRounds constants state)

end Strategy

/-! ## States as vectors -/

section Vectors

variable {t : ℕ}

/-- The residues of a vector. -/
def stateOf (x : Fin t → F) : List ℕ := List.ofFn fun i => (x i).val

theorem length_stateOf (x : Fin t → F) : (stateOf x).length = t := List.length_ofFn

theorem getD_stateOf (x : Fin t → F) (i : Fin t) : (stateOf x).getD i 0 = (x i).val := by
  rw [stateOf, List.getD_eq_getElem?_getD, List.getElem?_ofFn, dif_pos i.isLt]
  rfl

theorem mapIdx_stateOf (f : ℕ → ℕ → ℕ) (x y : Fin t → F)
    (h : ∀ i : Fin t, f i (x i).val = (y i).val) : (stateOf x).mapIdx f = stateOf y := by
  apply List.ext_getElem
  · rw [List.length_mapIdx, length_stateOf, length_stateOf]
  · intro i hi _
    rw [List.length_mapIdx, length_stateOf] at hi
    rw [List.getElem_mapIdx]
    simp only [stateOf, List.getElem_ofFn]
    exact h ⟨i, hi⟩

theorem map_stateOf (f : ℕ → ℕ) (x y : Fin t → F) (h : ∀ i, f (x i).val = (y i).val) :
    (stateOf x).map f = stateOf y := by
  rw [stateOf, List.map_ofFn, stateOf]
  exact congrArg List.ofFn (funext h)

theorem set_stateOf (x : Fin t → F) (i : Fin t) (v : F) :
    (stateOf x).set i v.val = stateOf (Function.update x i v) := by
  apply List.ext_getElem
  · rw [List.length_set, length_stateOf, length_stateOf]
  · intro j hj _
    rw [List.length_set, length_stateOf] at hj
    rw [List.getElem_set]
    simp only [stateOf, List.getElem_ofFn]
    by_cases h : (i : ℕ) = j
    · rw [if_pos h, show (⟨j, hj⟩ : Fin t) = i from Fin.ext h.symm, Function.update_self]
    · rw [if_neg h, Function.update_of_ne fun hji => h (congrArg Fin.val hji).symm]

theorem stateOf_injective : Function.Injective (stateOf (t := t)) := by
  intro x y h
  funext i
  refine ZMod.val_injective bn254r ?_
  rw [← getD_stateOf, h, getD_stateOf]

/-- The residues of any state are those of a vector. -/
theorem exists_stateOf (state : List ℕ) (hlen : state.length = t) :
    ∃ x : Fin t → F, state.map (fun a : ℕ => F1Field.e a) = stateOf x := by
  subst hlen
  refine ⟨fun i => ((state.get i : ℕ) : F), List.ext_getElem ?_ fun i hi hi' => ?_⟩
  · rw [List.length_map, length_stateOf]
  · simp [stateOf, F1Field.e_eq_val]

/-! ## The operations on vectors -/

/-- The fifth power. -/
def fifth (a : F) : F := a * (a * a * (a * a))

theorem pow5_val (a : F) : pow5 a.val = (fifth a).val := by
  rw [pow5, F1Field.square_val, F1Field.square_val, F1Field.mul_val, fifth]

theorem map_pow5 (x : Fin t → F) : (stateOf x).map pow5 = stateOf (sboxAll fifth x) :=
  map_stateOf _ _ _ fun i => pow5_val (x i)

/-- Part of a table, as a vector. -/
def row (C : List ℕ) (s : ℕ) : Fin t → F := fun i => (C.getD (s + i) 0 : ℕ)

/-- A table of residues. -/
def Residues (C : List ℕ) : Prop := ∀ c ∈ C, c < bn254r

instance (C : List ℕ) : Decidable (Residues C) := inferInstanceAs (Decidable (∀ c ∈ C, _))

theorem Residues.getD {C : List ℕ} (h : Residues C) (i : ℕ) :
    C.getD i 0 = ((C.getD i 0 : ℕ) : F).val := by
  rw [ZMod.val_cast_of_lt]
  rw [List.getD_eq_getElem?_getD]
  cases hi : C[i]? with
  | none => decide
  | some c => exact h c (List.mem_of_getElem? hi)

theorem addConstants_stateOf {C : List ℕ} (h : Residues C) (s : ℕ) (x : Fin t → F) :
    addConstants C s (stateOf x) = stateOf (x + row C s) :=
  mapIdx_stateOf _ _ _ fun i => by
    rw [h.getD, F1Field.add_val]
    rfl

theorem foldl_add (l : List F) (v : F) :
    (l.map ZMod.val).foldl F1Field.add v.val = (v + l.sum).val := by
  induction l generalizing v with
  | nil => rw [List.map_nil, List.foldl_nil, List.sum_nil, add_zero]
  | cons a l ih =>
      rw [List.map_cons, List.foldl_cons, F1Field.add_val, ih, List.sum_cons, add_assoc]

theorem mul_cast_val (c : ℕ) (a : F) : F1Field.mul c a.val = ((c : F) * a).val := by
  rw [ZMod.val_mul, ZMod.val_natCast, Nat.mod_mul_mod]
  rfl

theorem reduce_stateOf (m : ℕ → ℕ) (x : Fin t → F) :
    reduce m (stateOf x) = (∑ j : Fin t, (m j : F) * x j).val := by
  have hmul : (stateOf x).mapIdx (fun j a => F1Field.mul (m j) a)
      = stateOf fun j => (m j : F) * x j :=
    mapIdx_stateOf _ _ _ fun j => mul_cast_val (m j) (x j)
  rw [reduce, hmul, ← List.sum_ofFn, ← zero_add (List.sum _), ← foldl_add, stateOf, List.map_ofFn,
    ZMod.val_zero]
  rfl

/-- The matrix of a mix. -/
def matrixOf (m : ℕ → ℕ → ℕ) : Matrix (Fin t) (Fin t) F := Matrix.of fun i j => (m i j : F)

theorem mix_stateOf (m : ℕ → ℕ → ℕ) (x : Fin t → F) :
    mix m (stateOf x) = stateOf (matrixOf m *ᵥ x) :=
  mapIdx_stateOf _ _ _ fun i => reduce_stateOf (m i) x

/-! ## One partial round -/

variable {m : ℕ}

/-- The matrix that the body of the second loop multiplies with: a row and a column of the
    table, and the identity elsewhere. -/
def sparseMatrix (S : List ℕ) (s : ℕ) : Matrix (Fin (m + 1)) (Fin (m + 1)) F :=
  Matrix.of fun i j =>
    if i = 0 then (S.getD (s + j) 0 : ℕ)
    else if j = 0 then (S.getD (s + (m + 1) + i - 1) 0 : ℕ)
    else if i = j then 1 else 0

/-- The state when the inner loop has reached `n`. -/
def lowered (S : List ℕ) (s n : ℕ) (x : Fin (m + 1) → F) : Fin (m + 1) → F := fun i =>
  if 0 < (i : ℕ) ∧ (i : ℕ) ≤ n then
    x i + x 0 * (S.getD (s + (m + 1) + i - 1) 0 : ℕ)
  else x i

theorem lowered_succ (S : List ℕ) (s : ℕ) {n : ℕ} (h : n + 1 < m + 1) (x : Fin (m + 1) → F) :
    lowered S s (n + 1) x = Function.update (lowered S s n x) ⟨n + 1, h⟩
      (lowered S s n x ⟨n + 1, h⟩
        + lowered S s n x 0 * (S.getD (s + (m + 1) + (n + 1) - 1) 0 : ℕ)) := by
  have hzero : lowered S s n x 0 = x 0 := if_neg fun h0 => Nat.lt_irrefl 0 h0.1
  funext i
  by_cases hi : i = ⟨n + 1, h⟩
  · subst hi
    rw [Function.update_self, hzero, lowered, lowered, if_pos ⟨Nat.succ_pos n, Nat.le_refl _⟩,
      if_neg fun h0 => Nat.not_succ_le_self n h0.2]
  · have hne : (i : ℕ) ≠ n + 1 := fun h0 => hi (Fin.ext h0)
    rw [Function.update_of_ne hi, lowered, lowered]
    refine if_congr ?_ rfl rfl
    omega

theorem foldl_lowered (S : List ℕ) (s : ℕ) (x : Fin (m + 1) → F) : ∀ n ≤ m,
    (List.range' 1 n).foldl (fun state k =>
      state.set k (F1Field.add (state.getD k 0)
        (F1Field.mul (state.getD 0 0) (S.getD (s + (m + 1) + k - 1) 0)))) (stateOf x)
      = stateOf (lowered S s n x) := by
  intro n
  induction n with
  | zero =>
      intro _
      refine congrArg stateOf (funext fun i => (if_neg ?_).symm)
      omega
  | succ n ih =>
      intro hn
      have hlt : n + 1 < m + 1 := Nat.succ_lt_succ hn
      have hget := getD_stateOf (lowered S s n x) ⟨n + 1, hlt⟩
      have hget0 := getD_stateOf (lowered S s n x) 0
      have hmul : ∀ (a : F) (c : ℕ), F1Field.mul a.val c = (a * (c : F)).val := by
        intro a c
        rw [mul_comm, ← mul_cast_val, F1Field.mul, F1Field.mul, Nat.mul_comm]
      rw [List.range'_concat, List.foldl_append, ih (Nat.le_of_succ_le hn), List.foldl_cons,
        List.foldl_nil, Nat.one_mul, Nat.add_comm 1 n, hget,
        show (stateOf (lowered S s n x)).getD 0 0 = (lowered S s n x 0).val from hget0, hmul,
        F1Field.add_val, set_stateOf _ ⟨n + 1, hlt⟩, lowered_succ S s hlt]

theorem sparse_mulVec (S : List ℕ) (s : ℕ) (x : Fin (m + 1) → F) :
    sparseMatrix S s *ᵥ x
      = Function.update (lowered S s m x) 0 (∑ j : Fin (m + 1), (S.getD (s + j) 0 : ℕ) * x j) := by
  funext i
  by_cases hi : i = 0
  · subst hi
    rw [Function.update_self, mulVec, dotProduct]
    refine Finset.sum_congr rfl fun j _ => ?_
    rw [sparseMatrix, Matrix.of_apply, if_pos rfl]
  · have hpos : 0 < (i : ℕ) := Nat.pos_of_ne_zero fun h => hi (Fin.ext h)
    rw [Function.update_of_ne hi, mulVec, dotProduct, Fin.sum_univ_succ, lowered,
      if_pos ⟨hpos, Nat.le_of_lt_succ i.isLt⟩]
    obtain ⟨k, rfl⟩ := Fin.exists_succ_eq.mpr hi
    rw [Finset.sum_eq_single k]
    · simp [sparseMatrix]
      ring
    · intro j _ hj
      simp [sparseMatrix, Ne.symm hj]
    · exact fun h => absurd (Finset.mem_univ k) h

/-! ## The loops -/

/-- A loop whose body is one round. -/
theorem foldl_rounds {f : List ℕ → ℕ → List ℕ} {g : ℕ → (Fin t → F) → Fin t → F}
    {x : Fin t → F} (hzero : g 0 x = x) {n : ℕ}
    (hstep : ∀ r < n, f (stateOf (g r x)) r = stateOf (g (r + 1) x)) :
    ∀ k ≤ n, (List.range k).foldl f (stateOf x) = stateOf (g k x) := by
  intro k
  induction k with
  | zero => exact fun _ => congrArg stateOf hzero.symm
  | succ k ih =>
      intro hk
      rw [List.range_succ, List.foldl_append, ih (Nat.le_of_succ_le hk), List.foldl_cons,
        List.foldl_nil, hstep k hk]

/-- The matrix of `poseidonStrategy`. -/
def plainMatrix (constants : PoseidonConstants) (m : ℕ) : Matrix (Fin (m + 1)) (Fin (m + 1)) F :=
  matrixOf fun i j => entry (constants.M.getD (m - 1) []) i j

/-- The first `r` rounds of `poseidonStrategy` on `m + 1` elements. -/
def plainState (constants : PoseidonConstants) (m r : ℕ) (x : Fin (m + 1) → F) :
    Fin (m + 1) → F :=
  plainRounds fifth 0 (plainMatrix constants m) 3 (nRoundsP.getD (m - 1) 0)
    (fun r => row (constants.C.getD (m - 1) []) (r * (m + 1))) r x

/-- `t` rows of `t` entries. -/
def Square (t : ℕ) (rows : List (List ℕ)) : Prop :=
  rows.length = t ∧ ∀ r ∈ rows, r.length = t

instance (t : ℕ) (rows : List (List ℕ)) : Decidable (Square t rows) :=
  inferInstanceAs (Decidable (_ ∧ _))

/-- The plain tables for `m` inputs are residues, as many as `poseidonStrategy` reads. -/
structure PoseidonConstants.Fits (constants : PoseidonConstants) (m : ℕ) : Prop where
  residues : Residues (constants.C.getD (m - 1) [])
  length_C : (constants.C.getD (m - 1) []).length
    = (nRoundsF + nRoundsP.getD (m - 1) 0) * (m + 1)
  square_M : Square (m + 1) (constants.M.getD (m - 1) [])

/-- The optimised tables for `m` inputs are as long as `hash` reads, the constants
    residues. -/
structure OptConstants.Fits (OPT : OptConstants) (m : ℕ) : Prop where
  residues : Residues (OPT.C.getD (m - 1) [])
  length_C : (OPT.C.getD (m - 1) []).length = nRoundsF * (m + 1) + nRoundsP.getD (m - 1) 0
  length_S : (OPT.S.getD (m - 1) []).length
    = ((m + 1) * 2 - 1) * nRoundsP.getD (m - 1) 0
  square_M : Square (m + 1) (OPT.M.getD (m - 1) [])
  square_P : Square (m + 1) (OPT.P.getD (m - 1) [])

/-- The tables for `m` inputs, and that they are two forms of the same rounds: `K` and `d`
    are what the partial rounds keep apart. -/
structure Agree (OPT : OptConstants) (constants : PoseidonConstants) (m : ℕ)
    (K : ℕ → Matrix (Fin (m + 1)) (Fin (m + 1)) F) (d : ℕ → Fin (m + 1) → F) : Prop where
  plain : constants.Fits m
  opt : OPT.Fits m
  mixes : ∀ i j : Fin (m + 1), (entry (OPT.M.getD (m - 1) []) j i : F)
    = entry (constants.M.getD (m - 1) []) i j
  form : SparseForm 0 (plainMatrix constants m)
    (matrixOf fun i j => entry (OPT.P.getD (m - 1) []) j i) 3 (nRoundsP.getD (m - 1) 0)
    (fun r => row (constants.C.getD (m - 1) []) (r * (m + 1)))
    (row (OPT.C.getD (m - 1) []) 0)
    (fun r => row (OPT.C.getD (m - 1) []) ((r + 1) * (m + 1)))
    (fun r => row (OPT.C.getD (m - 1) [])
      (5 * (m + 1) + nRoundsP.getD (m - 1) 0 + r * (m + 1)))
    (fun r => sparseMatrix (OPT.S.getD (m - 1) []) (((m + 1) * 2 - 1) * r))
    (fun r => ((OPT.C.getD (m - 1) []).getD (5 * (m + 1) + r) 0 : ℕ)) K d

variable {OPT : OptConstants} {constants : PoseidonConstants}

section Agreement

variable {K : ℕ → Matrix (Fin (m + 1)) (Fin (m + 1)) F} {d : ℕ → Fin (m + 1) → F}

theorem Agree.mix_eq (h : Agree OPT constants m K d) (x : Fin (m + 1) → F) :
    mix (fun i j => entry (OPT.M.getD (m + 1 - 2) []) j i) (stateOf x)
      = stateOf (plainMatrix constants m *ᵥ x) := by
  rw [mix_stateOf]
  exact congrArg (fun M => stateOf (M *ᵥ x)) (Matrix.ext fun i j => h.mixes i j)

theorem Agree.fullRound_eq (h : Agree OPT constants m K d) (s r : ℕ) (y : Fin (m + 1) → F) :
    fullRound OPT (m + 1) s (stateOf y) r = stateOf (plainMatrix constants m *ᵥ
      (sboxAll fifth y + row (OPT.C.getD (m - 1) []) (s + r * (m + 1)))) := by
  rw [fullRound, map_pow5, show m + 1 - 2 = m - 1 by omega, addConstants_stateOf h.opt.residues]
  exact h.mix_eq _

theorem Agree.partialRound_eq (h : Agree OPT constants m K d) (r : ℕ) (y : Fin (m + 1) → F) :
    partialRound OPT (m + 1) (stateOf y) r
      = stateOf (sparseMatrix (OPT.S.getD (m - 1) []) (((m + 1) * 2 - 1) * r) *ᵥ
          (sboxAt fifth 0 y
            + Pi.single 0 ((OPT.C.getD (m - 1) []).getD (5 * (m + 1) + r) 0 : ℕ))) := by
  have hget : ∀ z : Fin (m + 1) → F, (stateOf z).getD 0 0 = (z 0).val := fun z =>
    getD_stateOf z 0
  have hset : ∀ (z : Fin (m + 1) → F) (v : F),
      (stateOf z).set 0 v.val = stateOf (Function.update z 0 v) := fun z v => set_stateOf z 0 v
  obtain ⟨k, hk⟩ : ∃ k, (OPT.C.getD (m - 1) []).getD (5 * (m + 1) + r) 0 = k := ⟨_, rfl⟩
  have hsbox : sboxAt fifth 0 y + Pi.single 0 (k : F)
      = Function.update (Function.update y 0 (fifth (y 0))) 0 (fifth (y 0) + k) := by
    funext i
    by_cases hi : i = 0
    · subst hi
      rw [Pi.add_apply, Pi.single_eq_same, sboxAt, Function.update_self, Function.update_self]
    · rw [Pi.add_apply, Pi.single_eq_of_ne hi, add_zero, sboxAt, Function.update_of_ne hi,
        Function.update_of_ne hi, Function.update_of_ne hi]
  have hval : k = (k : F).val := by
    rw [← hk]
    exact h.opt.residues.getD _
  rw [hk, hsbox, sparse_mulVec, partialRound]
  simp only [show m + 1 - 2 = m - 1 by omega, show m + 1 - 1 = m by omega,
    show nRoundsF / 2 + 1 = 5 from rfl, hk, hget, hset, pow5_val, Function.update_self]
  rw [hval, F1Field.add_val, hset, ← hval, reduce_stateOf, foldl_lowered _ _ _ m (Nat.le_refl m),
    hset]

/-- One round of `poseidonStrategy`. -/
theorem strategyRound_eq (h : Residues (constants.C.getD (m - 1) [])) (r : ℕ)
    (x : Fin (m + 1) → F) :
    strategyRound constants (m + 1) (nRoundsP.getD (m - 1) 0)
        (stateOf (plainState constants m r x)) r
      = stateOf (plainState constants m (r + 1) x) := by
  have hset : ∀ z : Fin (m + 1) → F,
      (stateOf z).set 0 (pow5 ((stateOf z).getD 0 0)) = stateOf (sboxAt fifth 0 z) := by
    intro z
    rw [show (stateOf z).getD 0 0 = (z 0).val from getD_stateOf z 0, pow5_val]
    exact set_stateOf z 0 _
  rw [strategyRound, plainState, plainState, plainRounds, show m + 1 - 2 = m - 1 by omega,
    addConstants_stateOf h]
  by_cases hr : r < 4 ∨ 4 + nRoundsP.getD (m - 1) 0 ≤ r
  · simp only [show nRoundsF / 2 = 4 from rfl, show 3 + 1 = 4 from rfl, if_pos hr, map_pow5,
      mix_stateOf, plainMatrix]
  · simp only [show nRoundsF / 2 = 4 from rfl, show 3 + 1 = 4 from rfl, if_neg hr, hset,
      mix_stateOf, plainMatrix]

/-- **THE PLAIN PERMUTATION**, on residues. -/
theorem poseidonRounds_eq (h : Residues (constants.C.getD (m - 1) [])) (hm : 0 < m)
    (x : Fin (m + 1) → F) :
    poseidonRounds constants (stateOf x)
      = stateOf (plainState constants m (nRoundsF + nRoundsP.getD (m - 1) 0) x) := by
  have he : (stateOf x).map (fun a : ℕ => F1Field.e a) = stateOf x :=
    map_stateOf _ _ _ fun i => F1Field.e_val (x i)
  have hloop := foldl_rounds (f := strategyRound constants (m + 1) (nRoundsP.getD (m - 1) 0))
    (g := plainState constants m) (x := x) rfl (fun r _ => strategyRound_eq h r x)
    (nRoundsF + nRoundsP.getD (m - 1) 0) (Nat.le_refl _)
  rw [poseidonRounds, length_stateOf, show m + 1 - 2 = m - 1 by omega, he,
    if_neg (show ¬ m + 1 < 2 by omega), hloop]
  exact map_stateOf _ _ _ fun i => F1Field.e_val _

theorem Agree.foldl_fullRound (h : Agree OPT constants m K d) {s : ℕ}
    {a : ℕ → Fin (m + 1) → F}
    (ha : ∀ r, a r = row (OPT.C.getD (m - 1) []) (s + r * (m + 1))) (y : Fin (m + 1) → F) :
    (List.range 3).foldl (fullRound OPT (m + 1) s) (stateOf y)
      = stateOf (denseRounds fifth (plainMatrix constants m) a 3 y) :=
  foldl_rounds (g := fun r y => denseRounds fifth (plainMatrix constants m) a r y) rfl
    (fun r _ => by rw [h.fullRound_eq, denseRounds, ha]) 3 (Nat.le_refl 3)

theorem Agree.foldl_partialRound (h : Agree OPT constants m K d) (n : ℕ)
    (y : Fin (m + 1) → F) :
    (List.range n).foldl (partialRound OPT (m + 1)) (stateOf y)
      = stateOf (sparseRounds fifth 0
          (fun r => sparseMatrix (OPT.S.getD (m - 1) []) (((m + 1) * 2 - 1) * r))
          (fun r => ((OPT.C.getD (m - 1) []).getD (5 * (m + 1) + r) 0 : ℕ)) n y) :=
  foldl_rounds (g := fun n y => sparseRounds fifth 0
      (fun r => sparseMatrix (OPT.S.getD (m - 1) []) (((m + 1) * 2 - 1) * r))
      (fun r => ((OPT.C.getD (m - 1) []).getD (5 * (m + 1) + r) 0 : ℕ)) n y) rfl
    (fun r _ => by rw [h.partialRound_eq, sparseRounds]) n (Nat.le_refl n)

/-- **THE HASH** on vectors: the first element after all the plain rounds. -/
theorem Agree.hash_eq (h : Agree OPT constants m K d) (hm : 0 < m) (hmax : m ≤ 16)
    {inputs : List ℕ} {x : Fin (m + 1) → F}
    (hx : 0 :: inputs.map (fun a : ℕ => F1Field.e a) = stateOf x) :
    hash OPT inputs
      = .ok (plainState constants m (nRoundsF + nRoundsP.getD (m - 1) 0) x 0).val := by
  have hlen : inputs.length = m := by
    have hcons := congrArg List.length hx
    rw [List.length_cons, List.length_map, length_stateOf] at hcons
    exact Nat.succ_injective hcons
  have hok : ¬ ¬ (0 < inputs.length ∧ inputs.length ≤ nRoundsP.length) := by
    rw [hlen]
    exact not_not_intro ⟨hm, hmax⟩
  have hbefore := h.foldl_fullRound (s := m + 1)
    (a := fun r => row (OPT.C.getD (m - 1) []) ((r + 1) * (m + 1)))
    (fun r => by rw [Nat.succ_mul, Nat.add_comm (m + 1)])
  have hafter := h.foldl_fullRound (s := 5 * (m + 1) + nRoundsP.getD (m - 1) 0)
    (a := fun r => row (OPT.C.getD (m - 1) [])
      (5 * (m + 1) + nRoundsP.getD (m - 1) 0 + r * (m + 1))) (fun r => rfl)
  have hmix := h.mix_eq
  rw [show m + 1 - 2 = m - 1 by omega] at hmix
  rw [hash, if_neg hok, Poseidon.hash, permute]
  simp only [List.length_map, hlen, hx, show m + 1 - 2 = m - 1 by omega,
    show nRoundsF / 2 - 1 = 3 from rfl, show nRoundsF / 2 + 1 = 5 from rfl,
    show 3 + 1 = 4 from rfl,
    addConstants_stateOf h.opt.residues, hbefore, map_pow5, mix_stateOf]
  simp only [h.foldl_partialRound, hafter, map_pow5, hmix]
  have hopt := h.form.optimised_eq_plain (σ := fifth) x
  rw [optimised] at hopt
  rw [show nRoundsF + nRoundsP.getD (m - 1) 0 = 3 + 1 + nRoundsP.getD (m - 1) 0 + 3 + 1 by
    rw [nRoundsF]; omega, plainState, ← hopt,
    show ∀ z : Fin (m + 1) → F, (stateOf z).getD 0 0 = (z 0).val from fun z => getD_stateOf z 0]
  exact congrArg Except.ok (F1Field.e_val _)

end Agreement

theorem poseidonRounds_map_e (state : List ℕ) :
    poseidonRounds constants (state.map fun a : ℕ => F1Field.e a)
      = poseidonRounds constants state := by
  rw [poseidonRounds, poseidonRounds, List.map_map, List.length_map]
  congr 2
  exact List.map_congr_left fun a _ => F1Field.e_e a

/-- The assertions hold for two to fifteen elements. -/
theorem poseidonStrategy_eq {state : List ℕ} (hpos : 0 < state.length)
    (hlt : state.length < 16) :
    poseidonStrategy constants state = .ok (poseidonRounds constants state) := by
  rw [poseidonStrategy, if_neg (not_not_intro hpos)]
  exact if_neg (not_not_intro hlt)

/-- **THE OPTIMISED HASH IS THE PLAIN ONE**: for any one to fourteen inputs, the hash is the
    first element that the permutation of the encryption leaves of a zero and the inputs. -/
theorem hash_eq_poseidonStrategy {inputs : List ℕ}
    {K : ℕ → Matrix (Fin (inputs.length + 1)) (Fin (inputs.length + 1)) F}
    {d : ℕ → Fin (inputs.length + 1) → F} (h : Agree OPT constants inputs.length K d)
    (hpos : 0 < inputs.length) (hmax : inputs.length ≤ 14) :
    hash OPT inputs
      = (poseidonStrategy constants (0 :: inputs)).map fun state => state.getD 0 0 := by
  obtain ⟨x, hx⟩ := exists_stateOf (0 :: inputs) rfl
  have hfirst : ∀ z : Fin (inputs.length + 1) → F, (stateOf z).getD 0 0 = (z 0).val :=
    fun z => getD_stateOf z 0
  have hlt : (0 :: inputs).length < 16 := by
    rw [List.length_cons]
    omega
  rw [h.hash_eq hpos (by omega) hx,
    poseidonStrategy_eq (List.length_pos_of_ne_nil (List.cons_ne_nil _ _)) hlt,
    ← poseidonRounds_map_e, hx, poseidonRounds_eq h.plain.residues hpos]
  exact congrArg Except.ok (hfirst _).symm

/-! ## Nothing is lost -/

theorem pow_mul_card (a : F) : ∀ k, a ^ (1 + k * (bn254r - 1)) = a
  | 0 => by rw [Nat.zero_mul, Nat.add_zero, pow_one]
  | k + 1 => by
      have hcard : 1 + (bn254r - 1) = bn254r := by decide
      rw [Nat.succ_mul, ← Nat.add_assoc, pow_add, pow_mul_card a k, ← pow_succ', Nat.add_comm,
        hcard, ZMod.pow_card]

/-- The fifth power has an inverse: five times the exponent is one modulo `bn254r - 1`. -/
theorem fifth_injective : Function.Injective fifth := by
  intro a b h
  have hexp : 5 * ((1 + 4 * (bn254r - 1)) / 5) = 1 + 4 * (bn254r - 1) := by decide
  have hpow : ∀ c : F, fifth c ^ ((1 + 4 * (bn254r - 1)) / 5) = c := by
    intro c
    have hc : fifth c = c ^ 5 := by
      rw [fifth]
      ring
    rw [hc, ← pow_mul, hexp, pow_mul_card]
  rw [← hpow a, h, hpow b]

/-- **THE ROUNDS LOSE NOTHING**: two states of two to fifteen elements that differ modulo the
    prime differ after all the rounds, where the mix can be undone. -/
theorem poseidonStrategy_injective (hfits : constants.Fits m) (hm : 0 < m) (hmax : m ≤ 14)
    (hM : Function.Injective fun x : Fin (m + 1) → F => plainMatrix constants m *ᵥ x)
    {state state' : List ℕ} (hlen : state.length = m + 1) (hlen' : state'.length = m + 1)
    (h : poseidonStrategy constants state = poseidonStrategy constants state') :
    state.map (fun a : ℕ => F1Field.e a) = state'.map fun a : ℕ => F1Field.e a := by
  obtain ⟨x, hx⟩ := exists_stateOf state hlen
  obtain ⟨x', hx'⟩ := exists_stateOf state' hlen'
  rw [poseidonStrategy_eq (by omega) (by omega),
    poseidonStrategy_eq (by omega) (by omega)] at h
  have hrounds := Except.ok.inj h
  rw [← poseidonRounds_map_e state, ← poseidonRounds_map_e state', hx, hx',
    poseidonRounds_eq hfits.residues hm, poseidonRounds_eq hfits.residues hm] at hrounds
  rw [hx, hx', plainRounds_injective fifth_injective hM _ (stateOf_injective hrounds)]

end Vectors

end Albus.Core.PoseidonOpt
