import Mathlib.Algebra.Ring.Nat
import Mathlib.Data.List.Basic

/-! # Records of one size in a buffer

    A buffer that holds records one behind another is cut into them, and what is
    written to the buffer is read as what becomes of the list of records. -/

namespace Albus.Lib

universe u

variable {α : Type u}

/-- The first `n` records of `size` elements each. -/
def records (size : ℕ) : ℕ → List α → List (List α)
  | 0, _ => []
  | n + 1, l => l.take size :: records size n (l.drop size)

@[simp] theorem length_records (size n : ℕ) (l : List α) : (records size n l).length = n := by
  induction n generalizing l with
  | zero => rfl
  | succ n ih => rw [records, List.length_cons, ih]

/-- Records that were laid out are the ones that are cut. -/
theorem records_flatten {size : ℕ} {rs : List (List α)} (h : ∀ r ∈ rs, r.length = size)
    (rest : List α) : records size rs.length (rs.flatten ++ rest) = rs := by
  induction rs with
  | nil => rfl
  | cons r rs ih =>
      have hr : r.length = size := h r List.mem_cons_self
      rw [List.length_cons, records, List.flatten_cons, List.append_assoc, ← hr, List.take_left,
        List.drop_left, hr, ih fun r' hr' => h r' (List.mem_cons_of_mem r hr')]

/-- Every record of a buffer that is long enough has its size. -/
theorem length_of_mem_records {size n : ℕ} {l : List α} (h : n * size ≤ l.length) {r : List α}
    (hr : r ∈ records size n l) : r.length = size := by
  induction n generalizing l with
  | zero => exact absurd hr List.not_mem_nil
  | succ n ih =>
      rw [Nat.succ_mul] at h
      rcases List.mem_cons.mp hr with rfl | hr
      · rw [List.length_take, Nat.min_eq_left (by omega)]
      · exact ih (by rw [List.length_drop]; omega) hr

/-- The records and what is behind them are the buffer. -/
theorem flatten_records {size n : ℕ} {l : List α} (h : n * size ≤ l.length) :
    (records size n l).flatten ++ l.drop (n * size) = l := by
  induction n generalizing l with
  | zero => rw [Nat.zero_mul, List.drop_zero]; rfl
  | succ n ih =>
      rw [Nat.succ_mul] at h
      rw [records, List.flatten_cons, Nat.succ_mul, Nat.add_comm, ← List.drop_drop,
        List.append_assoc, ih (by rw [List.length_drop]; omega), List.take_append_drop]

/-- The elements of records of one size. -/
theorem length_flatten_of_forall {size : ℕ} {rs : List (List α)}
    (h : ∀ r ∈ rs, r.length = size) : rs.flatten.length = rs.length * size := by
  induction rs with
  | nil => rw [List.flatten_nil, List.length_nil, List.length_nil, Nat.zero_mul]
  | cons r rs ih =>
      rw [List.flatten_cons, List.length_append, h r List.mem_cons_self, List.length_cons,
        ih fun r' hr' => h r' (List.mem_cons_of_mem r hr'), Nat.succ_mul, Nat.add_comm]

/-! ## Pieces of several sizes -/

/-- A buffer cut into pieces of these sizes. -/
def splitSizes : List ℕ → List α → List (List α)
  | [], _ => []
  | n :: sizes, l => l.take n :: splitSizes sizes (l.drop n)

/-- Pieces that were put together are the ones that are cut. -/
theorem splitSizes_flatten (ps : List (List α)) :
    splitSizes (ps.map List.length) ps.flatten = ps := by
  induction ps with
  | nil => rfl
  | cons p ps ih =>
      rw [List.map_cons, List.flatten_cons, splitSizes, List.take_left, List.drop_left, ih]

/-- The pieces of a buffer of their total size are the buffer, each of its size. -/
theorem flatten_splitSizes {sizes : List ℕ} {l : List α} (h : l.length = sizes.sum) :
    (splitSizes sizes l).flatten = l ∧ (splitSizes sizes l).map List.length = sizes := by
  induction sizes generalizing l with
  | nil =>
      rw [List.eq_nil_of_length_eq_zero h]
      exact ⟨rfl, rfl⟩
  | cons n sizes ih =>
      rw [List.sum_cons] at h
      obtain ⟨hflatten, hlength⟩ := ih (l := l.drop n) (by rw [List.length_drop]; omega)
      rw [splitSizes, List.flatten_cons, hflatten, List.take_append_drop, List.map_cons, hlength,
        List.length_take, Nat.min_eq_left (by omega)]
      exact ⟨rfl, rfl⟩

/-! ## Writes -/

/-- `new` is written at `i`. -/
def overwrite (l : List α) (i : ℕ) (new : List α) : List α :=
  l.take i ++ new ++ l.drop (i + new.length)

/-- A piece is replaced by one of its length. -/
theorem overwrite_append {a old new : List α} (h : old.length = new.length) (rest : List α) :
    overwrite (a ++ old ++ rest) a.length new = a ++ new ++ rest := by
  rw [overwrite, List.append_assoc a old, List.take_left, ← h, ← List.drop_drop, List.drop_left,
    List.drop_left]

/-- The front is replaced by one of its length. -/
theorem overwrite_front {old new : List α} (h : old.length = new.length) (rest : List α) :
    overwrite (old ++ rest) 0 new = new ++ rest :=
  overwrite_append (a := []) h rest

/-- What is in front of the place stays. -/
theorem overwrite_add {a : List α} {k : ℕ} (h : a.length = k) (l : List α) (i : ℕ)
    (new : List α) : overwrite (a ++ l) (k + i) new = a ++ overwrite l i new := by
  rw [overwrite, overwrite, ← h, Nat.add_assoc, List.take_length_add_append,
    List.drop_length_add_append, List.append_assoc, List.append_assoc, List.append_assoc]

theorem length_overwrite {l new : List α} {i : ℕ} (h : i + new.length ≤ l.length) :
    (overwrite l i new).length = l.length := by
  rw [overwrite, List.length_append, List.length_append, List.length_take, List.length_drop]
  omega

/-- The record at `i` is replaced by one of its size. -/
theorem overwrite_flatten {size : ℕ} {rs : List (List α)} (h : ∀ r ∈ rs, r.length = size)
    {i : ℕ} (hi : i < rs.length) {new : List α} (hnew : new.length = size) (rest : List α) :
    overwrite (rs.flatten ++ rest) (i * size) new = (rs.set i new).flatten ++ rest := by
  induction rs generalizing i with
  | nil => exact absurd hi (Nat.not_lt_zero i)
  | cons r rs ih =>
      have hr : r.length = size := h r List.mem_cons_self
      cases i with
      | zero =>
          rw [List.set_cons_zero, List.flatten_cons, List.flatten_cons, Nat.zero_mul,
            List.append_assoc r, List.append_assoc new]
          exact overwrite_front (hr.trans hnew.symm) (rs.flatten ++ rest)
      | succ i =>
          have htail := ih (fun r' hr' => h r' (List.mem_cons_of_mem r hr'))
            (Nat.lt_of_succ_lt_succ hi)
          rw [List.set_cons_succ, List.flatten_cons, List.flatten_cons, List.append_assoc,
            List.append_assoc, ← htail, Nat.succ_mul, Nat.add_comm (i * size),
            overwrite_add hr]

/-- `memmove`: the `n` elements at `src` are written at `dst`. -/
def memmove (l : List α) (dst src n : ℕ) : List α := overwrite l dst ((l.drop src).take n)

/-- A piece moves down over what is in front of it. -/
theorem memmove_down (a gap piece rest : List α) :
    memmove (a ++ gap ++ piece ++ rest) a.length (a.length + gap.length) piece.length
      = a ++ piece ++ (gap ++ piece).drop piece.length ++ rest := by
  have hpiece : ((a ++ gap ++ piece ++ rest).drop (a.length + gap.length)).take piece.length
      = piece := by
    rw [← List.length_append, List.append_assoc, List.drop_left, List.take_left]
  -- what is written over is the front of the gap and the piece
  have hsplit : a ++ gap ++ piece ++ rest
      = a ++ (gap ++ piece).take piece.length ++ ((gap ++ piece).drop piece.length ++ rest) := by
    rw [List.append_assoc a (List.take _ _), ← List.append_assoc (List.take _ _),
      List.take_append_drop, List.append_assoc a gap, List.append_assoc a (gap ++ piece)]
  have hfront : ((gap ++ piece).take piece.length).length = piece.length := by
    rw [List.length_take, List.length_append, Nat.min_eq_left (Nat.le_add_left _ _)]
  rw [memmove, hpiece, hsplit, overwrite_append hfront, List.append_assoc (a ++ piece)]

end Albus.Lib
