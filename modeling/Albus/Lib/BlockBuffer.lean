import Albus.Lib.Records

/-! # Input in blocks

    A machine takes blocks of one size and is fed pieces of any size.  What does not fill a
    block waits for the next piece, so that only the pieces put together count
    (`absorb_flatten`). -/

namespace Albus.Lib

universe u v

variable {α : Type u} {σ : Type v}

theorem records_add (size m n : ℕ) (l : List α) :
    records size (m + n) l = records size m l ++ records size n (l.drop (m * size)) := by
  induction m generalizing l with
  | zero => rw [Nat.zero_add, Nat.zero_mul, List.drop_zero]; rfl
  | succ m ih =>
      rw [Nat.succ_add, records, records, ih, List.drop_drop, Nat.succ_mul, Nat.add_comm size]
      rfl

/-- The first records do not see what is appended. -/
theorem records_append (size n : ℕ) {l : List α} (h : n * size ≤ l.length) (rest : List α) :
    records size n (l ++ rest) = records size n l := by
  induction n generalizing l with
  | zero => rfl
  | succ n ih =>
      rw [Nat.succ_mul] at h
      rw [records, records, List.take_append_of_le_length (by omega),
        List.drop_append_of_le_length (by omega), ih (by rw [List.length_drop]; omega)]

/-- The state, and what waits; the blocks that a piece fills are taken. -/
def absorb (size : ℕ) (step : σ → List α → σ) (s : σ × List α) (data : List α) : σ × List α :=
  let l := s.2 ++ data
  ((records size (l.length / size) l).foldl step s.1, l.drop (l.length / size * size))

variable {size : ℕ} {step : σ → List α → σ} {s : σ × List α}

theorem absorb_short {data : List α} (h : s.2.length + data.length < size) :
    absorb size step s data = (s.1, s.2 ++ data) := by
  rw [absorb, List.length_append, Nat.div_eq_of_lt h, Nat.zero_mul, List.drop_zero]
  rfl

/-- The first block, and then the rest. -/
theorem absorb_block (hsize : 0 < size) {data : List α} (h : size ≤ s.2.length + data.length) :
    absorb size step s data
      = absorb size step (step s.1 ((s.2 ++ data).take size), []) ((s.2 ++ data).drop size) := by
  obtain ⟨l, hl⟩ : ∃ l, s.2 ++ data = l := ⟨_, rfl⟩
  have hlen : size ≤ l.length := by
    rw [← hl, List.length_append]
    exact h
  have hdiv : l.length / size = (l.length - size) / size + 1 := Nat.div_eq_sub_div hsize hlen
  rw [absorb, absorb, hl, List.nil_append, hdiv, records, List.foldl_cons, List.length_drop,
    List.drop_drop, Nat.succ_mul, Nat.add_comm size]

theorem absorb_full (hsize : 0 < size) {data : List α} (h : s.2.length + data.length = size) :
    absorb size step s data = (step s.1 (s.2 ++ data), []) := by
  have hlen : (s.2 ++ data).length = size := by rw [List.length_append, h]
  have htake : (s.2 ++ data).take size = s.2 ++ data := by rw [← hlen, List.take_length]
  have hdrop : (s.2 ++ data).drop size = [] := by rw [← hlen, List.drop_length]
  rw [absorb_block hsize (Nat.le_of_eq h.symm), htake, hdrop, absorb_short hsize]
  rfl

theorem absorb_waiting (hsize : 0 < size) (data : List α) :
    (absorb size step s data).2.length < size := by
  rw [absorb, List.length_drop, ← Nat.mod_eq_sub_div_mul]
  exact Nat.mod_lt _ hsize

/-- **TWO PIECES** are one. -/
theorem absorb_append (hsize : 0 < size) (a b : List α) :
    absorb size step (absorb size step s a) b = absorb size step s (a ++ b) := by
  obtain ⟨l, hl⟩ : ∃ l, s.2 ++ a = l := ⟨_, rfl⟩
  obtain ⟨n, hn⟩ : ∃ n, l.length / size = n := ⟨_, rfl⟩
  have hle : n * size ≤ l.length := hn ▸ Nat.div_mul_le_self _ _
  have hsum : (l ++ b).length / size = n + (l.drop (n * size) ++ b).length / size := by
    rw [List.length_append, List.length_append, List.length_drop,
      show l.length + b.length = l.length - n * size + b.length + n * size by omega,
      Nat.add_mul_div_right _ _ hsize, Nat.add_comm]
  have hdrop : (l ++ b).drop (n * size) = l.drop (n * size) ++ b :=
    List.drop_append_of_le_length hle
  simp only [absorb, ← List.append_assoc, hl, hn]
  rw [hsum, records_add, records_append _ _ hle, hdrop, List.foldl_append, Nat.add_mul,
    ← List.drop_drop, hdrop]

/-- **ANY PIECES** are what they are put together. -/
theorem absorb_flatten (hsize : 0 < size) (hs : s.2.length < size) (pieces : List (List α)) :
    pieces.foldl (absorb size step) s = absorb size step s pieces.flatten := by
  induction pieces generalizing s with
  | nil =>
      rw [List.foldl_nil, List.flatten_nil, absorb_short hs, List.append_nil]
  | cons piece pieces ih =>
      rw [List.foldl_cons, List.flatten_cons, ih (absorb_waiting hsize piece),
        absorb_append hsize]

end Albus.Lib
