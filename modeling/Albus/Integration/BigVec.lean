import Albus.Integration.Accounts
import Albus.Lib.LittleEndian
import Albus.Lib.Records
import Albus.Lib.Simulation

/-! # The big vector of the stake pool

    `programs/albus-stake-pool/src/big_vec.rs`: a vector that lives in the bytes of an
    account, a count of four bytes and the elements behind it.  Elements are removed in
    place, by moving down the runs of kept elements one removal late.

    A buffer HOLDS a list of elements; every operation on the bytes is the operation
    on the list. -/

namespace Albus.Integration

open Albus.Lib

/-- What the vector fails with, the panics included. -/
inductive BigVecError where
  | accountDataTooSmall
  | panicked
  deriving DecidableEq, Repr

/-- `Pod`: a type that is its bytes.  The types the vector is used at are aligned anywhere. -/
structure Pod (T : Type) where
  /-- `mem::size_of` -/
  sizeOf : Nat
  toBytes : T → List UInt8
  ofBytes : List UInt8 → T
  sizeOf_pos : 0 < sizeOf
  length_toBytes : ∀ t, (toBytes t).length = sizeOf
  ofBytes_toBytes : ∀ t, ofBytes (toBytes t) = t
  toBytes_ofBytes : ∀ bytes, bytes.length = sizeOf → toBytes (ofBytes bytes) = bytes

/-- `saturating_mul` -/
def saturatingMul (w a b : Nat) : Nat := min (a * b) (2 ^ w - 1)

/-- `step_by` on a range. -/
def stepBy (start stop step : Nat) : List Nat :=
  List.range' start ((stop - start + step - 1) / step) step

structure BigVec where
  data : List UInt8

def vecSizeBytes : Nat := 4

/-- What a mutable borrow shows, and the vector after it was written through. -/
structure Borrow (β : Type) where
  value : β
  put : β → BigVec

def orPanic {α : Type} : Option α → Except BigVecError α
  | some a => .ok a
  | none => .error .panicked

/-- `&data[start..stop]` -/
def slice (data : List UInt8) (start stop : Nat) : Except BigVecError (List UInt8) :=
  if start ≤ stop ∧ stop ≤ data.length then .ok ((data.drop start).take (stop - start))
  else .error .panicked

/-- The bytes `dst + gap .. stop` move down to `dst`. -/
def moveDown (data : List UInt8) (dst gap stop : Nat) : Except BigVecError (List UInt8) := do
  let last ← orPanic (checkedSub stop gap)
  let _ ← slice data dst last
  let _ ← slice data (dst + gap) stop
  .ok (memmove data dst (dst + gap) (last - dst))

/-- The variables of the loop of `retain`. -/
structure Retain where
  data : List UInt8
  vecLen : Nat
  removalsFound : Nat
  dstStartIndex : Nat

/-- The elements kept since the last removal move down, up to `stop`. -/
def Retain.shift (size : Nat) (s : Retain) (stop : Nat) : Except BigVecError (List UInt8) :=
  if 0 < s.removalsFound then moveDown s.data s.dstStartIndex (s.removalsFound * size) stop
  else .ok s.data

/-- One round of the loop. -/
def Retain.visit (size : Nat) (predicate : List UInt8 → Bool) (s : Retain) (startIndex : Nat) :
    Except BigVecError Retain := do
  let element ← slice s.data startIndex (startIndex + size)
  if predicate element then .ok s
  else do
    let data ← s.shift size startIndex
    let dstStartIndex ← orPanic (checkedSub startIndex (s.removalsFound * size))
    let vecLen ← orPanic (checkedSub s.vecLen 1)
    .ok { data, vecLen, dstStartIndex, removalsFound := s.removalsFound + 1 }

namespace BigVec

variable {T : Type} (P : Pod T)

def len (v : BigVec) : Except BigVecError Nat := do
  let vecLen ← slice v.data 0 vecSizeBytes
  .ok (leNat vecLen)

def retain (predicate : List UInt8 → Bool) (v : BigVec) : Except BigVecError BigVec := do
  let vecLen ← v.len
  let dataEndIndex := saturatingAdd 64 vecSizeBytes (saturatingMul 64 vecLen P.sizeOf)
  let s ← (stepBy vecSizeBytes dataEndIndex P.sizeOf).foldlM (Retain.visit P.sizeOf predicate)
    { data := v.data, vecLen, removalsFound := 0, dstStartIndex := 0 }
  let data ← s.shift P.sizeOf dataEndIndex
  .ok { data := overwrite data 0 (leBytes vecSizeBytes s.vecLen) }

/-- The place of `len` elements behind the first `skip`. -/
def sliceBounds (skip len : Nat) (v : BigVec) : Except BigVecError (Nat × Nat) := do
  let vecLen ← v.len
  match checkedAdd 64 skip len with
  | none => .error .accountDataTooSmall
  | some lastItemIndex =>
      if vecLen < lastItemIndex then .error .accountDataTooSmall
      else
        let startIndex := saturatingAdd 64 vecSizeBytes (saturatingMul 64 skip P.sizeOf)
        .ok (startIndex, saturatingAdd 64 startIndex (saturatingMul 64 len P.sizeOf))

/-- `deserialize_mut_slice` -/
def deserializeMutSlice (skip len : Nat) (v : BigVec) :
    Except BigVecError (Borrow (List T)) := do
  let (startIndex, endIndex) ← v.sliceBounds P skip len
  let bytes ← slice v.data startIndex endIndex
  .ok
    { value := (records P.sizeOf len bytes).map P.ofBytes
      put := fun elements =>
        { data := overwrite v.data startIndex (elements.map P.toBytes).flatten } }

/-- `deserialize_slice` -/
def deserializeSlice (skip len : Nat) (v : BigVec) : Except BigVecError (List T) := do
  let (startIndex, endIndex) ← v.sliceBounds P skip len
  let bytes ← slice v.data startIndex endIndex
  .ok ((records P.sizeOf len bytes).map P.ofBytes)

/-- `push`, and the vector afterwards: the count is written before the room is looked at. -/
def push (element : T) (v : BigVec) : BigVec × Except BigVecError Unit :=
  match v.len with
  | .error e => (v, .error e)
  | .ok vecLen =>
      let startIndex := vecSizeBytes + vecLen * P.sizeOf
      let endIndex := startIndex + P.sizeOf
      match checkedAdd 32 vecLen 1 with
      | none => (v, .error .panicked)
      | some vecLen =>
          let data := overwrite v.data 0 (leBytes vecSizeBytes vecLen)
          if data.length < endIndex then ({ data }, .error .accountDataTooSmall)
          else ({ data := overwrite data startIndex (P.toBytes element) }, .ok ())

/-- The loop of `find`, with the elements that are left: the place of the first match. -/
def findLoop (predicate : List UInt8 → Bool) (data : List UInt8) :
    Nat → Nat → Except BigVecError (Option (Nat × List UInt8))
  | 0, _ => .ok none
  | remaining + 1, currentIndex => do
      let currentSlice ← slice data currentIndex (currentIndex + P.sizeOf)
      if predicate currentSlice then .ok (some (currentIndex, currentSlice))
      else findLoop predicate data remaining (currentIndex + P.sizeOf)

def find (predicate : List UInt8 → Bool) (v : BigVec) : Except BigVecError (Option T) := do
  let len ← v.len
  let found ← findLoop P predicate v.data len vecSizeBytes
  .ok (found.map fun place => P.ofBytes place.2)

/-- `find_mut` -/
def findMut (predicate : List UInt8 → Bool) (v : BigVec) :
    Except BigVecError (Option (Borrow T)) := do
  let len ← v.len
  let found ← findLoop P predicate v.data len vecSizeBytes
  .ok (found.map fun place =>
    { value := P.ofBytes place.2
      put := fun element => { data := overwrite v.data place.1 (P.toBytes element) } })

end BigVec

/-! ## Pieces of a buffer -/

theorem ok_bind {ε α β : Type} (a : α) (f : α → Except ε β) : (Except.ok a >>= f) = f a := rfl

theorem slice_append (a b c : List UInt8) :
    slice (a ++ b ++ c) a.length (a.length + b.length) = .ok b := by
  have hinside : a.length ≤ a.length + b.length ∧
      a.length + b.length ≤ (a ++ b ++ c).length := by
    rw [List.length_append, List.length_append]
    omega
  rw [slice, if_pos hinside, Nat.add_sub_cancel_left, List.append_assoc, List.drop_left,
    List.take_left]

/-- A piece moves down over the gap in front of it, which comes out behind it. -/
theorem moveDown_append (a gap piece rest : List UInt8) :
    ∃ gap', gap'.length = gap.length ∧
      moveDown (a ++ gap ++ piece ++ rest) a.length gap.length
        (a.length + gap.length + piece.length) = .ok (a ++ piece ++ gap' ++ rest) := by
  refine ⟨(gap ++ piece).drop piece.length, ?_, ?_⟩
  · rw [List.length_drop, List.length_append, Nat.add_sub_cancel_right]
  · have hlength : (a ++ gap ++ piece ++ rest).length
        = a.length + gap.length + piece.length + rest.length := by
      rw [List.length_append, List.length_append, List.length_append]
    have hlast : checkedSub (a.length + gap.length + piece.length) gap.length
        = some (a.length + piece.length) := by
      rw [checkedSub, if_pos (by omega)]
      exact congrArg some (by omega)
    rw [moveDown, hlast, orPanic, ok_bind, slice, if_pos (by omega), ok_bind,
      slice, if_pos (by omega), ok_bind, Nat.add_sub_cancel_left, memmove_down]

/-! ## Removal in place -/

/-- Between two rounds: the kept elements of the rounds made, in front those that have moved
    and behind a gap those that have not, and then the elements not yet seen. -/
structure Retained (size : Nat) (predicate : List UInt8 → Bool) (front spare : List UInt8)
    (seen unseen : List (List UInt8)) (s : Retain) : Prop where
  kept : ∃ moved loose gap, moved ++ loose = seen.filter predicate ∧
    gap.length = s.removalsFound * size ∧
    s.data = front ++ moved.flatten ++ gap ++ loose.flatten ++ (unseen.flatten ++ spare) ∧
    (0 < s.removalsFound → s.dstStartIndex = (front ++ moved.flatten).length)
  vecLen_eq : s.vecLen = (seen.filter predicate).length + unseen.length
  removals : (seen.filter predicate).length + s.removalsFound = seen.length

section Loop

variable {size : Nat} {predicate : List UInt8 → Bool} {front spare : List UInt8}
  {seen unseen : List (List UInt8)} {s : Retain}

/-- The bytes of what has been seen are those kept and the gap. -/
theorem length_kept {moved loose : List (List UInt8)} {gap : List UInt8}
    (hsize : ∀ r ∈ seen, r.length = size) (hkept : moved ++ loose = seen.filter predicate)
    (hgap : gap.length = s.removalsFound * size)
    (hremovals : (seen.filter predicate).length + s.removalsFound = seen.length) :
    moved.flatten.length + gap.length + loose.flatten.length = seen.length * size := by
  have hmem : ∀ r ∈ moved ++ loose, r.length = size := by
    intro r hr
    rw [hkept] at hr
    exact hsize r (List.mem_of_mem_filter hr)
  have hflat := length_flatten_of_forall hmem
  rw [List.flatten_append, List.length_append, hkept] at hflat
  rw [hgap, ← hremovals, Nat.add_mul]
  omega

/-- The kept elements come together, and the gap behind them. -/
theorem shift_kept {moved loose : List (List UInt8)} {gap rest : List UInt8}
    (hgap : gap.length = s.removalsFound * size)
    (hdata : s.data = front ++ moved.flatten ++ gap ++ loose.flatten ++ rest)
    (hdst : 0 < s.removalsFound → s.dstStartIndex = (front ++ moved.flatten).length) :
    ∃ gap', gap'.length = gap.length ∧
      s.shift size ((front ++ moved.flatten).length + gap.length + loose.flatten.length)
        = .ok (front ++ (moved ++ loose).flatten ++ gap' ++ rest) := by
  have hjoin : front ++ (moved ++ loose).flatten = front ++ moved.flatten ++ loose.flatten := by
    rw [List.flatten_append, List.append_assoc]
  rw [hjoin]
  by_cases hpos : 0 < s.removalsFound
  · obtain ⟨gap', hlen, hmove⟩ := moveDown_append (front ++ moved.flatten) gap loose.flatten rest
    refine ⟨gap', hlen, ?_⟩
    rw [Retain.shift, if_pos hpos, hdst hpos, ← hgap, hdata]
    exact hmove
  · have hnil : gap = [] := by
      rw [Nat.eq_zero_of_not_pos hpos, Nat.zero_mul] at hgap
      exact List.eq_nil_of_length_eq_zero hgap
    refine ⟨gap, rfl, ?_⟩
    rw [Retain.shift, if_neg hpos, hdata, hnil, List.append_nil, List.append_nil]

/-- **ONE ROUND** keeps the layout. -/
theorem Retained.visit {r : List UInt8}
    (h : Retained size predicate front spare seen (r :: unseen) s)
    (hsize : ∀ r' ∈ seen, r'.length = size) (hr : r.length = size) :
    ∃ s', s.visit size predicate (front.length + seen.length * size) = .ok s' ∧
      Retained size predicate front spare (seen ++ [r]) unseen s' := by
  obtain ⟨moved, loose, gap, hkept, hgap, hdata, hdst⟩ := h.kept
  have hlength := length_kept hsize hkept hgap h.removals
  have hremovals := h.removals
  have hvecLen := h.vecLen_eq
  rw [List.flatten_cons, List.append_assoc r] at hdata
  rw [List.length_cons] at hvecLen
  have hread : slice s.data (front.length + seen.length * size)
      (front.length + seen.length * size + size) = .ok r := by
    have hstart : front.length + seen.length * size
        = (front ++ moved.flatten ++ gap ++ loose.flatten).length := by
      rw [List.length_append, List.length_append, List.length_append]
      omega
    rw [hdata, ← List.append_assoc _ r, hstart, ← hr]
    exact slice_append _ r _
  rw [Retain.visit, hread, ok_bind]
  cases hp : predicate r with
  | true =>
      have hfilter : (seen ++ [r]).filter predicate = seen.filter predicate ++ [r] := by
        rw [List.filter_append, List.filter_cons_of_pos hp, List.filter_nil]
      refine ⟨s, if_pos rfl, ⟨moved, loose ++ [r], gap, ?_, hgap, ?_, hdst⟩, ?_, ?_⟩
      · rw [hfilter, ← hkept, List.append_assoc]
      · rw [hdata, List.flatten_append, List.flatten_cons, List.flatten_nil, List.append_nil,
          ← List.append_assoc _ loose.flatten r, List.append_assoc _ r]
      · rw [hfilter, List.length_append, List.length_cons, List.length_nil]
        omega
      · rw [hfilter, List.length_append, List.length_append, List.length_cons, List.length_nil]
        omega
  | false =>
      have hfilter : (seen ++ [r]).filter predicate = seen.filter predicate := by
        rw [List.filter_append, List.filter_cons_of_neg (by rw [hp]; exact Bool.false_ne_true),
          List.filter_nil, List.append_nil]
      obtain ⟨gap', hgap', hshift⟩ := shift_kept hgap hdata hdst
      have hstart : front.length + seen.length * size
          = (front ++ moved.flatten).length + gap.length + loose.flatten.length := by
        rw [List.length_append]
        omega
      have hdst' : checkedSub (front.length + seen.length * size) (s.removalsFound * size)
          = some (front ++ (moved ++ loose).flatten).length := by
        rw [checkedSub, ← hgap, if_pos (by omega), hstart, List.length_append,
          List.length_append, List.flatten_append, List.length_append]
        exact congrArg some (by omega)
      have hvecLen' : checkedSub s.vecLen 1 = some (s.vecLen - 1) := by
        rw [checkedSub, if_pos (by omega)]
      rw [if_neg Bool.false_ne_true, hdst', hstart, hshift, ok_bind, orPanic, ok_bind, hvecLen',
        orPanic, ok_bind]
      refine ⟨_, rfl, ⟨moved ++ loose, [], gap' ++ r, ?_, ?_, ?_, fun _ => rfl⟩, ?_, ?_⟩
      · rw [hfilter, List.append_nil, hkept]
      · show (gap' ++ r).length = (s.removalsFound + 1) * size
        rw [List.length_append, hgap', hgap, hr, Nat.succ_mul]
      · show _ ++ gap' ++ (r ++ _) = _
        rw [List.flatten_nil, List.append_nil, ← List.append_assoc _ gap' r, List.append_assoc _ r]
      · show s.vecLen - 1 = _
        rw [hfilter]
        omega
      · show _ + (s.removalsFound + 1) = _
        rw [hfilter, List.length_append, List.length_cons, List.length_nil]
        omega

/-- **THE LOOP** sees every element. -/
theorem retained_foldlM (hseen : ∀ r ∈ seen, r.length = size)
    (hunseen : ∀ r ∈ unseen, r.length = size)
    (h : Retained size predicate front spare seen unseen s) :
    ∃ s', (List.range' (front.length + seen.length * size) unseen.length size).foldlM
        (Retain.visit size predicate) s = .ok s' ∧
      Retained size predicate front spare (seen ++ unseen) [] s' := by
  induction unseen generalizing seen s with
  | nil =>
      rw [List.append_nil]
      exact ⟨s, rfl, h⟩
  | cons r unseen ih =>
      have hr : r.length = size := hunseen r List.mem_cons_self
      obtain ⟨s₁, hvisit, h₁⟩ := h.visit hseen hr
      have hseen₁ : ∀ r' ∈ seen ++ [r], r'.length = size := by
        intro r' hr'
        rcases List.mem_append.mp hr' with hr' | hr'
        · exact hseen r' hr'
        · rw [List.mem_singleton.mp hr']
          exact hr
      obtain ⟨s₂, hrest, h₂⟩ := ih hseen₁ (fun r' hr' => hunseen r' (List.mem_cons_of_mem r hr')) h₁
      have hnext : front.length + seen.length * size + size
          = front.length + (seen ++ [r]).length * size := by
        rw [List.length_append, List.length_cons, List.length_nil, Nat.succ_mul, Nat.add_assoc]
      refine ⟨s₂, ?_, ?_⟩
      · rw [List.length_cons, List.range'_succ, List.foldlM_cons, hvisit, ok_bind, hnext]
        exact hrest
      · rw [List.append_assoc, List.singleton_append] at h₂
        exact h₂

end Loop

/-- **REMOVAL IN PLACE**, on records: those that are kept, spare bytes for the others. -/
theorem retain_records {size : Nat} (predicate : List UInt8 → Bool) (front spare : List UInt8)
    {rs : List (List UInt8)} (hsize : ∀ r ∈ rs, r.length = size) :
    ∃ s gap, (List.range' front.length rs.length size).foldlM (Retain.visit size predicate)
        ⟨front ++ rs.flatten ++ spare, rs.length, 0, 0⟩ = .ok s ∧
      s.shift size (front.length + rs.length * size)
        = .ok (front ++ (rs.filter predicate).flatten ++ gap ++ spare) ∧
      s.vecLen = (rs.filter predicate).length ∧
      (rs.filter predicate).flatten.length + gap.length = rs.length * size := by
  have hstart : Retained size predicate front spare [] rs
      ⟨front ++ rs.flatten ++ spare, rs.length, 0, 0⟩ := by
    refine ⟨⟨[], [], [], rfl, (Nat.zero_mul _).symm, ?_, fun hpos => absurd hpos (Nat.lt_irrefl 0)⟩,
      ?_, rfl⟩
    · rw [List.flatten_nil, List.append_nil, List.append_nil, List.append_nil, List.append_assoc]
    · rw [List.filter_nil, List.length_nil, Nat.zero_add]
  obtain ⟨s, hloop, hend⟩ := retained_foldlM (fun r hr => absurd hr List.not_mem_nil) hsize hstart
  obtain ⟨moved, loose, gap, hkept, hgap, hdata, hdst⟩ := hend.kept
  obtain ⟨gap', hgap', hshift⟩ := shift_kept hgap hdata hdst
  have hlength := length_kept hsize hkept hgap hend.removals
  have hstop : front.length + rs.length * size
      = (front ++ moved.flatten).length + gap.length + loose.flatten.length := by
    rw [List.length_append]
    omega
  rw [List.length_nil, Nat.zero_mul, Nat.add_zero] at hloop
  refine ⟨s, gap', hloop, ?_, hend.vecLen_eq, ?_⟩
  · rw [hstop, hshift, hkept, List.flatten_nil, List.nil_append]
    rfl
  · have hkept' : rs.filter predicate = moved ++ loose := hkept.symm
    rw [hkept', List.flatten_append, List.length_append, hgap', ← hlength]
    omega

/-! ## What a buffer holds -/

section Holds

variable {T : Type} {P : Pod T}

/-- The elements, one behind another. -/
def Pod.layout (P : Pod T) (elements : List T) : List UInt8 := (elements.map P.toBytes).flatten

theorem Pod.length_of_mem (P : Pod T) {elements : List T} :
    ∀ r ∈ elements.map P.toBytes, r.length = P.sizeOf := by
  intro r hr
  obtain ⟨t, -, rfl⟩ := List.mem_map.mp hr
  exact P.length_toBytes t

@[simp] theorem Pod.length_layout (P : Pod T) (elements : List T) :
    (P.layout elements).length = elements.length * P.sizeOf := by
  rw [Pod.layout, length_flatten_of_forall P.length_of_mem, List.length_map]

theorem Pod.layout_append (P : Pod T) (as bs : List T) :
    P.layout (as ++ bs) = P.layout as ++ P.layout bs := by
  rw [Pod.layout, List.map_append, List.flatten_append]
  rfl

@[simp] theorem Pod.layout_singleton (P : Pod T) (t : T) : P.layout [t] = P.toBytes t := by
  rw [Pod.layout, List.map_singleton, List.flatten_singleton]

theorem Pod.ofBytes_records (P : Pod T) (elements : List T) (rest : List UInt8) :
    (records P.sizeOf elements.length (P.layout elements ++ rest)).map P.ofBytes = elements := by
  have hsize : ∀ r ∈ elements.map P.toBytes, r.length = P.sizeOf := P.length_of_mem
  have hrecords := records_flatten hsize rest
  rw [List.length_map] at hrecords
  rw [Pod.layout, hrecords, List.map_map]
  exact (List.map_congr_left fun t _ => P.ofBytes_toBytes t).trans (List.map_id elements)

/-- The vector holds these elements: their number, the elements, and spare bytes.  No slice is
    longer than `isize::MAX`. -/
structure BigVec.Holds (P : Pod T) (v : BigVec) (elements : List T) : Prop where
  addressable : v.data.length < 2 ^ 63
  counted : elements.length < 2 ^ 32
  data_eq : ∃ spare, v.data = leBytes vecSizeBytes elements.length ++ P.layout elements ++ spare

namespace BigVec

variable {v : BigVec} {es : List T}

/-- A count, elements, and what is behind them. -/
theorem length_parts (P : Pod T) (n : Nat) (ts : List T) (rest : List UInt8) :
    (leBytes vecSizeBytes n ++ P.layout ts ++ rest).length
      = vecSizeBytes + ts.length * P.sizeOf + rest.length := by
  rw [List.length_append, List.length_append, length_leBytes, Pod.length_layout]

/-- Another count takes the place of the first. -/
theorem overwrite_count (m n : Nat) (rest : List UInt8) :
    overwrite (leBytes vecSizeBytes m ++ rest) 0 (leBytes vecSizeBytes n)
      = leBytes vecSizeBytes n ++ rest := by
  refine overwrite_front ?_ rest
  rw [length_leBytes, length_leBytes]

/-- The bytes behind the place of the first `n` elements are the same. -/
def SameBehind (P : Pod T) (n : Nat) (v v' : BigVec) : Prop :=
  v'.data.drop (vecSizeBytes + n * P.sizeOf) = v.data.drop (vecSizeBytes + n * P.sizeOf)

theorem SameBehind.trans {n : Nat} {v₁ v₂ v₃ : BigVec} (h : SameBehind P n v₁ v₂)
    (h' : SameBehind P n v₂ v₃) : SameBehind P n v₁ v₃ := Eq.trans h' h

theorem SameBehind.mono {n m : Nat} {v v' : BigVec} (h : SameBehind P n v v') (hle : n ≤ m) :
    SameBehind P m v v' := by
  have hsplit : vecSizeBytes + m * P.sizeOf
      = vecSizeBytes + n * P.sizeOf + (m - n) * P.sizeOf := by
    rw [Nat.add_assoc, ← Nat.add_mul, Nat.add_sub_cancel' hle]
  have hrest := congrArg (List.drop ((m - n) * P.sizeOf)) h
  rw [List.drop_drop, List.drop_drop, ← hsplit] at hrest
  exact hrest

/-- Behind as many bytes as elements take is the rest. -/
theorem drop_parts {front rest : List UInt8} {n : Nat}
    (h : front.length = vecSizeBytes + n * P.sizeOf) :
    (front ++ rest).drop (vecSizeBytes + n * P.sizeOf) = rest := List.drop_left' h

theorem Holds.length_data (h : v.Holds P es) :
    vecSizeBytes + es.length * P.sizeOf ≤ v.data.length := by
  obtain ⟨spare, hdata⟩ := h.data_eq
  rw [hdata, length_parts]
  exact Nat.le_add_right _ _

/-- What the buffer shows. -/
def elements (P : Pod T) (v : BigVec) : List T :=
  (records P.sizeOf (leNat (v.data.take vecSizeBytes)) (v.data.drop vecSizeBytes)).map P.ofBytes

theorem Holds.take_data (h : v.Holds P es) :
    v.data.take vecSizeBytes = leBytes vecSizeBytes es.length := by
  obtain ⟨spare, hdata⟩ := h.data_eq
  rw [hdata, List.append_assoc]
  exact List.take_left' (length_leBytes _ _)

/-- The list is no other. -/
theorem Holds.elements_eq (h : v.Holds P es) : v.elements P = es := by
  obtain ⟨spare, hdata⟩ := h.data_eq
  have hbehind : v.data.drop vecSizeBytes = P.layout es ++ spare := by
    rw [hdata, List.append_assoc]
    exact List.drop_left' (length_leBytes _ _)
  rw [elements, h.take_data, leNat_leBytes_of_lt h.counted, hbehind, P.ofBytes_records]

/-- **EVERY BUFFER** whose count does not lie holds something. -/
theorem holds_elements_iff : v.Holds P (v.elements P) ↔
    v.data.length < 2 ^ 63 ∧ vecSizeBytes ≤ v.data.length ∧
      vecSizeBytes + leNat (v.data.take vecSizeBytes) * P.sizeOf ≤ v.data.length := by
  constructor
  · intro h
    have hroom := h.length_data
    rw [h.take_data, leNat_leBytes_of_lt h.counted]
    exact ⟨h.addressable, le_trans (Nat.le_add_right _ _) hroom, hroom⟩
  · rintro ⟨haddress, hfour, hroom⟩
    have hfront : (v.data.take vecSizeBytes).length = vecSizeBytes := by
      rw [List.length_take, Nat.min_eq_left hfour]
    have hbehind : leNat (v.data.take vecSizeBytes) * P.sizeOf
        ≤ (v.data.drop vecSizeBytes).length := by
      rw [List.length_drop]
      omega
    have hbytes : (v.elements P).map P.toBytes
        = records P.sizeOf (leNat (v.data.take vecSizeBytes)) (v.data.drop vecSizeBytes) := by
      rw [elements, List.map_map]
      refine (List.map_congr_left fun r hr => ?_).trans (List.map_id _)
      exact P.toBytes_ofBytes r (length_of_mem_records hbehind hr)
    have hlength : (v.elements P).length = leNat (v.data.take vecSizeBytes) := by
      rw [elements, List.length_map, length_records]
    have hcount : leBytes vecSizeBytes (leNat (v.data.take vecSizeBytes))
        = v.data.take vecSizeBytes := by
      have hback := leBytes_leNat (v.data.take vecSizeBytes)
      rw [hfront] at hback
      exact hback
    refine ⟨haddress, ?_, (v.data.drop vecSizeBytes).drop
      (leNat (v.data.take vecSizeBytes) * P.sizeOf), ?_⟩
    · have hlt := leNat_lt (v.data.take vecSizeBytes)
      rw [hfront] at hlt
      rw [hlength]
      exact hlt
    · rw [Pod.layout, hbytes, hlength, hcount, List.append_assoc, flatten_records hbehind,
        List.take_append_drop]

/-- As many elements take the place of the elements. -/
theorem sameBehind_of_data {n : Nat} {es' : List T} {spare data' : List UInt8}
    (hdata : v.data = leBytes vecSizeBytes es.length ++ P.layout es ++ spare)
    (hdata' : data' = leBytes vecSizeBytes n ++ P.layout es' ++ spare)
    (hlength : es'.length = es.length) : SameBehind P es.length v ⟨data'⟩ := by
  rw [SameBehind, hdata, hdata']
  refine (drop_parts ?_).trans (drop_parts ?_).symm
  · rw [List.length_append, length_leBytes, Pod.length_layout, hlength]
  · rw [List.length_append, length_leBytes, Pod.length_layout]

theorem Holds.len_eq (h : v.Holds P es) : v.len = .ok es.length := by
  obtain ⟨spare, hdata⟩ := h.data_eq
  have hread := slice_append [] (leBytes vecSizeBytes es.length) (P.layout es ++ spare)
  rw [List.nil_append, List.length_nil, Nat.zero_add, length_leBytes, ← List.append_assoc,
    ← hdata] at hread
  rw [len, hread, ok_bind, leNat_leBytes_of_lt h.counted]

/-- No bound of the buffer saturates. -/
theorem saturating_bound {start n size m : Nat} (h : start + n * size ≤ m) (hm : m < 2 ^ 63) :
    saturatingAdd 64 start (saturatingMul 64 n size) = start + n * size := by
  rw [saturatingAdd, saturatingMul, Nat.min_eq_left (by omega), Nat.min_eq_left (by omega)]

theorem stepBy_records (start n : Nat) {size : Nat} (hsize : 0 < size) :
    stepBy start (start + n * size) size = List.range' start n size := by
  have hcount : (start + n * size - start + size - 1) / size = n := by
    rw [Nat.add_sub_cancel_left, Nat.add_sub_assoc hsize, Nat.mul_comm, Nat.mul_add_div hsize,
      Nat.div_eq_of_lt (Nat.sub_lt hsize Nat.one_pos), Nat.add_zero]
  rw [stepBy, hcount]

/-- **REMOVAL IN PLACE IS A FILTER.** -/
theorem Holds.retain (h : v.Holds P es) (predicate : List UInt8 → Bool) :
    ∃ v', v.retain P predicate = .ok v' ∧ v'.data.length = v.data.length ∧
      v'.Holds P (es.filter fun t => predicate (P.toBytes t)) ∧
      SameBehind P es.length v v' := by
  obtain ⟨spare, hdata⟩ := h.data_eq
  have hroom := h.length_data
  have hsize : ∀ r ∈ es.map P.toBytes, r.length = P.sizeOf := P.length_of_mem
  obtain ⟨s, gap, hloop, hshift, hvecLen, hlength⟩ := retain_records predicate
    (leBytes vecSizeBytes es.length) spare hsize
  have hkeep : (es.map P.toBytes).filter predicate
      = (es.filter fun t => predicate (P.toBytes t)).map P.toBytes := List.filter_map
  rw [hkeep, List.length_map] at hvecLen
  rw [hkeep, List.length_map] at hlength
  rw [hkeep, length_leBytes, List.length_map] at hshift
  rw [length_leBytes, List.length_map, ← Pod.layout, ← hdata] at hloop
  have hdata' : v.data.length = vecSizeBytes + es.length * P.sizeOf + spare.length := by
    rw [hdata, length_parts]
  have hend : saturatingAdd 64 vecSizeBytes (saturatingMul 64 es.length P.sizeOf)
      = vecSizeBytes + es.length * P.sizeOf := saturating_bound hroom h.addressable
  have hresult : v.retain P predicate = .ok
      ⟨leBytes vecSizeBytes s.vecLen
        ++ P.layout (es.filter fun t => predicate (P.toBytes t)) ++ (gap ++ spare)⟩ := by
    rw [BigVec.retain, h.len_eq, ok_bind]
    simp only [hend, stepBy_records _ _ P.sizeOf_pos]
    rw [hloop, ok_bind, hshift, ok_bind, List.append_assoc, List.append_assoc,
      overwrite_count, List.append_assoc]
    rfl
  have hkept : vecSizeBytes + (es.filter fun t => predicate (P.toBytes t)).length * P.sizeOf
      + (gap.length + spare.length) = v.data.length := by
    rw [length_flatten_of_forall P.length_of_mem, List.length_map] at hlength
    omega
  have hsame : (leBytes vecSizeBytes s.vecLen
      ++ P.layout (es.filter fun t => predicate (P.toBytes t)) ++ (gap ++ spare)).length
        = v.data.length := by
    rw [length_parts, List.length_append]
    exact hkept
  refine ⟨_, hresult, hsame, ⟨?_, ?_, gap ++ spare, ?_⟩, ?_⟩
  · show List.length _ < _
    rw [hsame]
    exact h.addressable
  · exact lt_of_le_of_lt (List.length_filter_le _ _) h.counted
  · rw [hvecLen]
  · -- the gap fills the place of the elements removed
    have hfront : (leBytes vecSizeBytes s.vecLen
        ++ P.layout (es.filter fun t => predicate (P.toBytes t)) ++ gap).length
          = vecSizeBytes + es.length * P.sizeOf := by
      rw [length_parts]
      omega
    have hbehind : v.data.drop (vecSizeBytes + es.length * P.sizeOf) = spare := by
      rw [hdata]
      refine drop_parts ?_
      rw [List.length_append, length_leBytes, Pod.length_layout]
    rw [SameBehind, hbehind, ← List.append_assoc]
    exact drop_parts hfront

/-! ## Appending -/

/-- The element goes behind the others, where there is room for it. -/
theorem Holds.push (h : v.Holds P es) (t : T) (hcount : es.length + 1 < 2 ^ 32)
    (hroom : vecSizeBytes + (es.length + 1) * P.sizeOf ≤ v.data.length) :
    ∃ v', v.push P t = (v', .ok ()) ∧ v'.data.length = v.data.length ∧
      v'.Holds P (es ++ [t]) ∧ SameBehind P (es.length + 1) v v' := by
  obtain ⟨spare, hdata⟩ := h.data_eq
  have hlength : v.data.length = vecSizeBytes + es.length * P.sizeOf + spare.length := by
    rw [hdata, length_parts]
  rw [Nat.succ_mul] at hroom
  have hspare : (spare.take P.sizeOf).length = P.sizeOf := by
    rw [List.length_take, Nat.min_eq_left (by omega)]
  -- the count first
  have hfront : overwrite v.data 0 (leBytes vecSizeBytes (es.length + 1))
      = leBytes vecSizeBytes (es.length + 1) ++ P.layout es ++ spare.take P.sizeOf
        ++ spare.drop P.sizeOf := by
    rw [hdata, List.append_assoc, overwrite_count, List.append_assoc, List.append_assoc,
      List.take_append_drop]
  have hplace : vecSizeBytes + es.length * P.sizeOf
      = (leBytes vecSizeBytes (es.length + 1) ++ P.layout es).length := by
    rw [List.length_append, length_leBytes, Pod.length_layout]
  have hlong : ¬(overwrite v.data 0 (leBytes vecSizeBytes (es.length + 1))).length
      < vecSizeBytes + es.length * P.sizeOf + P.sizeOf := by
    rw [length_overwrite (by rw [length_leBytes]; omega)]
    omega
  have hresult : v.push P t = (⟨leBytes vecSizeBytes (es.length + 1) ++ P.layout es
      ++ P.toBytes t ++ spare.drop P.sizeOf⟩, .ok ()) := by
    have hwrite := overwrite_append (a := leBytes vecSizeBytes (es.length + 1) ++ P.layout es)
      (hspare.trans (P.length_toBytes t).symm) (spare.drop P.sizeOf)
    simp only [BigVec.push, h.len_eq, checkedAdd, if_pos hcount, if_neg hlong]
    rw [hfront, hplace, hwrite]
  have hsame : (leBytes vecSizeBytes (es.length + 1) ++ P.layout es ++ P.toBytes t
      ++ spare.drop P.sizeOf).length = v.data.length := by
    rw [List.length_append, List.length_append, List.length_append, length_leBytes,
      Pod.length_layout, P.length_toBytes, List.length_drop]
    omega
  refine ⟨_, hresult, hsame, ⟨?_, ?_, spare.drop P.sizeOf, ?_⟩, ?_⟩
  · show List.length _ < _
    rw [hsame]
    exact h.addressable
  · rw [List.length_append]
    exact hcount
  · rw [List.length_append, Pod.layout_append, Pod.layout_singleton]
    show _ ++ P.layout es ++ P.toBytes t ++ _ = _
    rw [← List.append_assoc _ (P.layout es)]
    rfl
  · have hbehind : v.data.drop (vecSizeBytes + (es.length + 1) * P.sizeOf)
        = spare.drop P.sizeOf := by
      rw [hdata, Nat.succ_mul, ← Nat.add_assoc, ← List.drop_drop,
        drop_parts (by rw [List.length_append, length_leBytes, Pod.length_layout])]
    rw [SameBehind, hbehind]
    refine drop_parts ?_
    rw [List.length_append, List.length_append, length_leBytes, Pod.length_layout,
      P.length_toBytes, Nat.succ_mul, Nat.add_assoc]

/-- **A FAILED PUSH** has already counted the element: what it leaves holds nothing. -/
theorem Holds.push_full (h : v.Holds P es) (t : T) (hcount : es.length + 1 < 2 ^ 32)
    (hfull : v.data.length < vecSizeBytes + (es.length + 1) * P.sizeOf) :
    ∃ v', v.push P t = (v', .error .accountDataTooSmall) ∧ ∀ es', ¬v'.Holds P es' := by
  have hroom := h.length_data
  have hsame : (overwrite v.data 0 (leBytes vecSizeBytes (es.length + 1))).length
      = v.data.length := by
    refine length_overwrite ?_
    rw [length_leBytes]
    omega
  refine ⟨⟨overwrite v.data 0 (leBytes vecSizeBytes (es.length + 1))⟩, ?_, ?_⟩
  · rw [Nat.succ_mul] at hfull
    have hshort : (overwrite v.data 0 (leBytes vecSizeBytes (es.length + 1))).length
        < vecSizeBytes + es.length * P.sizeOf + P.sizeOf := by
      rw [hsame]
      omega
    simp only [BigVec.push, h.len_eq, checkedAdd, if_pos hcount, if_pos hshort]
  · intro es' h'
    have hlength := h'.length_data
    have htake : (overwrite v.data 0 (leBytes vecSizeBytes (es.length + 1))).take vecSizeBytes
        = leBytes vecSizeBytes (es.length + 1) := by
      rw [overwrite, List.take_zero, List.nil_append]
      exact List.take_left' (length_leBytes _ _)
    have hcounts := congrArg leNat (htake.symm.trans h'.take_data)
    rw [leNat_leBytes_of_lt hcount, leNat_leBytes_of_lt h'.counted] at hcounts
    rw [← hcounts] at hlength
    have hlength' : vecSizeBytes + (es.length + 1) * P.sizeOf ≤ v.data.length :=
      hlength.trans_eq hsame
    omega

/-! ## The first match -/

theorem findLoop_eq (predicate : List UInt8 → Bool) (front spare : List UInt8)
    {rs : List (List UInt8)} (hsize : ∀ r ∈ rs, r.length = P.sizeOf) :
    findLoop P predicate (front ++ rs.flatten ++ spare) rs.length front.length
      = .ok ((rs.find? predicate).map fun r =>
          (front.length + rs.findIdx predicate * P.sizeOf, r)) := by
  induction rs generalizing front with
  | nil => rfl
  | cons r rs ih =>
      have hr : r.length = P.sizeOf := hsize r List.mem_cons_self
      have hread : slice (front ++ (r :: rs).flatten ++ spare) front.length
          (front.length + P.sizeOf) = .ok r := by
        rw [List.flatten_cons, ← List.append_assoc, List.append_assoc (front ++ r), ← hr]
        exact slice_append front r _
      rw [List.length_cons, findLoop, hread, ok_bind]
      cases hp : predicate r with
      | true =>
          rw [if_pos rfl, List.find?_cons_of_pos hp, List.findIdx_cons, hp]
          show _ = Except.ok (some (front.length + 0 * P.sizeOf, r))
          rw [Nat.zero_mul, Nat.add_zero]
      | false =>
          have hp' : ¬predicate r = true := by
            rw [hp]
            exact Bool.false_ne_true
          have hrest := ih (front ++ r) fun r' hr' => hsize r' (List.mem_cons_of_mem r hr')
          rw [List.length_append, hr] at hrest
          rw [if_neg Bool.false_ne_true, List.find?_cons_of_neg hp', List.findIdx_cons, hp,
            List.flatten_cons, ← List.append_assoc, hrest]
          congr 2
          funext r'
          show (front.length + P.sizeOf + rs.findIdx predicate * P.sizeOf, r')
            = (front.length + (rs.findIdx predicate + 1) * P.sizeOf, r')
          rw [Nat.succ_mul]
          congr 1
          omega

/-- What is looked for, on the elements. -/
def onElements (P : Pod T) (predicate : List UInt8 → Bool) (t : T) : Bool :=
  predicate (P.toBytes t)

/-- The place and the bytes of the first element that matches. -/
theorem Holds.findLoop_eq (h : v.Holds P es) (predicate : List UInt8 → Bool) :
    findLoop P predicate v.data es.length vecSizeBytes
      = .ok ((es.find? (onElements P predicate)).map fun t =>
          (vecSizeBytes + es.findIdx (onElements P predicate) * P.sizeOf, P.toBytes t)) := by
  obtain ⟨spare, hdata⟩ := h.data_eq
  have hsize : ∀ r ∈ es.map P.toBytes, r.length = P.sizeOf := P.length_of_mem
  have hloop := BigVec.findLoop_eq predicate (leBytes vecSizeBytes es.length) spare hsize
  rw [← Pod.layout, ← hdata, List.length_map, length_leBytes, List.find?_map, List.findIdx_map,
    Option.map_map] at hloop
  exact hloop

/-- **THE SEARCH** finds the first element that matches. -/
theorem Holds.find (h : v.Holds P es) (predicate : List UInt8 → Bool) :
    v.find P predicate = .ok (es.find? (onElements P predicate)) := by
  rw [BigVec.find, h.len_eq, ok_bind, h.findLoop_eq, ok_bind, Option.map_map]
  congr 1
  cases es.find? (onElements P predicate) with
  | none => rfl
  | some t => exact congrArg some (P.ofBytes_toBytes t)

/-- The element at `i` is written over. -/
theorem Holds.overwrite (h : v.Holds P es) {i : Nat} (hi : i < es.length) (t : T) :
    (Lib.overwrite v.data (vecSizeBytes + i * P.sizeOf) (P.toBytes t)).length = v.data.length ∧
      BigVec.Holds P ⟨Lib.overwrite v.data (vecSizeBytes + i * P.sizeOf) (P.toBytes t)⟩
        (es.set i t) ∧
      SameBehind P es.length v
        ⟨Lib.overwrite v.data (vecSizeBytes + i * P.sizeOf) (P.toBytes t)⟩ := by
  obtain ⟨spare, hdata⟩ := h.data_eq
  have hroom := h.length_data
  have hinside : (i + 1) * P.sizeOf ≤ es.length * P.sizeOf := Nat.mul_le_mul_right _ hi
  rw [Nat.succ_mul] at hinside
  have hsize : ∀ r ∈ es.map P.toBytes, r.length = P.sizeOf := P.length_of_mem
  have hlt : i < (es.map P.toBytes).length := by
    rw [List.length_map]
    exact hi
  have hwrite := overwrite_flatten hsize hlt (P.length_toBytes t) spare
  have hsame : (Lib.overwrite v.data (vecSizeBytes + i * P.sizeOf) (P.toBytes t)).length
      = v.data.length := by
    refine length_overwrite ?_
    rw [P.length_toBytes]
    omega
  have hwritten : Lib.overwrite v.data (vecSizeBytes + i * P.sizeOf) (P.toBytes t)
      = leBytes vecSizeBytes es.length ++ P.layout (es.set i t) ++ spare := by
    rw [hdata, List.append_assoc, overwrite_add (length_leBytes _ _), Pod.layout, hwrite,
      Pod.layout, List.map_set, List.append_assoc]
  refine ⟨hsame, ⟨hsame.trans_lt h.addressable, ?_, spare, ?_⟩,
    sameBehind_of_data hdata hwritten List.length_set⟩
  · rw [List.length_set]
    exact h.counted
  · rw [List.length_set]
    exact hwritten

/-- **A BORROW** of the first element that matches shows it, and writes over it. -/
theorem Holds.findMut (h : v.Holds P es) (predicate : List UInt8 → Bool) :
    (es.find? (onElements P predicate) = none ∧ v.findMut P predicate = .ok none) ∨
      ∃ borrow : Borrow T, v.findMut P predicate = .ok (some borrow) ∧
        es.find? (onElements P predicate) = some borrow.value ∧
        ∀ t, (borrow.put t).data.length = v.data.length ∧
          (borrow.put t).Holds P (es.set (es.findIdx (onElements P predicate)) t) ∧
          SameBehind P es.length v (borrow.put t) := by
  have hsearch : v.findMut P predicate = .ok ((es.find? (onElements P predicate)).map fun t =>
      { value := P.ofBytes (P.toBytes t)
        put := fun element => ⟨Lib.overwrite v.data
          (vecSizeBytes + es.findIdx (onElements P predicate) * P.sizeOf)
          (P.toBytes element)⟩ }) := by
    rw [BigVec.findMut, h.len_eq, ok_bind, h.findLoop_eq, ok_bind, Option.map_map]
    rfl
  cases hfind : es.find? (onElements P predicate) with
  | none =>
      rw [hfind] at hsearch
      exact Or.inl ⟨rfl, hsearch⟩
  | some t =>
      rw [hfind] at hsearch
      have hi : es.findIdx (onElements P predicate) < es.length :=
        List.findIdx_lt_length_of_exists ⟨t, List.mem_of_find?_eq_some hfind,
          List.find?_some hfind⟩
      refine Or.inr ⟨_, hsearch, ?_, fun t' => h.overwrite hi t'⟩
      exact congrArg some (P.ofBytes_toBytes t).symm

/-! ## Slices -/

theorem Holds.sliceBounds (h : v.Holds P es) {skip len : Nat} (hle : skip + len ≤ es.length) :
    v.sliceBounds P skip len = .ok (vecSizeBytes + skip * P.sizeOf,
      vecSizeBytes + skip * P.sizeOf + len * P.sizeOf) := by
  have hroom := h.length_data
  have haddress := h.addressable
  have hinside : (skip + len) * P.sizeOf ≤ es.length * P.sizeOf := Nat.mul_le_mul_right _ hle
  rw [Nat.add_mul] at hinside
  have hsum : checkedAdd 64 skip len = some (skip + len) := if_pos (by have := h.counted; omega)
  have hstart : saturatingAdd 64 vecSizeBytes (saturatingMul 64 skip P.sizeOf)
      = vecSizeBytes + skip * P.sizeOf := saturating_bound (m := v.data.length) (by omega) haddress
  have hend : saturatingAdd 64 (vecSizeBytes + skip * P.sizeOf) (saturatingMul 64 len P.sizeOf)
      = vecSizeBytes + skip * P.sizeOf + len * P.sizeOf :=
    saturating_bound (m := v.data.length) (by omega) haddress
  rw [BigVec.sliceBounds, h.len_eq, ok_bind]
  simp only [hsum, if_neg (Nat.not_lt.mpr hle), hstart, hend]

/-- No slice reaches beyond the count. -/
theorem Holds.sliceBounds_error (h : v.Holds P es) {skip len : Nat}
    (hlt : es.length < skip + len) :
    v.sliceBounds P skip len = .error .accountDataTooSmall := by
  rw [BigVec.sliceBounds, h.len_eq, ok_bind, checkedAdd]
  by_cases hword : skip + len < 2 ^ 64
  · simp only [if_pos hword, if_pos hlt]
  · simp only [if_neg hword]

theorem Holds.deserializeSlice_error (h : v.Holds P es) {skip len : Nat}
    (hlt : es.length < skip + len) :
    v.deserializeSlice P skip len = .error .accountDataTooSmall := by
  rw [BigVec.deserializeSlice, h.sliceBounds_error hlt]
  rfl

theorem Holds.deserializeMutSlice_error (h : v.Holds P es) {skip len : Nat}
    (hlt : es.length < skip + len) :
    v.deserializeMutSlice P skip len = .error .accountDataTooSmall := by
  rw [BigVec.deserializeMutSlice, h.sliceBounds_error hlt]
  rfl

/-- The part of the list that a slice shows. -/
def part (es : List T) (skip len : Nat) : List T := (es.drop skip).take len

theorem length_part {es : List T} {skip len : Nat} (h : skip + len ≤ es.length) :
    (part es skip len).length = len := by
  rw [part, List.length_take, List.length_drop]
  omega

theorem Holds.data_split (h : v.Holds P es) (skip len : Nat) :
    ∃ spare, v.data = leBytes vecSizeBytes es.length ++ P.layout (es.take skip)
      ++ P.layout (part es skip len) ++ (P.layout (es.drop (skip + len)) ++ spare) := by
  obtain ⟨spare, hdata⟩ := h.data_eq
  have hes : P.layout es = P.layout (es.take skip) ++ (P.layout (part es skip len)
      ++ P.layout (es.drop (skip + len))) := by
    rw [← Pod.layout_append, ← Pod.layout_append, part, ← List.drop_drop, List.take_append_drop,
      List.take_append_drop]
  refine ⟨spare, ?_⟩
  rw [hdata, hes, List.append_assoc, List.append_assoc, List.append_assoc, List.append_assoc,
    List.append_assoc]

theorem Holds.slice_data (h : v.Holds P es) {skip len : Nat} (hle : skip + len ≤ es.length) :
    slice v.data (vecSizeBytes + skip * P.sizeOf) (vecSizeBytes + skip * P.sizeOf + len * P.sizeOf)
      = .ok (P.layout (part es skip len)) := by
  obtain ⟨spare, hdata⟩ := h.data_split skip len
  have hread := slice_append (leBytes vecSizeBytes es.length ++ P.layout (es.take skip))
    (P.layout (part es skip len)) (P.layout (es.drop (skip + len)) ++ spare)
  rw [← hdata, List.length_append, length_leBytes, Pod.length_layout, Pod.length_layout,
    List.length_take, Nat.min_eq_left (by omega), length_part hle] at hread
  exact hread

theorem ofBytes_part {skip len : Nat} (hle : skip + len ≤ es.length) :
    (records P.sizeOf len (P.layout (part es skip len))).map P.ofBytes = part es skip len := by
  have hback := P.ofBytes_records (part es skip len) []
  rw [List.append_nil, length_part hle] at hback
  exact hback

/-- **A SLICE** is that part of the list. -/
theorem Holds.deserializeSlice (h : v.Holds P es) {skip len : Nat}
    (hle : skip + len ≤ es.length) :
    v.deserializeSlice P skip len = .ok (part es skip len) := by
  rw [BigVec.deserializeSlice, h.sliceBounds hle, ok_bind]
  show (slice v.data _ _ >>= _) = _
  rw [h.slice_data hle, ok_bind, ofBytes_part hle]

/-- **A MUTABLE SLICE** shows that part of the list, and writes over it. -/
theorem Holds.deserializeMutSlice (h : v.Holds P es) {skip len : Nat}
    (hle : skip + len ≤ es.length) :
    ∃ borrow : Borrow (List T), v.deserializeMutSlice P skip len = .ok borrow ∧
      borrow.value = part es skip len ∧ ∀ new : List T, new.length = len →
        (borrow.put new).data.length = v.data.length ∧
          (borrow.put new).Holds P (es.take skip ++ new ++ es.drop (skip + len)) ∧
          SameBehind P es.length v (borrow.put new) := by
  have hresult : v.deserializeMutSlice P skip len = .ok
      { value := part es skip len
        put := fun elements => ⟨Lib.overwrite v.data (vecSizeBytes + skip * P.sizeOf)
          (P.layout elements)⟩ } := by
    rw [BigVec.deserializeMutSlice, h.sliceBounds hle, ok_bind]
    show (slice v.data _ _ >>= _) = _
    rw [h.slice_data hle, ok_bind, ofBytes_part hle]
    rfl
  refine ⟨_, hresult, rfl, fun new hnew => ?_⟩
  obtain ⟨spare, hdata⟩ := h.data_split skip len
  have hplace : vecSizeBytes + skip * P.sizeOf
      = (leBytes vecSizeBytes es.length ++ P.layout (es.take skip)).length := by
    rw [List.length_append, length_leBytes, Pod.length_layout, List.length_take,
      Nat.min_eq_left (by omega)]
  have hlayout : (P.layout (part es skip len)).length = (P.layout new).length := by
    rw [Pod.length_layout, Pod.length_layout, length_part hle, hnew]
  have hcount : (es.take skip ++ new ++ es.drop (skip + len)).length = es.length := by
    rw [List.length_append, List.length_append, List.length_take, List.length_drop, hnew]
    omega
  have hwritten : Lib.overwrite v.data (vecSizeBytes + skip * P.sizeOf) (P.layout new)
      = leBytes vecSizeBytes es.length ++ P.layout (es.take skip ++ new ++ es.drop (skip + len))
        ++ spare := by
    rw [hplace, hdata, overwrite_append hlayout, Pod.layout_append, Pod.layout_append,
      List.append_assoc, List.append_assoc, List.append_assoc, List.append_assoc,
      List.append_assoc]
  have hsame : (Lib.overwrite v.data (vecSizeBytes + skip * P.sizeOf) (P.layout new)).length
      = v.data.length := by
    have hroom := h.length_data
    have hinside : (skip + len) * P.sizeOf ≤ es.length * P.sizeOf := Nat.mul_le_mul_right _ hle
    rw [Nat.add_mul] at hinside
    refine length_overwrite ?_
    rw [Pod.length_layout, hnew]
    omega
  have hold : v.data = leBytes vecSizeBytes es.length ++ P.layout es ++ spare := by
    rw [hdata, List.append_assoc _ (P.layout (part es skip len)),
      ← List.append_assoc (P.layout (part es skip len)), ← Pod.layout_append,
      List.append_assoc _ (P.layout (es.take skip)), ← List.append_assoc (P.layout (es.take skip)),
      ← Pod.layout_append, part, ← List.drop_drop, List.take_append_drop,
      List.take_append_drop, List.append_assoc]
  refine ⟨hsame, ⟨hsame.trans_lt h.addressable, ?_, spare, ?_⟩,
    sameBehind_of_data hold hwritten hcount⟩
  · rw [hcount]
    exact h.counted
  · rw [hcount]
    exact hwritten

end BigVec

end Holds

/-! ## Runs -/

/-- What the handlers do with a vector. -/
inductive BigVecCall (T : Type) where
  | retain (predicate : List UInt8 → Bool)
  | push (element : T)
  | find (predicate : List UInt8 → Bool)
  /-- `deserialize_slice` -/
  | readSlice (skip len : Nat)
  /-- The first element that matches, where there is one, is changed. -/
  | updateFirst (predicate : List UInt8 → Bool) (change : T → T)
  /-- The elements of a slice are changed one by one. -/
  | updateSlice (skip len : Nat) (change : Nat → T → T)

/-- What a call returns or shows. -/
inductive BigVecAnswer (T : Type) where
  | done
  | found (element : Option T)
  | elements (elements : List T)
  deriving DecidableEq

section Runs

variable {T : Type} (P : Pod T)

/-- An instruction that makes the call and hands its failure on: what a failing call has
    written is taken back with the instruction. -/
def BigVec.step (v : BigVec) : BigVecCall T → Except BigVecError (BigVec × BigVecAnswer T)
  | .retain predicate => do
      let v ← v.retain P predicate
      .ok (v, .done)
  | .push element =>
      match v.push P element with
      | (v, .ok ()) => .ok (v, .done)
      | (_, .error e) => .error e
  | .find predicate => do
      let found ← v.find P predicate
      .ok (v, .found found)
  | .readSlice skip len => do
      let elements ← v.deserializeSlice P skip len
      .ok (v, .elements elements)
  | .updateFirst predicate change => do
      let found ← v.findMut P predicate
      .ok (found.elim v fun borrow => borrow.put (change borrow.value),
        .found (found.map Borrow.value))
  | .updateSlice skip len change => do
      let borrow ← v.deserializeMutSlice P skip len
      .ok (borrow.put (borrow.value.mapIdx change), .elements borrow.value)

/-- A list of elements, and how many it held at most so far. -/
structure ListVec (T : Type) where
  elements : List T
  most : Nat
  deriving DecidableEq

/-- The elements after a call that leaves no more of them. -/
def ListVec.set (s : ListVec T) (elements : List T) : ListVec T := { s with elements }

/-- The call on a list of elements, of which `capacity` bytes have room for. -/
def listStep (capacity : Nat) (s : ListVec T) :
    BigVecCall T → Except BigVecError (ListVec T × BigVecAnswer T)
  | .retain predicate =>
      .ok (s.set (s.elements.filter (BigVec.onElements P predicate)), .done)
  | .push element =>
      if 2 ^ 32 ≤ s.elements.length + 1 then .error .panicked
      else if capacity < vecSizeBytes + (s.elements.length + 1) * P.sizeOf then
        .error .accountDataTooSmall
      else .ok (⟨s.elements ++ [element], max s.most (s.elements.length + 1)⟩, .done)
  | .find predicate => .ok (s, .found (s.elements.find? (BigVec.onElements P predicate)))
  | .readSlice skip len =>
      if s.elements.length < skip + len then .error .accountDataTooSmall
      else .ok (s, .elements (BigVec.part s.elements skip len))
  | .updateFirst predicate change =>
      .ok (s.set (s.elements.modify (s.elements.findIdx (BigVec.onElements P predicate)) change),
        .found (s.elements.find? (BigVec.onElements P predicate)))
  | .updateSlice skip len change =>
      if s.elements.length < skip + len then .error .accountDataTooSmall
      else .ok (s.set (s.elements.take skip
          ++ (BigVec.part s.elements skip len).mapIdx change ++ s.elements.drop (skip + len)),
        .elements (BigVec.part s.elements skip len))

variable {P} {v : BigVec}

/-- The bytes hold the elements, there are as many bytes as at the start, and behind the most
    elements that there ever were they are those of the start. -/
structure BigVec.Refines (P : Pod T) (v start : BigVec) (s : ListVec T) : Prop where
  room : v.data.length = start.data.length
  holds : v.Holds P s.elements
  bounded : s.elements.length ≤ s.most
  behind : SameBehind P s.most start v

/-- The first match is changed in place. -/
theorem modify_findIdx {l : List T} {p : T → Bool} {t : T} (h : l.find? p = some t)
    (change : T → T) : l.modify (l.findIdx p) change = l.set (l.findIdx p) (change t) := by
  have ht : l[l.findIdx p]? = some t := by
    rw [← h, List.find?_eq_getElem?_findIdx]
  rw [List.modify_eq_set_getElem?, ht]
  rfl

/-- Without a match nothing is changed. -/
theorem modify_findIdx_none {l : List T} {p : T → Bool} (h : l.find? p = none)
    (change : T → T) : l.modify (l.findIdx p) change = l := by
  have hend : l.findIdx p = l.length :=
    List.findIdx_eq_length.mpr fun t ht => Bool.eq_false_iff.mpr (List.find?_eq_none.mp h t ht)
  rw [List.modify_eq_set_getElem?, hend, List.getElem?_eq_none (Nat.le_refl _)]
  rfl

variable {start : BigVec} {s : ListVec T}

/-- A write that leaves no more elements. -/
theorem BigVec.Refines.set (h : v.Refines P start s) {v' : BigVec} {es' : List T}
    (hlength : v'.data.length = v.data.length) (hholds : v'.Holds P es')
    (hbehind : SameBehind P s.elements.length v v') (hle : es'.length ≤ s.elements.length) :
    v'.Refines P start (s.set es') where
  room := hlength.trans h.room
  holds := hholds
  bounded := hle.trans h.bounded
  behind := h.behind.trans (hbehind.mono h.bounded)

/-- **ONE CALL** does to the bytes what it does to the list, and returns the same. -/
theorem BigVec.Refines.step (h : v.Refines P start s) (call : BigVecCall T) :
    Matches (fun p q => p.1.Refines P start q.1 ∧ p.2 = q.2) (v.step P call)
      (listStep P start.data.length s call) := by
  have hholds := h.holds
  cases call with
  | retain predicate =>
      obtain ⟨v', hv', hlength, hholds', hbehind⟩ := hholds.retain predicate
      rw [BigVec.step, hv']
      exact ⟨h.set hlength hholds' hbehind (List.length_filter_le _ _), rfl⟩
  | push element =>
      by_cases hcount : s.elements.length + 1 < 2 ^ 32
      · rw [listStep, if_neg (Nat.not_le.mpr hcount)]
        by_cases hfull : start.data.length
            < vecSizeBytes + (s.elements.length + 1) * P.sizeOf
        · obtain ⟨v', hv', -⟩ := hholds.push_full element hcount (h.room.trans_lt hfull)
          rw [BigVec.step, hv', if_pos hfull]
          rfl
        · obtain ⟨v', hv', hlength, hholds', hbehind⟩ := hholds.push element hcount
            (h.room ▸ Nat.not_lt.mp hfull)
          rw [BigVec.step, hv', if_neg hfull]
          refine ⟨⟨hlength.trans h.room, hholds', ?_, ?_⟩, rfl⟩
          · rw [List.length_append]
            exact Nat.le_max_right _ _
          · exact (h.behind.mono (Nat.le_max_left _ _)).trans
              (hbehind.mono (Nat.le_max_right _ _))
      · have hpush : v.push P element = (v, .error .panicked) := by
          simp only [BigVec.push, hholds.len_eq, checkedAdd, if_neg hcount]
        rw [BigVec.step, hpush, listStep, if_pos (Nat.not_lt.mp hcount)]
        rfl
  | find predicate =>
      rw [BigVec.step, hholds.find]
      exact ⟨h, rfl⟩
  | readSlice skip len =>
      by_cases hle : skip + len ≤ s.elements.length
      · rw [BigVec.step, hholds.deserializeSlice hle, listStep, if_neg (Nat.not_lt.mpr hle)]
        exact ⟨h, rfl⟩
      · have hlt : s.elements.length < skip + len := Nat.not_le.mp hle
        rw [BigVec.step, hholds.deserializeSlice_error hlt, listStep, if_pos hlt]
        rfl
  | updateFirst predicate change =>
      rcases hholds.findMut predicate with ⟨hnone, hfound⟩ | ⟨borrow, hfound, hfirst, hput⟩
      · rw [BigVec.step, hfound, listStep, modify_findIdx_none hnone, hnone]
        exact ⟨h, rfl⟩
      · obtain ⟨hlength, hholds', hbehind⟩ := hput (change borrow.value)
        rw [BigVec.step, hfound, listStep, modify_findIdx hfirst, hfirst]
        exact ⟨h.set hlength hholds' hbehind (Nat.le_of_eq List.length_set), rfl⟩
  | updateSlice skip len change =>
      by_cases hle : skip + len ≤ s.elements.length
      · obtain ⟨borrow, hborrow, hvalue, hput⟩ := hholds.deserializeMutSlice hle
        have hlen : (borrow.value.mapIdx change).length = len := by
          rw [List.length_mapIdx, hvalue, BigVec.length_part hle]
        obtain ⟨hlength, hholds', hbehind⟩ := hput _ hlen
        rw [BigVec.step, hborrow, listStep, if_neg (Nat.not_lt.mpr hle), ← hvalue]
        refine ⟨h.set hlength hholds' hbehind ?_, rfl⟩
        rw [List.length_append, List.length_append, hlen, List.length_take, List.length_drop]
        omega
      · have hlt : s.elements.length < skip + len := Nat.not_le.mp hle
        rw [BigVec.step, hholds.deserializeMutSlice_error hlt, listStep, if_pos hlt]
        rfl

/-- **THE BYTES ARE A LIST.** From a buffer that holds a list, whatever instructions call, one
    that fails being taken back: every call returns what it returns on the list, and the buffer
    holds the list that the same calls make of it.  No byte is added, and none is touched
    behind the most elements that there ever were. -/
theorem bigVec_refines_list {es : List T} (h : v.Holds P es) (calls : List (BigVecCall T)) :
    (serve (BigVec.step P) v calls).2
        = (serve (listStep P v.data.length) ⟨es, es.length⟩ calls).2 ∧
      (serve (BigVec.step P) v calls).1.Refines P v
        (serve (listStep P v.data.length) ⟨es, es.length⟩ calls).1 := by
  have hstart : v.Refines P v ⟨es, es.length⟩ := ⟨rfl, h, Nat.le_refl _, rfl⟩
  exact serve_matches (R := fun (v' : BigVec) s => v'.Refines P v s)
    (fun _ _ call h => h.step call) calls hstart

namespace BigVecSample

/-- Eight bytes, as they are. -/
def pod : Pod (Bytes 8) where
  sizeOf := 8
  toBytes := Vector.toList
  ofBytes bytes := (fixedArray 8 bytes).getD (Vector.replicate 8 0)
  sizeOf_pos := by decide
  length_toBytes _ := Vector.length_toList
  ofBytes_toBytes b := by
    have hlength : b.toList.length = 8 := Vector.length_toList
    obtain ⟨b', hb', hlist⟩ := fixedArray_of_length hlength
    rw [hb', Option.getD_some]
    exact Vector.toList_inj.mp hlist
  toBytes_ofBytes bytes h := by
    obtain ⟨b, hb, hlist⟩ := fixedArray_of_length h
    rw [hb, Option.getD_some, hlist]

def element (n : UInt8) : Bytes 8 := #v[n, 0, 0, 0, 0, 0, 0, 0]

def even (bytes : List UInt8) : Bool := leNat bytes % 2 = 0

/-- Room for three. -/
def vector : BigVec where
  data := List.replicate 28 0

def calls : List (BigVecCall (Bytes 8)) :=
  [.push (element 1), .push (element 2), .push (element 3), .push (element 4), .retain even,
    .updateFirst even fun _ => element 9, .push (element 6), .find even, .readSlice 0 2]

theorem holds : vector.Holds pod [] :=
  ⟨by decide, by decide, List.replicate 24 0, by decide⟩

/-- The fourth element finds no room; two are removed in place, and one is found. -/
theorem bigVec_refines_list_sample :
    ((serve (BigVec.step pod) vector calls).2
        = (serve (listStep pod 28) ⟨[], 0⟩ calls).2 ∧
      (serve (BigVec.step pod) vector calls).1.Refines pod vector
        (serve (listStep pod 28) ⟨[], 0⟩ calls).1) ∧
      (serve (listStep pod 28) ⟨[], 0⟩ calls).1 = ⟨[element 9, element 6], 3⟩ ∧
      (serve (listStep pod 28) ⟨[], 0⟩ calls).2
        = [.ok .done, .ok .done, .ok .done, .error .accountDataTooSmall, .ok .done,
          .ok (.found (some (element 2))), .ok .done, .ok (.found (some (element 6))),
          .ok (.elements [element 9, element 6])] :=
  ⟨bigVec_refines_list holds calls, by decide +kernel, by decide +kernel⟩

end BigVecSample

end Runs

end Albus.Integration
