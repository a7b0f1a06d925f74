import Mathlib.Data.List.GetD
import Mathlib.Data.List.Induction
import Mathlib.Tactic.Common

/-! # A sponge that passes its hash on

    A hash function on frames of `r + 2` numbers is extended to lists.  The first
    frame takes `r + 2` of them, every later one the last hash and `r + 1` more, and
    a frame that is not full is filled up with zeros.

    The hash forgets how many zeros a list ends in, as long as they fit the last
    frame; and it does not tell a list from its continuation, where the frames at the
    front are replaced by their hash as a number of the list.  Where the hash of a
    frame has no collision, that is all (`sponge_eq_iff`). -/

namespace Albus.Lib

universe u

variable {α : Type u}

/-! ## Counting frames -/

/-- The frames that `n` numbers more than the first frame takes need. -/
def groups (r n : ℕ) : ℕ := (n + r) / (r + 1)

theorem groups_zero (r : ℕ) : groups r 0 = 0 := by
  rw [groups, Nat.zero_add]
  exact Nat.div_eq_of_lt (Nat.lt_succ_self r)

theorem groups_succ (r n : ℕ) : groups r (n + 1) = groups r (n - r) + 1 := by
  unfold groups
  by_cases h : r ≤ n
  · have hsum : n + 1 + r = (n - r + r) + (r + 1) := by omega
    rw [hsum, Nat.add_div_right _ (Nat.succ_pos r)]
  · have h1 : (n - r + r) / (r + 1) = 0 := Nat.div_eq_of_lt (by omega)
    have h2 : (n + 1 + r) / (r + 1) = 1 := Nat.div_eq_of_lt_le (by omega) (by omega)
    rw [h1, h2]

/-- The frames that are left when the numbers of `k` are gone. -/
theorem groups_sub_mul {r : ℕ} (n k : ℕ) (h : k ≤ groups r n) :
    groups r (n - k * (r + 1)) = groups r n - k := by
  induction k generalizing n with
  | zero => rw [Nat.zero_mul, Nat.sub_zero, Nat.sub_zero]
  | succ k ih =>
      cases n with
      | zero =>
          rw [groups_zero] at h
          exact absurd h (Nat.not_succ_le_zero k)
      | succ n =>
          rw [groups_succ] at h ⊢
          have hrest : n + 1 - (k + 1) * (r + 1) = n - r - k * (r + 1) := by
            rw [Nat.succ_mul]
            omega
          rw [hrest, ih (n - r) (Nat.le_of_succ_le_succ h)]
          omega

theorem lt_of_lt_groups {r n k : ℕ} (h : k < groups r n) : k * (r + 1) < n := by
  by_contra hle
  have hzero : n - k * (r + 1) = 0 := by omega
  have hgroups := groups_sub_mul n k (Nat.le_of_lt h)
  rw [hzero, groups_zero] at hgroups
  omega

theorem groups_cons {r : ℕ} (c : α) (cs : List α) :
    groups r (c :: cs).length = groups r (cs.drop r).length + 1 := by
  rw [List.length_cons, List.length_drop, groups_succ]

theorem groups_cons_ne_nil {r : ℕ} (c : α) (cs : List α) :
    groups r (c :: cs).length ≠ groups r ([] : List α).length := by
  rw [groups_cons, List.length_nil, groups_zero]
  exact Nat.succ_ne_zero _

theorem length_take_le {r : ℕ} (h c : α) (cs : List α) : (h :: c :: cs.take r).length ≤ r + 2 := by
  rw [List.length_cons, List.length_cons, List.length_take]
  omega

theorem length_take_first_le {r : ℕ} (l : List α) : (l.take (r + 2)).length ≤ r + 2 := by
  rw [List.length_take]
  omega

/-! ## Cutting lists -/

/-- The lists take as many frames. -/
def SameGroups (r : ℕ) (l l' : List α) : Prop :=
  groups r (l.length - (r + 2)) = groups r (l'.length - (r + 2))

/-- The numbers of whole frames. -/
def Whole (r : ℕ) (front : List α) : Prop := ∃ k, front.length = r + 2 + k * (r + 1)

/-- The first frame of whole frames is full. -/
theorem Whole.take_append {r : ℕ} {front : List α} (h : Whole r front) (back : List α) :
    (front ++ back).take (r + 2) = front.take (r + 2) ∧
      (front ++ back).drop (r + 2) = front.drop (r + 2) ++ back ∧
      ∃ k, (front.drop (r + 2)).length = k * (r + 1) := by
  obtain ⟨k, hk⟩ := h
  refine ⟨List.take_append_of_le_length (by omega), List.drop_append_of_le_length (by omega),
    k, ?_⟩
  rw [List.length_drop]
  omega

/-- The longer of two lists can be cut so that as many frames are left as the other takes. -/
theorem exists_cut {r : ℕ} {l l' : List α}
    (hlt : groups r (l'.length - (r + 2)) < groups r (l.length - (r + 2))) :
    ∃ front back, l = front ++ back ∧ back ≠ [] ∧ Whole r front ∧
      ∀ h : α, SameGroups r (h :: back) l' := by
  obtain ⟨k, hk⟩ : ∃ k, groups r (l.length - (r + 2)) - groups r (l'.length - (r + 2)) - 1
    = k := ⟨_, rfl⟩
  have hcut := lt_of_lt_groups (show k < groups r (l.length - (r + 2)) by omega)
  have hback : (l.drop (r + 2 + k * (r + 1))).length = l.length - (r + 2) - k * (r + 1) := by
    rw [List.length_drop, Nat.sub_add_eq]
  refine ⟨l.take (r + 2 + k * (r + 1)), l.drop (r + 2 + k * (r + 1)),
    (List.take_append_drop _ l).symm, ?_, ⟨k, ?_⟩, ?_⟩
  · refine List.ne_nil_of_length_pos ?_
    omega
  · rw [List.length_take]
    omega
  · intro h
    have hgroups := groups_sub_mul (r := r) (l.length - (r + 2)) (k + 1) (by omega)
    have hrest : (h :: l.drop (r + 2 + k * (r + 1))).length - (r + 2)
        = l.length - (r + 2) - (k + 1) * (r + 1) := by
      rw [List.length_cons, hback, Nat.succ_mul]
      omega
    rw [SameGroups, hrest, hgroups]
    omega

/-! ## Frames -/

variable [Zero α]

/-- A list filled up to a width. -/
def frame (width : ℕ) (l : List α) : List α := l ++ List.replicate (width - l.length) 0

/-- Two lists that differ in zeros at the end at most. -/
def SameUpToZeros (l l' : List α) : Prop := ∀ j, l.getD j 0 = l'.getD j 0

theorem length_frame {width : ℕ} {l : List α} (h : l.length ≤ width) :
    (frame width l).length = width := by
  rw [frame, List.length_append, List.length_replicate]
  omega

theorem getD_frame (width : ℕ) (l : List α) (j : ℕ) : (frame width l).getD j 0 = l.getD j 0 := by
  rw [frame]
  by_cases h : j < l.length
  · rw [List.getD_append _ _ _ _ h]
  · rw [List.getD_append_right _ _ _ _ (Nat.le_of_not_lt h),
      List.getD_eq_default l 0 (Nat.le_of_not_lt h)]
    by_cases h' : j - l.length < width - l.length
    · rw [List.getD_replicate _ h']
    · rw [List.getD_eq_default]
      rw [List.length_replicate]
      exact Nat.le_of_not_lt h'

/-- Frames forget zeros at the end. -/
theorem frame_eq_iff {width : ℕ} {l l' : List α} (h : l.length ≤ width)
    (h' : l'.length ≤ width) : frame width l = frame width l' ↔ SameUpToZeros l l' := by
  constructor
  · intro heq j
    rw [← getD_frame width l, heq, getD_frame]
  · intro hsame
    refine List.ext_getElem ?_ ?_
    · rw [length_frame h, length_frame h']
    · intro j hj hj'
      have hj0 := getD_frame width l j
      have hj0' := getD_frame width l' j
      rw [List.getD_eq_getElem _ _ hj] at hj0
      rw [List.getD_eq_getElem _ _ hj'] at hj0'
      rw [hj0, hj0', hsame j]

/-! ## Taking lists apart -/

theorem sameUpToZeros_cons {a a' : α} {l l' : List α} :
    SameUpToZeros (a :: l) (a' :: l') ↔ a = a' ∧ SameUpToZeros l l' := by
  constructor
  · intro h
    exact ⟨h 0, fun j => h (j + 1)⟩
  · rintro ⟨ha, hl⟩ j
    cases j with
    | zero => exact ha
    | succ j => exact hl j

/-- What two lists agree on, in two parts. -/
theorem sameUpToZeros_split (n : ℕ) {l l' : List α} :
    SameUpToZeros l l' ↔
      SameUpToZeros (l.take n) (l'.take n) ∧ SameUpToZeros (l.drop n) (l'.drop n) := by
  have htake : ∀ (l : List α) (j : ℕ), (l.take n).getD j 0 = if j < n then l.getD j 0 else 0 := by
    intro l j
    simp only [List.getD_eq_getElem?_getD, List.getElem?_take]
    split <;> rfl
  have hdrop : ∀ (l : List α) (j : ℕ), (l.drop n).getD j 0 = l.getD (n + j) 0 := by
    intro l j
    simp only [List.getD_eq_getElem?_getD, List.getElem?_drop]
  constructor
  · intro h
    constructor
    · intro j
      rw [htake, htake, h j]
    · intro j
      rw [hdrop, hdrop, h (n + j)]
  · rintro ⟨h1, h2⟩ j
    by_cases hj : j < n
    · have := h1 j
      rw [htake, htake, if_pos hj, if_pos hj] at this
      exact this
    · have := h2 (j - n)
      rw [hdrop, hdrop, show n + (j - n) = j by omega] at this
      exact this

/-! ## The sponge -/

section Hash

variable (hash : List α → α) (r : ℕ)

/-- The hash of what is left after a hash. -/
def chain (h : α) : List α → α
  | [] => h
  | c :: cs => chain (hash (frame (r + 2) (h :: c :: cs.take r))) (cs.drop r)
termination_by l => l.length
decreasing_by
  rw [List.length_drop, List.length_cons]
  omega

/-- The frames that are hashed on the way. -/
def chainCalls (h : α) : List α → List (List α)
  | [] => []
  | c :: cs =>
      let call := frame (r + 2) (h :: c :: cs.take r)
      call :: chainCalls (hash call) (cs.drop r)
termination_by l => l.length
decreasing_by
  rw [List.length_drop, List.length_cons]
  omega

/-- The hash of a list. -/
def sponge (l : List α) : α :=
  chain hash r (hash (frame (r + 2) (l.take (r + 2)))) (l.drop (r + 2))

def spongeCalls (l : List α) : List (List α) :=
  let call := frame (r + 2) (l.take (r + 2))
  call :: chainCalls hash r (hash call) (l.drop (r + 2))

variable {hash r}

theorem chain_cons (h c : α) (cs : List α) :
    chain hash r h (c :: cs)
      = chain hash r (hash (frame (r + 2) (h :: c :: cs.take r))) (cs.drop r) := by
  rw [chain]

theorem chainCalls_cons (h c : α) (cs : List α) :
    chainCalls hash r h (c :: cs)
      = frame (r + 2) (h :: c :: cs.take r) ::
        chainCalls hash r (hash (frame (r + 2) (h :: c :: cs.take r))) (cs.drop r) := by
  rw [chainCalls]

/-- As many frames of the same numbers, the same hash. -/
theorem chain_congr {h : α} {l l' : List α} (hgroups : groups r l.length = groups r l'.length)
    (hsame : SameUpToZeros l l') : chain hash r h l = chain hash r h l' := by
  induction h, l using chain.induct hash r generalizing l' with
  | case1 h =>
      cases l' with
      | nil => rfl
      | cons c' cs' => exact absurd hgroups.symm (groups_cons_ne_nil c' cs')
  | case2 h c cs ih =>
      cases l' with
      | nil => exact absurd hgroups (groups_cons_ne_nil c cs)
      | cons c' cs' =>
          obtain ⟨hc, hcs⟩ := sameUpToZeros_cons.mp hsame
          obtain ⟨htake, hdrop⟩ := (sameUpToZeros_split r).mp hcs
          have hframe : frame (r + 2) (h :: c :: cs.take r)
              = frame (r + 2) (h :: c' :: cs'.take r) := by
            refine (frame_eq_iff (length_take_le _ _ _) (length_take_le _ _ _)).mpr ?_
            exact sameUpToZeros_cons.mpr ⟨rfl, sameUpToZeros_cons.mpr ⟨hc, htake⟩⟩
          rw [groups_cons, groups_cons] at hgroups
          rw [chain_cons, chain_cons, ← hframe]
          exact ih (Nat.succ.inj hgroups) hdrop

/-- On these frames the hash has no collision. -/
def NoCollision (hash : List α → α) (calls : List (List α)) : Prop :=
  ∀ x ∈ calls, ∀ y ∈ calls, hash x = hash y → x = y

/-- **AS MANY FRAMES AND THE SAME HASH, THE SAME NUMBERS.** -/
theorem chain_inj {calls : List (List α)} (hno : NoCollision hash calls) {h h' : α}
    {l l' : List α} (hl : chainCalls hash r h l ⊆ calls)
    (hl' : chainCalls hash r h' l' ⊆ calls)
    (hgroups : groups r l.length = groups r l'.length)
    (heq : chain hash r h l = chain hash r h' l') : h = h' ∧ SameUpToZeros l l' := by
  induction h, l using chain.induct hash r generalizing h' l' with
  | case1 h =>
      cases l' with
      | nil =>
          rw [chain, chain] at heq
          exact ⟨heq, fun _ => rfl⟩
      | cons c' cs' => exact absurd hgroups.symm (groups_cons_ne_nil c' cs')
  | case2 h c cs ih =>
      cases l' with
      | nil => exact absurd hgroups (groups_cons_ne_nil c cs)
      | cons c' cs' =>
          rw [chainCalls_cons] at hl hl'
          obtain ⟨hmem, hrest⟩ := List.cons_subset.mp hl
          obtain ⟨hmem', hrest'⟩ := List.cons_subset.mp hl'
          rw [groups_cons, groups_cons] at hgroups
          rw [chain_cons, chain_cons] at heq
          obtain ⟨hhash, hdrop⟩ := ih hrest hrest' (Nat.succ.inj hgroups) heq
          have hframe := hno _ hmem _ hmem' hhash
          have hsame := (frame_eq_iff (length_take_le _ _ _) (length_take_le _ _ _)).mp hframe
          obtain ⟨hh, htail⟩ := sameUpToZeros_cons.mp hsame
          obtain ⟨hc, htake⟩ := sameUpToZeros_cons.mp htail
          exact ⟨hh, sameUpToZeros_cons.mpr
            ⟨hc, (sameUpToZeros_split r).mpr ⟨htake, hdrop⟩⟩⟩

/-! ## Lists with one hash -/

theorem sponge_congr {l l' : List α} (hgroups : SameGroups r l l')
    (hsame : SameUpToZeros l l') : sponge hash r l = sponge hash r l' := by
  obtain ⟨htake, hdrop⟩ := (sameUpToZeros_split (r + 2)).mp hsame
  have hframe : frame (r + 2) (l.take (r + 2)) = frame (r + 2) (l'.take (r + 2)) :=
    (frame_eq_iff (length_take_first_le l) (length_take_first_le l')).mpr htake
  unfold sponge
  rw [hframe]
  refine chain_congr ?_ hdrop
  rw [List.length_drop, List.length_drop]
  exact hgroups

/-- As many frames and one hash, the same numbers. -/
theorem sameUpToZeros_of_sponge_eq {calls : List (List α)} (hno : NoCollision hash calls)
    {l l' : List α} (hl : spongeCalls hash r l ⊆ calls) (hl' : spongeCalls hash r l' ⊆ calls)
    (hgroups : SameGroups r l l') (heq : sponge hash r l = sponge hash r l') :
    SameUpToZeros l l' := by
  obtain ⟨hmem, hrest⟩ := List.cons_subset.mp hl
  obtain ⟨hmem', hrest'⟩ := List.cons_subset.mp hl'
  have hgroups' : groups r (l.drop (r + 2)).length = groups r (l'.drop (r + 2)).length := by
    rw [List.length_drop, List.length_drop]
    exact hgroups
  obtain ⟨hhash, hdrop⟩ := chain_inj hno hrest hrest' hgroups' heq
  have hframe := hno _ hmem _ hmem' hhash
  exact (sameUpToZeros_split (r + 2)).mpr
    ⟨(frame_eq_iff (length_take_first_le l) (length_take_first_le l')).mp hframe, hdrop⟩

/-! ## A list cut behind whole frames -/

/-- A chain over whole frames and more. -/
theorem chain_append {k : ℕ} : ∀ (h : α) {xs : List α}, xs.length = k * (r + 1) →
    ∀ ys : List α, chain hash r h (xs ++ ys) = chain hash r (chain hash r h xs) ys := by
  induction k with
  | zero =>
      intro h xs hlen ys
      rw [Nat.zero_mul] at hlen
      rw [List.eq_nil_of_length_eq_zero hlen, List.nil_append, chain]
  | succ k ih =>
      intro h xs hlen ys
      rw [Nat.succ_mul] at hlen
      obtain ⟨c, cs, rfl⟩ := List.exists_cons_of_ne_nil
        (List.ne_nil_of_length_pos (show 0 < xs.length by omega))
      rw [List.length_cons] at hlen
      have htake : (cs ++ ys).take r = cs.take r := List.take_append_of_le_length (by omega)
      have hdrop : (cs ++ ys).drop r = cs.drop r ++ ys := List.drop_append_of_le_length (by omega)
      rw [List.cons_append, chain_cons, chain_cons, htake, hdrop]
      refine ih _ ?_ ys
      rw [List.length_drop]
      omega

theorem chainCalls_append {k : ℕ} : ∀ (h : α) {xs : List α}, xs.length = k * (r + 1) →
    ∀ ys : List α, chainCalls hash r h (xs ++ ys)
      = chainCalls hash r h xs ++ chainCalls hash r (chain hash r h xs) ys := by
  induction k with
  | zero =>
      intro h xs hlen ys
      rw [Nat.zero_mul] at hlen
      rw [List.eq_nil_of_length_eq_zero hlen, List.nil_append, chain, chainCalls,
        List.nil_append]
  | succ k ih =>
      intro h xs hlen ys
      rw [Nat.succ_mul] at hlen
      obtain ⟨c, cs, rfl⟩ := List.exists_cons_of_ne_nil
        (List.ne_nil_of_length_pos (show 0 < xs.length by omega))
      rw [List.length_cons] at hlen
      have htake : (cs ++ ys).take r = cs.take r := List.take_append_of_le_length (by omega)
      have hdrop : (cs ++ ys).drop r = cs.drop r ++ ys := List.drop_append_of_le_length (by omega)
      have hlen' : (cs.drop r).length = k * (r + 1) := by
        rw [List.length_drop]
        omega
      rw [List.cons_append, chainCalls_cons, chainCalls_cons, chain_cons, htake, hdrop,
        ih _ hlen' ys, List.cons_append]

/-- A hash as the first number of a list is a hash before the list. -/
theorem sponge_cons (h : α) {back : List α} (hne : back ≠ []) :
    sponge hash r (h :: back) = chain hash r h back := by
  obtain ⟨c, cs, rfl⟩ := List.exists_cons_of_ne_nil hne
  rw [chain_cons]
  rfl

theorem spongeCalls_cons (h : α) {back : List α} (hne : back ≠ []) :
    spongeCalls hash r (h :: back) = chainCalls hash r h back := by
  obtain ⟨c, cs, rfl⟩ := List.exists_cons_of_ne_nil hne
  rw [chainCalls_cons]
  rfl

/-- **WHOLE FRAMES ARE THEIR HASH**: in front of a rest it is one number more. -/
theorem sponge_append {front back : List α} (h : Whole r front) (hne : back ≠ []) :
    sponge hash r (front ++ back) = sponge hash r (sponge hash r front :: back) := by
  obtain ⟨htake, hdrop, k, hk⟩ := h.take_append back
  rw [sponge_cons _ hne]
  unfold sponge
  rw [htake, hdrop, chain_append _ hk]

theorem spongeCalls_append {front back : List α} (h : Whole r front) (hne : back ≠ []) :
    spongeCalls hash r (sponge hash r front :: back) ⊆ spongeCalls hash r (front ++ back) := by
  obtain ⟨htake, hdrop, k, hk⟩ := h.take_append back
  rw [spongeCalls_cons _ hne]
  unfold spongeCalls sponge
  simp only [htake, hdrop, chainCalls_append _ hk]
  intro call hcall
  exact List.mem_cons_of_mem _ (List.mem_append_right _ hcall)

/-- `l'` is what is left of `l` when whole frames at its front are replaced by their hash. -/
def Continues (hash : List α → α) (r : ℕ) (l l' : List α) : Prop :=
  ∃ front back, l = front ++ back ∧ back ≠ [] ∧ Whole r front ∧
    SameGroups r (sponge hash r front :: back) l' ∧
    SameUpToZeros (sponge hash r front :: back) l'

theorem Continues.sponge_eq {l l' : List α} (h : Continues hash r l l') :
    sponge hash r l = sponge hash r l' := by
  obtain ⟨front, back, rfl, hne, hwhole, hgroups, hsame⟩ := h
  rw [sponge_append hwhole hne]
  exact sponge_congr hgroups hsame

/-- The longer of two lists with one hash continues in the other. -/
theorem continues_of_sponge_eq {calls : List (List α)} (hno : NoCollision hash calls)
    {l l' : List α} (hl : spongeCalls hash r l ⊆ calls) (hl' : spongeCalls hash r l' ⊆ calls)
    (hlt : groups r (l'.length - (r + 2)) < groups r (l.length - (r + 2)))
    (heq : sponge hash r l = sponge hash r l') : Continues hash r l l' := by
  obtain ⟨front, back, rfl, hne, hwhole, hgroups⟩ := exists_cut hlt
  refine ⟨front, back, rfl, hne, hwhole, hgroups _, ?_⟩
  rw [sponge_append hwhole hne] at heq
  exact sameUpToZeros_of_sponge_eq hno
    (List.Subset.trans (spongeCalls_append hwhole hne) hl) hl' (hgroups _) heq

/-- **LISTS WITH ONE HASH** take as many frames and agree up to zeros at the end, or one of
    them continues in the other. -/
theorem sponge_eq_iff {l l' : List α}
    (hno : NoCollision hash (spongeCalls hash r l ++ spongeCalls hash r l')) :
    sponge hash r l = sponge hash r l' ↔
      SameGroups r l l' ∧ SameUpToZeros l l' ∨
        Continues hash r l l' ∨ Continues hash r l' l := by
  have hl := List.subset_append_left (spongeCalls hash r l) (spongeCalls hash r l')
  have hl' := List.subset_append_right (spongeCalls hash r l) (spongeCalls hash r l')
  constructor
  · intro heq
    rcases Nat.lt_trichotomy (groups r (l.length - (r + 2)))
        (groups r (l'.length - (r + 2))) with hlt | hgroups | hgt
    · exact Or.inr (Or.inr (continues_of_sponge_eq hno hl' hl hlt heq.symm))
    · exact Or.inl ⟨hgroups, sameUpToZeros_of_sponge_eq hno hl hl' hgroups heq⟩
    · exact Or.inr (Or.inl (continues_of_sponge_eq hno hl hl' hgt heq))
  · rintro (⟨hgroups, hsame⟩ | h | h)
    · exact sponge_congr hgroups hsame
    · exact h.sponge_eq
    · exact h.sponge_eq.symm

end Hash

end Albus.Lib
