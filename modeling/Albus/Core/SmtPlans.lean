import Albus.Core.SmtTree

/-! # What the mutators write

    On a store that reflects a trie, the loops of `update`, `add` and `delete`
    compute the digest of the changed trie.  What they insert are the nodes of its
    path to the key, what they delete the nodes of the old path. -/

namespace Albus.Core

open Albus.Lib

/-- The store and the root are those of the tree, whose nodes were made from
    `inputs`. -/
structure Reflects (permute : List ℕ → ℕ) (inputs : List (List ℕ)) (smt : SMT)
    (t : Tree) : Prop where
  canonical : Trie.Canonical Nat.testBit 0 t
  entries : ∀ k v, Trie.Mem k v t → k < bn254r ∧ v < bn254r
  root : smt.root = t.digest permute
  dbRoot : smt.db.root = t.digest permute
  stored : Stored permute smt.db t
  hashed : t.Hashed permute inputs

variable {permute : List ℕ → ℕ} {inputs : List (List ℕ)} {smt : SMT} {t : Tree}

theorem Reflects.length_siblings_le (h : Reflects permute inputs smt t) (k : ℕ) :
    (Trie.siblings Nat.testBit k 0 t).length ≤ 254 := by
  have hplug : Trie.plug Nat.testBit k 0 (Trie.siblings Nat.testBit k 0 t)
      (Trie.bottom Nat.testBit k 0 t) = t := Trie.plug_siblings_bottom k 0 t
  have hcan := h.canonical
  rw [← hplug] at hcan
  refine hcan.length_siblings_le ?_
  rw [hplug]
  intro k₁ v₁ k₂ v₂ h₁ h₂ hagree
  exact eq_of_testBit_eq (h.entries k₁ v₁ h₁).1 (h.entries k₂ v₂ h₂).1 hagree

/-- `get` answers from the bottom of the key's path. -/
theorem Reflects.get_eq (h : Reflects permute inputs smt t)
    (hcf : CollisionFree permute inputs) (k : ℤ) :
    smt.get k = .ok (SMT.answer (F1Field.e k)
      ((Trie.siblings Nat.testBit (F1Field.e k) 0 t).map (Tree.digest permute))
      (Trie.bottom Nat.testBit (F1Field.e k) 0 t)) := by
  have hlen := h.length_siblings_le (F1Field.e k)
  rw [SMT.get, h.root]
  refine SMT.find_eq h.stored ?_ (by omega) (by omega)
  intro s hs hne
  exact (h.hashed.sub hs).digest_ne_zero hcf hne

theorem Reflects.mem_bottom (h : Reflects permute inputs smt t) (k v : ℕ) :
    Trie.Mem k v t ↔ Trie.Mem k v (Trie.bottom Nat.testBit k 0 t) := by
  have hcan := h.canonical
  rw [← Trie.plug_siblings_bottom k 0 t] at hcan
  rw [← hcan.mem_iff_bottom, Trie.plug_siblings_bottom]

theorem Reflects.get_of_mem (h : Reflects permute inputs smt t)
    (hcf : CollisionFree permute inputs) {k : ℤ} {v : ℕ}
    (hm : Trie.Mem (F1Field.e k) v t) :
    ∃ res, smt.get k = .ok res ∧ res.found = true ∧ res.value = v := by
  refine ⟨_, h.get_eq hcf k, ?_⟩
  have hbot := (h.mem_bottom _ v).mp hm
  have hnode : Trie.IsNode (Trie.bottom Nat.testBit (F1Field.e k) 0 t) = false :=
    Trie.bottom_isNode _ _ _
  generalize Trie.bottom Nat.testBit (F1Field.e k) 0 t = b at hbot hnode
  cases b with
  | empty => exact hbot.elim
  | node l r => exact Bool.noConfusion hnode
  | leaf k' v' => exact ⟨decide_eq_true hbot.1.symm, hbot.2.symm⟩

theorem Reflects.get_of_not_mem (h : Reflects permute inputs smt t)
    (hcf : CollisionFree permute inputs) {k : ℤ}
    (hm : ∀ v, ¬ Trie.Mem (F1Field.e k) v t) :
    ∃ res, smt.get k = .ok res ∧ res.found = false := by
  refine ⟨_, h.get_eq hcf k, ?_⟩
  have hbot : ∀ v, ¬ Trie.Mem (F1Field.e k) v
      (Trie.bottom Nat.testBit (F1Field.e k) 0 t) :=
    fun v hv => hm v ((h.mem_bottom _ v).mpr hv)
  generalize Trie.bottom Nat.testBit (F1Field.e k) 0 t = b at hbot
  cases b with
  | empty => rfl
  | node l r => rfl
  | leaf k' v' => exact decide_eq_false fun hk => hbot v' ⟨hk.symm, rfl⟩

/-- The path of a key of the field: the tree is a bottom, empty or a leaf, under a
    list of siblings, and `get` reads both. -/
theorem Reflects.path (h : Reflects permute inputs smt t)
    (hcf : CollisionFree permute inputs) {k : ℕ} (hk : k < bn254r) :
    ∃ ss b, t = Trie.plug Nat.testBit k 0 ss b ∧ ss.length ≤ 254 ∧
      Trie.IsNode b = false ∧
      smt.get k = .ok (SMT.answer k (ss.map (Tree.digest permute)) b) := by
  have hget := h.get_eq hcf k
  rw [F1Field.e_of_lt hk] at hget
  exact ⟨_, _, (Trie.plug_siblings_bottom k 0 t).symm, h.length_siblings_le k,
    Trie.bottom_isNode k 0 t, hget⟩

/-- The path of a key that is there ends at its leaf. -/
theorem Reflects.leaf_path (h : Reflects permute inputs smt t)
    (hcf : CollisionFree permute inputs) {k v : ℕ} (hm : Trie.Mem k v t) :
    ∃ ss, t = Trie.plug Nat.testBit k 0 ss (.leaf k v) ∧
      smt.get k = .ok (SMT.answer k (ss.map (Tree.digest permute)) (.leaf k v)) := by
  obtain ⟨ss, b, rfl, -, hnode, hget⟩ := h.path hcf (h.entries k v hm).1
  have hbot := h.canonical.mem_iff_bottom.mp hm
  cases b with
  | empty => exact hbot.elim
  | node l r => exact Bool.noConfusion hnode
  | leaf k₀ v₀ =>
      obtain ⟨rfl, rfl⟩ := hbot
      exact ⟨ss, rfl, hget⟩

namespace SMT

/-! ## The loop of update -/

theorem foldr_updateLevel {k ℓ : ℕ} (ss : List Tree) (b b' : Tree) (st : UpdateLoop)
    (hold : st.rtOld = b.digest permute)
    (hnew : st.newRoot = b'.digest permute) :
    ((ss.map (Tree.digest permute)).zipIdx ℓ).foldr
        (updateLevel permute (getBits k)) st
      = { rtOld := Tree.digest permute (Trie.plug Nat.testBit k ℓ ss b)
          newRoot := Tree.digest permute (Trie.plug Nat.testBit k ℓ ss b')
          inserts := st.inserts ++
            (Trie.spine Nat.testBit k ℓ ss b').map (Tree.entry permute)
          deletes := st.deletes ++
            (Trie.spine Nat.testBit k ℓ ss b).map (Tree.digest permute) } := by
  induction ss generalizing ℓ with
  | nil =>
      cases st with
      | mk rtOld newRoot inserts deletes =>
          simp only at hold hnew
          simp [Trie.plug, Trie.spine, hold, hnew]
  | cons s ss ih =>
      rw [List.map_cons, List.zipIdx_cons, List.foldr_cons, ih, updateLevel]
      simp only [Tree.place_eq, Tree.hash0_record_side, Trie.plug, Trie.spine,
        List.map_append, List.map_cons, List.map_nil, List.append_assoc, Tree.entry]

/-! ## The loop of add -/

/-- While `mixed` stays unset only new nodes are made: every sibling is zero, or is
    the leaf pushed down last. -/
theorem foldr_addLevel_fresh {k ℓ n : ℕ} (ss : List Tree) (b' : Tree) (st : AddLoop)
    (hroot : st.root = b'.digest permute)
    (hmixed : st.mixed = false)
    (hss : ∀ i s, ss[i]? = some s → s = .empty ∨ ℓ + i + 1 = n) :
    ((ss.map (Tree.digest permute)).zipIdx ℓ).foldr
        (addLevel permute (getBits k) n) st
      = { st with
          root := Tree.digest permute (Trie.plug Nat.testBit k ℓ ss b')
          inserts := st.inserts ++
            (Trie.spine Nat.testBit k ℓ ss b').map (Tree.entry permute) } := by
  induction ss generalizing ℓ with
  | nil =>
      cases st with
      | mk oldRoot root mixed inserts deletes =>
          simp only at hroot
          simp [Trie.plug, Trie.spine, hroot]
  | cons s ss ih =>
      have htail : ∀ i s', ss[i]? = some s' → s' = .empty ∨ ℓ + 1 + i + 1 = n := by
        intro i s' hi
        have hidx : ℓ + 1 + i + 1 = ℓ + (i + 1) + 1 := by omega
        rw [hidx]
        exact hss (i + 1) s' hi
      have hhead : ¬ (ℓ + 1 < n ∧ Tree.digest permute s ≠ 0) := by
        rintro ⟨hlt, hne⟩
        rcases hss 0 s rfl with rfl | heq
        · exact hne rfl
        · omega
      rw [List.map_cons, List.zipIdx_cons, List.foldr_cons, ih htail, addLevel]
      simp only [if_neg hhead, hmixed, Tree.place_eq, Tree.hash0_record_side, Trie.plug,
        Trie.spine, List.map_append, List.map_cons, List.map_nil, List.append_assoc,
        Tree.entry, Bool.false_eq_true, if_false]

/-- Once `mixed` is set, by the first sibling that is not zero, the old nodes are
    recomputed alongside. -/
theorem foldr_addLevel_mixed {k ℓ n : ℕ} (ss : List Tree) (b b' : Tree) (st : AddLoop)
    (hold : st.oldRoot = b.digest permute)
    (hroot : st.root = b'.digest permute)
    (hmixed : ss ≠ [] → st.mixed = true ∨ ℓ + ss.length < n ∧
      ∀ s, ss.getLast? = some s → Tree.digest permute s ≠ 0) :
    ((ss.map (Tree.digest permute)).zipIdx ℓ).foldr
        (addLevel permute (getBits k) n) st
      = { oldRoot := Tree.digest permute (Trie.plug Nat.testBit k ℓ ss b)
          root := Tree.digest permute (Trie.plug Nat.testBit k ℓ ss b')
          mixed := st.mixed || !ss.isEmpty
          inserts := st.inserts ++
            (Trie.spine Nat.testBit k ℓ ss b').map (Tree.entry permute)
          deletes := st.deletes ++
            (Trie.spine Nat.testBit k ℓ ss b).map (Tree.digest permute) } := by
  induction ss generalizing ℓ with
  | nil =>
      cases st with
      | mk oldRoot root mixed inserts deletes =>
          simp only at hold hroot
          simp [Trie.plug, Trie.spine, hold, hroot]
  | cons s ss ih =>
      have hmixed := hmixed (List.cons_ne_nil s ss)
      have htail : ss ≠ [] → st.mixed = true ∨ ℓ + 1 + ss.length < n ∧
          ∀ s', ss.getLast? = some s' → Tree.digest permute s' ≠ 0 := by
        intro _
        rcases hmixed with h | ⟨hlt, hlast⟩
        · exact Or.inl h
        · rw [List.length_cons] at hlt
          refine Or.inr ⟨by omega, ?_⟩
          intro s' hs'
          refine hlast s' ?_
          rw [List.getLast?_cons, hs']
          rfl
      -- the level is mixed: by the rest of the list, or by this sibling itself
      have hhere : (if ℓ + 1 < n ∧ Tree.digest permute s ≠ 0 then true
          else (st.mixed || !ss.isEmpty)) = true := by
        rcases hmixed with h | ⟨hlt, hlast⟩
        · rw [h, Bool.true_or, ite_self]
        · cases ss with
          | nil => exact if_pos ⟨hlt, hlast s rfl⟩
          | cons s' ss => rw [List.isEmpty_cons, Bool.not_false, Bool.or_true, ite_self]
      rw [List.map_cons, List.zipIdx_cons, List.foldr_cons, ih htail, addLevel]
      simp only [hhere, if_true, Tree.place_eq, Tree.hash0_record_side, Trie.plug,
        Trie.spine, List.map_append, List.map_cons, List.map_nil, List.append_assoc,
        Tree.entry, List.isEmpty_cons, Bool.not_false, Bool.or_true]

/-! ## The loop of delete -/

/-- A mixed level: the new node gets the sibling too. -/
theorem deleteLevel_mixed {k ℓ n : ℕ} {b r s : Tree} {isOld0 : Bool} {st : DeleteLoop}
    (hold : st.oldRoot = b.digest permute) (hnew : st.newRoot = r.digest permute)
    (hlevel : ¬ (ℓ + 1 = n ∧ ¬ isOld0 = true))
    (hmixed : s.digest permute ≠ 0 ∨ st.mixed = true) :
    deleteLevel permute (getBits k) n isOld0 (s.digest permute, ℓ) st
      = { oldRoot := Tree.digest permute (Trie.side (k.testBit ℓ) b s)
          newRoot := Tree.digest permute (Trie.side (k.testBit ℓ) r s)
          mixed := true
          siblings := s.digest permute :: st.siblings
          inserts := st.inserts ++ [Tree.entry permute (Trie.side (k.testBit ℓ) r s)]
          deletes := st.deletes ++
            [Tree.digest permute (Trie.side (k.testBit ℓ) b s)] } := by
  have hmix : (if s.digest permute ≠ 0 then true else st.mixed) = true := by
    rcases hmixed with h | h
    · exact if_pos h
    · rw [h, ite_self]
  simp only [deleteLevel, if_neg hlevel, hmix, if_true, hold, hnew, Tree.place_eq,
    Tree.hash0_record_side, Tree.entry]

/-- A level that is not mixed: what is left rises past it. -/
theorem deleteLevel_rise {k ℓ n : ℕ} {b s : Tree} {isOld0 : Bool} {st : DeleteLoop}
    (hold : st.oldRoot = b.digest permute)
    (hzero : (if ℓ + 1 = n ∧ ¬ isOld0 = true then 0 else s.digest permute) = 0)
    (hmixed : st.mixed = false) :
    deleteLevel permute (getBits k) n isOld0 (s.digest permute, ℓ) st
      = { st with
          oldRoot := Tree.digest permute (Trie.side (k.testBit ℓ) b s)
          deletes := st.deletes ++
            [Tree.digest permute (Trie.side (k.testBit ℓ) b s)] } := by
  simp only [deleteLevel, hzero, ne_eq, not_true_eq_false, if_false, hmixed,
    Bool.false_eq_true, hold, Tree.place_eq, Tree.hash0_record_side]

/-- The last level: a leaf rises in the key's place (`isOld0` unset), a node stays
    where it is. -/
theorem deleteLevel_last {k ℓ n : ℕ} {b s : Tree} {isOld0 : Bool} {st : DeleteLoop}
    (hn : ℓ + 1 = n) (hzero : Tree.digest permute s = 0 ↔ Trie.size s = 0)
    (hpos : 0 < Trie.size s) (hiso : isOld0 = decide (2 ≤ Trie.size s))
    (hold : st.oldRoot = b.digest permute) (hmixed : st.mixed = isOld0)
    (hnew : st.newRoot = bif isOld0 then 0 else Tree.digest permute s) :
    ∃ siblings, deleteLevel permute (getBits k) n isOld0 (Tree.digest permute s, ℓ) st
      = { oldRoot := Tree.digest permute (Trie.side (k.testBit ℓ) b s)
          newRoot := Tree.digest permute (Trie.join (k.testBit ℓ) .empty s)
          mixed := decide (2 ≤ Trie.size (Trie.join (k.testBit ℓ) .empty s))
          siblings := siblings
          inserts := st.inserts ++
            (if 2 ≤ Trie.size (Trie.empty : Tree) + Trie.size s
              then [Trie.join (k.testBit ℓ) .empty s] else []).map (Tree.entry permute)
          deletes := st.deletes ++
            [Tree.digest permute (Trie.side (k.testBit ℓ) b s)] } := by
  cases hb : isOld0 with
  | true =>
      have htwo : 2 ≤ Trie.size s := of_decide_eq_true (hiso.symm.trans hb)
      have hjoin : 2 ≤ Trie.size (Trie.empty : Tree) + Trie.size s :=
        Nat.le_add_left_of_le htwo
      have hne : Tree.digest permute s ≠ 0 := fun h =>
        absurd (hzero.mp h) (Nat.pos_iff_ne_zero.mp hpos)
      rw [hb, cond_true] at hnew
      refine ⟨Tree.digest permute s :: st.siblings, ?_⟩
      rw [deleteLevel_mixed (r := .empty) hold hnew (by simp) (Or.inl hne),
        if_pos hjoin, Trie.join_eq_side hjoin, Trie.size_side, decide_eq_true hjoin]
      rfl
  | false =>
      have hone : ¬ 2 ≤ Trie.size s := of_decide_eq_false (hiso.symm.trans hb)
      have hjoin : ¬ 2 ≤ Trie.size (Trie.empty : Tree) + Trie.size s := by
        rw [Trie.size]
        omega
      rw [hb, cond_false] at hnew
      rw [hb] at hmixed
      refine ⟨st.siblings, ?_⟩
      rw [deleteLevel_rise hold (if_pos ⟨hn, Bool.false_ne_true⟩) hmixed,
        if_neg hjoin, Trie.join_eq_off hjoin rfl, decide_eq_false hone, hnew,
        hmixed, List.map_nil, List.append_nil]

/-- A level above the last one joins what is left with the sibling. -/
theorem deleteLevel_join {k ℓ n : ℕ} {p r s : Tree} {isOld0 : Bool} (st : DeleteLoop)
    (hlevel : ¬ (ℓ + 1 = n ∧ ¬ isOld0 = true))
    (hzero : Tree.digest permute s = 0 ↔ Trie.size s = 0) (hleft : 0 < Trie.size r)
    (hold : st.oldRoot = p.digest permute) (hnew : st.newRoot = r.digest permute)
    (hmixed : st.mixed = decide (2 ≤ Trie.size r)) :
    ∃ siblings, deleteLevel permute (getBits k) n isOld0 (Tree.digest permute s, ℓ) st
      = { oldRoot := Tree.digest permute (Trie.side (k.testBit ℓ) p s)
          newRoot := Tree.digest permute (Trie.join (k.testBit ℓ) r s)
          mixed := decide (2 ≤ Trie.size (Trie.join (k.testBit ℓ) r s))
          siblings := siblings
          inserts := st.inserts ++
            (if 2 ≤ Trie.size r + Trie.size s
              then [Trie.join (k.testBit ℓ) r s] else []).map (Tree.entry permute)
          deletes := st.deletes ++
            [Tree.digest permute (Trie.side (k.testBit ℓ) p s)] } := by
  by_cases htwo : 2 ≤ Trie.size r + Trie.size s
  · have hmix : Tree.digest permute s ≠ 0 ∨ st.mixed = true := by
      by_cases h0 : Tree.digest permute s = 0
      · right
        have hsize := hzero.mp h0
        rw [hmixed]
        exact decide_eq_true (by omega)
      · exact Or.inl h0
    refine ⟨Tree.digest permute s :: st.siblings, ?_⟩
    rw [deleteLevel_mixed hold hnew hlevel hmix, if_pos htwo, Trie.join_eq_side htwo,
      Trie.size_side, decide_eq_true htwo]
    rfl
  · have h0 : Tree.digest permute s = 0 := hzero.mpr (by omega)
    have hr0 : ¬ Trie.size r = 0 := by omega
    have hrone : ¬ 2 ≤ Trie.size r := by omega
    have hunmixed : st.mixed = false := hmixed.trans (decide_eq_false hrone)
    refine ⟨st.siblings, ?_⟩
    rw [deleteLevel_rise hold ((if_neg hlevel).trans h0) hunmixed, if_neg htwo,
      Trie.join_eq_on htwo hr0, hnew, hmixed, List.map_nil, List.append_nil]

/-- `delete` starts from the last sibling.  `mixed` says that at least two leaves are
    left under the path so far. -/
theorem foldr_deleteLevel {k ℓ n : ℕ} {ss : List Tree} {b last : Tree} {isOld0 : Bool}
    (st : DeleteLoop) (hn : n = ℓ + ss.length)
    (hzero : ∀ s ∈ ss, Tree.digest permute s = 0 ↔ Trie.size s = 0)
    (hlast : ss.getLast? = some last) (hpos : 0 < Trie.size last)
    (hiso : isOld0 = decide (2 ≤ Trie.size last))
    (hold : st.oldRoot = b.digest permute) (hmixed : st.mixed = isOld0)
    (hnew : st.newRoot = bif isOld0 then 0 else Tree.digest permute last) :
    ∃ siblings, ((ss.map (Tree.digest permute)).zipIdx ℓ).foldr
        (deleteLevel permute (getBits k) n isOld0) st
      = { oldRoot := Tree.digest permute (Trie.plug Nat.testBit k ℓ ss b)
          newRoot := Tree.digest permute (Trie.shrink Nat.testBit k ℓ ss .empty)
          mixed := decide (2 ≤ Trie.size (Trie.shrink Nat.testBit k ℓ ss .empty))
          siblings := siblings
          inserts := st.inserts ++
            (Trie.ridge Nat.testBit k ℓ ss .empty).map (Tree.entry permute)
          deletes := st.deletes ++
            (Trie.spine Nat.testBit k ℓ ss b).map (Tree.digest permute) } := by
  induction ss generalizing ℓ with
  | nil => exact absurd hlast (Option.some_ne_none last).symm
  | cons s ss ih =>
      cases ss with
      | nil =>
          obtain rfl : s = last := Option.some.inj hlast
          exact deleteLevel_last hn.symm (hzero s List.mem_cons_self) hpos hiso hold hmixed
            hnew
      | cons s' ss =>
          have hn' : n = ℓ + 1 + (s' :: ss).length := by
            rw [hn, List.length_cons, List.length_cons]
            omega
          have hlast' : (s' :: ss).getLast? = some last := by
            rw [← hlast, List.getLast?_cons_cons]
          obtain ⟨sibs, hrec⟩ := ih hn'
            (fun s'' hs => hzero s'' (List.mem_cons_of_mem _ hs)) hlast'
          -- not the last level: the sibling stays as it is
          have hlevel : ¬ (ℓ + 1 = n ∧ ¬ isOld0 = true) := by
            rintro ⟨heq, _⟩
            rw [List.length_cons] at hn'
            omega
          have hleft : 0 < Trie.size
              (Trie.shrink Nat.testBit k (ℓ + 1) (s' :: ss) .empty) := by
            refine Nat.pos_of_ne_zero fun h0 => ?_
            obtain ⟨k', v, hm⟩ := Trie.exists_mem_of_size_pos hpos
            exact Trie.not_mem_of_size_eq_zero h0
              (Trie.mem_shrink.mpr (Or.inr ⟨last, List.mem_of_getLast? hlast', hm⟩))
          have hridge : Trie.ridge Nat.testBit k ℓ (s :: s' :: ss) .empty
              = Trie.ridge Nat.testBit k (ℓ + 1) (s' :: ss) .empty ++
                if 2 ≤ Trie.size (Trie.shrink Nat.testBit k (ℓ + 1) (s' :: ss) .empty)
                    + Trie.size s
                then [Trie.shrink Nat.testBit k ℓ (s :: s' :: ss) .empty] else [] := rfl
          have hspine : Trie.spine Nat.testBit k ℓ (s :: s' :: ss) b
              = Trie.spine Nat.testBit k (ℓ + 1) (s' :: ss) b ++
                [Trie.plug Nat.testBit k ℓ (s :: s' :: ss) b] := rfl
          rw [List.map_cons, List.zipIdx_cons, List.foldr_cons, hrec, hridge, hspine]
          obtain ⟨siblings, hjoin⟩ := deleteLevel_join (k := k)
            { oldRoot := _, newRoot := _, mixed := _, siblings := sibs, inserts := _,
              deletes := _ }
            hlevel (hzero s List.mem_cons_self) hleft rfl rfl rfl
          refine ⟨siblings, hjoin.trans ?_⟩
          simp only [List.map_append, List.append_assoc]
          rfl

/-! ## Shared bits -/

theorem sharedBits_eq {k k' ℓ n fuel : ℕ}
    (hsame : ∀ i < n, k'.testBit (ℓ + i) = k.testBit (ℓ + i))
    (hdiff : k'.testBit (ℓ + n) ≠ k.testBit (ℓ + n)) (hbits : ℓ + n < 256)
    (hfuel : n < fuel) :
    sharedBits (getBits k') (getBits k) fuel ℓ = .ok (List.replicate n 0) := by
  induction n generalizing ℓ fuel with
  | zero =>
      cases fuel with
      | zero => exact absurd hfuel (Nat.lt_irrefl 0)
      | succ fuel =>
          have hne : ¬ (getBits k')[ℓ]? = (getBits k)[ℓ]? := by
            rw [getBits_eq_iff (by omega)]
            exact hdiff
          rw [sharedBits, if_neg hne]
          rfl
  | succ n ih =>
      cases fuel with
      | zero => exact absurd hfuel (Nat.not_lt_zero _)
      | succ fuel =>
          have hidx : ∀ i, ℓ + 1 + i = ℓ + (i + 1) := fun i => by omega
          have heq : (getBits k')[ℓ]? = (getBits k)[ℓ]? :=
            (getBits_eq_iff (by omega)).mpr (hsame 0 (Nat.succ_pos n))
          rw [sharedBits, if_pos heq, ih (fun i hi => (hidx i).symm ▸
              hsame (i + 1) (Nat.succ_lt_succ hi)) ((hidx n).symm ▸ hdiff) (by omega)
            (by omega)]
          rfl

end SMT

/-- Different field elements part at some bit, and share those before it. -/
theorem exists_first_bit {k k' : ℕ} (hk : k < bn254r) (hk' : k' < bn254r) (hne : k' ≠ k)
    {ℓ : ℕ} (hagree : ∀ i < ℓ, k'.testBit i = k.testBit i) :
    ∃ n, ℓ + n < 254 ∧ (∀ i < n, k'.testBit (ℓ + i) = k.testBit (ℓ + i)) ∧
      k'.testBit (ℓ + n) ≠ k.testBit (ℓ + n) := by
  have hex : ∃ i, i < 254 ∧ k'.testBit i ≠ k.testBit i := by
    by_contra hnone
    refine hne (eq_of_testBit_eq hk' hk ?_)
    intro i hi
    by_contra hi'
    exact hnone ⟨i, hi, hi'⟩
  obtain ⟨hlt, hdiff⟩ := Nat.find_spec hex
  have hle : ℓ ≤ Nat.find hex := by
    by_contra hgt
    exact hdiff (hagree _ (Nat.lt_of_not_le hgt))
  have hadd : ℓ + (Nat.find hex - ℓ) = Nat.find hex := Nat.add_sub_cancel' hle
  refine ⟨Nat.find hex - ℓ, hadd.symm ▸ hlt, ?_, hadd.symm ▸ hdiff⟩
  intro i hi
  by_contra hi'
  exact Nat.find_min hex (by omega : ℓ + i < Nat.find hex) ⟨by omega, hi'⟩

end Albus.Core
