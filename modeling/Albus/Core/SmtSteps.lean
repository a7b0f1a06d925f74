import Albus.Core.SmtPlans

/-! # Each mutator keeps the store in step with the trie

    A mutator makes some nodes and discards some.  The store follows when every
    node of the new trie is made or kept (`Change`); that no node in use is
    discarded is where the shape of the trie matters: the nodes of the old path
    hold the key, or lie on a path that the new trie has no copy of. -/

namespace Albus.Core

open Albus.Lib

variable {permute : List ℕ → ℕ} {inputs : List (List ℕ)} {smt : SMT}

/-- From `t` to `t'` by making `made` and discarding `gone`. -/
structure Change (t t' : Tree) (made gone : List Tree) : Prop where
  kept : ∀ s, Trie.Sub s t' → s ≠ .empty → s ∈ made ∨ Trie.Sub s t ∧ s ∉ gone
  made : ∀ s ∈ made, Trie.Sub s t'
  gone : ∀ s ∈ gone, Trie.Sub s t

/-- The inputs of the hashes of the new nodes. -/
theorem Change.hashed {t t' : Tree} {made gone : List Tree} (h : Change t t' made gone)
    (ht : t.Hashed permute inputs)
    (hin : ∀ s ∈ made, Tree.input permute s ∈ inputs) : t'.Hashed permute inputs := by
  intro s hs hne
  rcases h.kept s hs hne with hm | ⟨hsub, _⟩
  · exact hin s hm
  · exact ht s hsub hne

/-- A node of the new trie that is not discarded has a digest of its own. -/
theorem Change.digest_ne {t t' : Tree} {made gone : List Tree}
    (h : Change t t' made gone) (hcf : CollisionFree permute inputs)
    (ht : t.Hashed permute inputs) (ht' : t'.Hashed permute inputs) {s : Tree}
    (hs : Trie.Sub s t') (hgone : s ∉ gone) :
    ∀ key ∈ gone.map (Tree.digest permute),
      key < bn254r ∧ s.digest permute ≠ key := by
  intro key hkey
  obtain ⟨g, hg, rfl⟩ := List.mem_map.mp hkey
  refine ⟨Tree.digest_lt g, ?_⟩
  intro heq
  have hsg : s = g := (ht'.sub hs).digest_inj hcf (ht.sub (h.gone g hg)) heq
  exact hgone (hsg ▸ hg)

namespace SMTMemDb

@[simp] theorem root_multiIns (db : SMTMemDb) (inserts : List (ℕ × List ℕ)) :
    (db.multiIns inserts).root = db.root := by
  induction inserts generalizing db with
  | nil => rfl
  | cons i inserts ih => exact ih (db.ins i)

@[simp] theorem root_multiDel (db : SMTMemDb) (keys : List ℕ) :
    (db.multiDel keys).root = db.root := by
  induction keys generalizing db with
  | nil => rfl
  | cons key keys ih => exact ih (db.del key)

end SMTMemDb

/-- Inserting first: right when nothing made is discarded. -/
theorem Reflects.insDel {t t' : Tree} {made gone : List Tree}
    (h : Reflects permute inputs smt t) (hcf : CollisionFree permute inputs)
    (hch : Change t t' made gone) (hfresh : ∀ s ∈ made, s ∉ gone)
    (hcan : Trie.Canonical Nat.testBit 0 t')
    (hent : ∀ k v, Trie.Mem k v t' → k < bn254r ∧ v < bn254r)
    (hin : ∀ s ∈ made, Tree.input permute s ∈ inputs)
    {inserts : List (ℕ × List ℕ)}
    (hw : SMTMemDb.written inserts = made.map (Tree.entry permute)) :
    Reflects permute inputs
      ⟨((smt.db.multiIns inserts).setRoot (t'.digest permute)).multiDel
        (gone.map (Tree.digest permute)), t'.digest permute⟩ t' where
  canonical := hcan
  entries := hent
  root := rfl
  dbRoot := SMTMemDb.root_multiDel _ _
  hashed := hch.hashed h.hashed hin
  stored := by
    intro s hs hne
    have hashed' := hch.hashed h.hashed hin
    have hgone : s ∉ gone := by
      rcases hch.kept s hs hne with hm | ⟨_, hg⟩
      · exact hfresh s hm
      · exact hg
    rw [SMTMemDb.get_multiDel (Tree.digest_lt s)
      (hch.digest_ne hcf h.hashed hashed' hs hgone)]
    refine SMTMemDb.get_multiIns hw ?_ ?_
    · intro r hr heq
      exact (hashed'.sub (hch.made r hr)).digest_inj hcf (hashed'.sub hs) heq
    · rcases hch.kept s hs hne with hm | ⟨hsub, _⟩
      · exact Or.inl hm
      · exact Or.inr (h.stored s hsub hne)

/-- Deleting first. -/
theorem Reflects.delIns {t t' : Tree} {made gone : List Tree}
    (h : Reflects permute inputs smt t) (hcf : CollisionFree permute inputs)
    (hch : Change t t' made gone) (hcan : Trie.Canonical Nat.testBit 0 t')
    (hent : ∀ k v, Trie.Mem k v t' → k < bn254r ∧ v < bn254r)
    (hin : ∀ s ∈ made, Tree.input permute s ∈ inputs)
    {inserts : List (ℕ × List ℕ)}
    (hw : SMTMemDb.written inserts = made.map (Tree.entry permute)) :
    Reflects permute inputs
      ⟨((smt.db.multiDel (gone.map (Tree.digest permute))).multiIns inserts).setRoot
        (t'.digest permute), t'.digest permute⟩ t' where
  canonical := hcan
  entries := hent
  root := rfl
  dbRoot := rfl
  hashed := hch.hashed h.hashed hin
  stored := by
    intro s hs hne
    have hashed' := hch.hashed h.hashed hin
    refine SMTMemDb.get_multiIns hw ?_ ?_
    · intro r hr heq
      exact (hashed'.sub (hch.made r hr)).digest_inj hcf (hashed'.sub hs) heq
    · rcases hch.kept s hs hne with hm | ⟨hsub, hgone⟩
      · exact Or.inl hm
      · right
        rw [SMTMemDb.get_multiDel (Tree.digest_lt s)
          (hch.digest_ne hcf h.hashed hashed' hs hgone)]
        exact h.stored s hsub hne

/-! ## The changes -/

section Changes

variable {k ℓ : ℕ} {ss : List Tree} {b : Tree}

/-- Another bottom under the same siblings: the nodes of its path are made, those of
    the old path discarded.  `low` and `off` are what is made and discarded at the
    bottom itself. -/
theorem change_plug (b' : Tree) (low off : List Tree)
    (hcan : Trie.Canonical Nat.testBit ℓ (Trie.plug Nat.testBit k ℓ ss b))
    (hnode : Trie.IsNode b = false)
    (hlow : ∀ s, Trie.Sub s b' → s ≠ .empty → s ∈ low ∨ s = b ∧ off = [])
    (hmade : ∀ s ∈ low, Trie.Sub s b')
    (hoff : ∀ s ∈ off, s = b ∧ ∀ s' ∈ ss, ¬ Trie.Sub s s') :
    Change (Trie.plug Nat.testBit k ℓ ss b) (Trie.plug Nat.testBit k ℓ ss b')
      (low ++ Trie.spine Nat.testBit k ℓ ss b')
      (off ++ Trie.spine Nat.testBit k ℓ ss b) where
  kept := by
    intro s hs hne
    rcases Trie.sub_plug hs with hspine | hbot | ⟨s', hs', hsub⟩
    · exact Or.inl (List.mem_append_right _ hspine)
    · rcases hlow s hbot hne with hl | ⟨rfl, rfl⟩
      · exact Or.inl (List.mem_append_left _ hl)
      · -- a leaf that is pushed down is no node of the old path
        refine Or.inr ⟨Trie.sub_plug_of_bottom Trie.Sub.refl, ?_⟩
        intro hmem
        have hn := Trie.isNode_of_mem_spine hmem
        exact Bool.noConfusion (hnode.symm.trans hn)
    · refine Or.inr ⟨Trie.sub_plug_of_sibling hs' hsub, ?_⟩
      intro hmem
      rcases List.mem_append.mp hmem with ho | hsp
      · exact (hoff s ho).2 s' hs' hsub
      · exact hcan.spine_not_sub_sibling hsp hs' hsub
  made := by
    intro s hs
    rcases List.mem_append.mp hs with hl | hsp
    · exact Trie.sub_plug_of_bottom (hmade s hl)
    · exact Trie.sub_plug_of_mem_spine hsp
  gone := by
    intro s hs
    rcases List.mem_append.mp hs with ho | hsp
    · rw [(hoff s ho).1]
      exact Trie.sub_plug_of_bottom Trie.Sub.refl
    · exact Trie.sub_plug_of_mem_spine hsp

/-- A leaf of the key's own is nowhere beside its path. -/
theorem leaf_not_sub_sibling {v : ℕ}
    (hcan : Trie.Canonical Nat.testBit ℓ (Trie.plug Nat.testBit k ℓ ss (.leaf k v)))
    {s : Tree} (hm : Trie.Mem k v s) : ∀ s' ∈ ss, ¬ Trie.Sub s s' :=
  fun _ hs' hsub => hcan.sibling_ne hs' (hsub.mem hm) rfl

/-- Another value for the key: the other entries stay. -/
theorem mem_plug_leaf {v : ℕ}
    (hcan : Trie.Canonical Nat.testBit ℓ (Trie.plug Nat.testBit k ℓ ss (.leaf k v)))
    (w k' v' : ℕ) :
    Trie.Mem k' v' (Trie.plug Nat.testBit k ℓ ss (.leaf k w)) ↔
      k' = k ∧ v' = w ∨
        k' ≠ k ∧ Trie.Mem k' v' (Trie.plug Nat.testBit k ℓ ss (.leaf k v)) := by
  rw [Trie.mem_plug, Trie.mem_plug]
  constructor
  · rintro (hl | ⟨s, hs, hm⟩)
    · exact Or.inl hl
    · exact Or.inr ⟨hcan.sibling_ne hs hm, Or.inr ⟨s, hs, hm⟩⟩
  · rintro (hl | ⟨hne, hl | hs⟩)
    · exact Or.inl hl
    · exact absurd hl.1 hne
    · exact Or.inr hs

/-- The key taken away: the other entries stay. -/
theorem mem_shrink_leaf {v : ℕ}
    (hcan : Trie.Canonical Nat.testBit ℓ (Trie.plug Nat.testBit k ℓ ss (.leaf k v)))
    (k' v' : ℕ) :
    Trie.Mem k' v' (Trie.shrink Nat.testBit k ℓ ss .empty) ↔
      k' ≠ k ∧ Trie.Mem k' v' (Trie.plug Nat.testBit k ℓ ss (.leaf k v)) := by
  rw [Trie.mem_shrink, Trie.mem_plug]
  constructor
  · rintro (hl | ⟨s, hs, hm⟩)
    · exact hl.elim
    · exact ⟨hcan.sibling_ne hs hm, Or.inr ⟨s, hs, hm⟩⟩
  · rintro ⟨hne, hl | hs⟩
    · exact absurd hl.1 hne
    · exact Or.inr hs

/-- The key is taken away, and a leaf left alone rises. -/
theorem change_shrink {v : ℕ}
    (hcan : Trie.Canonical Nat.testBit ℓ (Trie.plug Nat.testBit k ℓ ss (.leaf k v))) :
    Change (Trie.plug Nat.testBit k ℓ ss (.leaf k v))
      (Trie.shrink Nat.testBit k ℓ ss .empty)
      (Trie.ridge Nat.testBit k ℓ ss .empty)
      (.leaf k v :: Trie.spine Nat.testBit k ℓ ss (.leaf k v)) where
  kept := by
    intro s hs hne
    rcases Trie.sub_shrink hs with hr | hbot | ⟨s', hs', hsub⟩
    · exact Or.inl hr
    · exact absurd (hbot.eq_of_not_isNode rfl) hne
    · refine Or.inr ⟨Trie.sub_plug_of_sibling hs' hsub, ?_⟩
      intro hmem
      have hkey : Trie.Mem k v s := by
        rcases List.mem_cons.mp hmem with rfl | hsp
        · exact ⟨rfl, rfl⟩
        · exact Trie.mem_of_mem_spine hsp ⟨rfl, rfl⟩
      exact leaf_not_sub_sibling hcan hkey s' hs' hsub
  made := fun s hs => (Trie.sub_shrink_of_mem_ridge hs).2
  gone := by
    intro s hs
    rcases List.mem_cons.mp hs with rfl | hsp
    · exact Trie.sub_plug_of_bottom Trie.Sub.refl
    · exact Trie.sub_plug_of_mem_spine hsp

end Changes

/-! ## The mutators -/

/-- The input that the record of a node was made from. -/
def hashInput : List ℕ → List ℕ
  | [one, k, v] => [k, v, one]
  | node => node

/-- The inputs of the hashes of what a mutator inserts. -/
def Plan.hashed {ρ : Type} (plan : Plan ρ) : List (List ℕ) :=
  (SMTMemDb.written plan.inserts).map fun i => hashInput i.2

theorem hashInput_record (s : Tree) : hashInput (s.record permute) = s.input permute := by
  cases s <;> rfl

/-- What is asked of the inputs of a plan, asked of the nodes it makes. -/
theorem Plan.input_mem {ρ : Type} {plan : Plan ρ} {made : List Tree}
    (hw : SMTMemDb.written plan.inserts = made.map (Tree.entry permute))
    (hin : ∀ x ∈ plan.hashed, x ∈ inputs) : ∀ s ∈ made, Tree.input permute s ∈ inputs := by
  intro s hs
  refine hin _ ?_
  rw [Plan.hashed, hw, List.map_map]
  exact List.mem_map.mpr ⟨s, hs, hashInput_record s⟩

theorem hash1_eq (k v : ℕ) :
    SMT.hash1 permute k v = Tree.digest permute (.leaf k (F1Field.e v)) := by
  show Poseidon.hash permute [k, v, 1] = Poseidon.hash permute [k, F1Field.e v, 1]
  simp only [Poseidon.hash, List.map_cons, F1Field.e_e]

theorem normalize_record {s : Tree} (h : Trie.IsNode s = true) :
    SMTMemDb.normalize (s.record permute) = s.record permute := by
  cases s with
  | empty => exact Bool.noConfusion h
  | leaf k v => exact Bool.noConfusion h
  | node l r =>
      show [F1Field.e (Tree.digest permute l), F1Field.e (Tree.digest permute r)] = [_, _]
      rw [F1Field.e_of_lt (Tree.digest_lt l), F1Field.e_of_lt (Tree.digest_lt r)]

theorem written_nodes {ts : List Tree} (h : ∀ s ∈ ts, Trie.IsNode s = true) :
    SMTMemDb.written (ts.map (Tree.entry permute)) = ts.map (Tree.entry permute) := by
  rw [SMTMemDb.written, List.map_map]
  refine List.map_congr_left ?_
  intro s hs
  exact congrArg (Prod.mk _) (normalize_record (h s hs))

/-- A leaf and the nodes above it. -/
theorem written_path (permute : List ℕ → ℕ) {k : ℕ} (hk : k < bn254r) (v ℓ : ℕ)
    (ss : List Tree) :
    SMTMemDb.written ([(SMT.hash1 permute k v, [1, k, v])] ++
        (Trie.spine Nat.testBit k ℓ ss (.leaf k (F1Field.e v))).map (Tree.entry permute))
      = ((.leaf k (F1Field.e v) : Tree) ::
          Trie.spine Nat.testBit k ℓ ss (.leaf k (F1Field.e v))).map
            (Tree.entry permute) := by
  have hleaf : SMTMemDb.normalize [1, k, v] = [1, k, F1Field.e v] := by
    show [F1Field.e (1 : ℕ), F1Field.e k, F1Field.e v] = _
    rw [F1Field.e_of_lt hk, F1Field.e_of_lt (show 1 < bn254r by decide)]
  have hnodes : SMTMemDb.written ((Trie.spine Nat.testBit k ℓ ss
      (.leaf k (F1Field.e v))).map (Tree.entry permute)) = _ :=
    written_nodes fun s hs => Trie.isNode_of_mem_spine hs
  rw [SMTMemDb.written, List.map_append, ← SMTMemDb.written, ← SMTMemDb.written, hnodes,
    List.map_cons]
  show (_, SMTMemDb.normalize _) :: _ = _
  rw [hleaf, hash1_eq]
  rfl

theorem Reflects.sibling_hashed {k : ℕ} {ss : List Tree} {b s : Tree}
    (h : Reflects permute inputs smt (Trie.plug Nat.testBit k 0 ss b)) (hs : s ∈ ss) :
    Tree.Hashed permute inputs s :=
  h.hashed.sub (Trie.sub_plug_of_sibling hs Trie.Sub.refl)

/-- What `update` plans: the key's path with the new leaf for the one with the old. -/
theorem updatePlan_eq {k v : ℕ} {ss : List Tree}
    (hget : smt.get k
      = .ok (SMT.answer k (ss.map (Tree.digest permute)) (.leaf k v))) (newValue : ℕ) :
    SMT.updatePlan permute smt k newValue = .ok
      { inserts := [(SMT.hash1 permute k newValue, [1, k, newValue])] ++
          (Trie.spine Nat.testBit k 0 ss (.leaf k (F1Field.e newValue))).map
            (Tree.entry permute)
        deletes := ((.leaf k v : Tree) ::
          Trie.spine Nat.testBit k 0 ss (.leaf k v)).map (Tree.digest permute)
        newRoot := Tree.digest permute
          (Trie.plug Nat.testBit k 0 ss (.leaf k (F1Field.e newValue)))
        response := {
          oldRoot := smt.root
          oldKey := k
          oldValue := v
          newKey := k
          newValue := newValue
          siblings := ss.map (Tree.digest permute)
          newRoot := Tree.digest permute
            (Trie.plug Nat.testBit k 0 ss (.leaf k (F1Field.e newValue))) } } := by
  rw [SMT.updatePlan, hget]
  show Except.ok _ = _
  simp only [SMT.answer]
  rw [SMT.foldr_updateLevel ss (.leaf k v)
    (.leaf k (F1Field.e newValue)) _ rfl (hash1_eq k newValue)]
  rfl

/-- **UPDATE.** -/
theorem Reflects.update {t : Tree} (h : Reflects permute inputs smt t)
    (hcf : CollisionFree permute inputs) {k v : ℕ} (hm : Trie.Mem k v t) (newValue : ℕ) :
    ∃ plan, SMT.updatePlan permute smt k newValue = .ok plan ∧
      ((∀ x ∈ plan.hashed, x ∈ inputs) → ∃ smt' t',
        SMT.update permute smt k newValue = .ok (smt', plan.response) ∧
        Reflects permute inputs smt' t' ∧
        ∀ k' v', Trie.Mem k' v' t' ↔
          k' = k ∧ v' = F1Field.e newValue ∨ k' ≠ k ∧ Trie.Mem k' v' t) := by
  have hk := (h.entries k v hm).1
  obtain ⟨ss, rfl, hget⟩ := h.leaf_path hcf hm
  have hcan := h.canonical
  have hplan := updatePlan_eq hget newValue
  refine ⟨_, hplan, ?_⟩
  intro hin
  have hw := written_path permute hk newValue 0 ss
  have hm₀ : Trie.Mem k v (.leaf k v : Tree) := ⟨rfl, rfl⟩
  have hch := change_plug (.leaf k (F1Field.e newValue))
    [.leaf k (F1Field.e newValue)] [.leaf k v] hcan rfl
    (fun s hs _ => Or.inl (List.mem_singleton.mpr (hs.eq_of_not_isNode rfl)))
    (fun s hs => List.mem_singleton.mp hs ▸ Trie.Sub.refl)
    (by
      intro s hs
      obtain rfl := List.mem_singleton.mp hs
      exact ⟨rfl, leaf_not_sub_sibling hcan hm₀⟩)
  have hmem := mem_plug_leaf hcan (F1Field.e newValue)
  have hcan' := (hcan.plug (Trie.Canonical.leaf _ k (F1Field.e newValue))
    (by rintro k' v' ⟨rfl, _⟩ i _; rfl) (Nat.le_refl 1)).1
  refine ⟨_, _, ?_, h.delIns hcf hch hcan' ?_ (Plan.input_mem hw hin) hw, hmem⟩
  · rw [SMT.update, hplan]
    rfl
  · intro k' v' hm'
    rcases (hmem k' v').mp hm' with ⟨rfl, rfl⟩ | ⟨_, hold⟩
    · exact ⟨hk, F1Field.e_lt newValue⟩
    · exact h.entries k' v' hold

/-- What `delete` reads off the last sibling: whether it is a node. -/
theorem Reflects.lastSibling_eq {k v : ℕ} {ss : List Tree}
    (h : Reflects permute inputs smt (Trie.plug Nat.testBit k 0 ss (.leaf k v))) :
    (ss = [] ∧ SMT.lastSibling smt k (ss.map (Tree.digest permute))
        = .ok (false, k, 0, true, 0)) ∨
    ∃ last oldKey oldValue, ss.getLast? = some last ∧
      SMT.lastSibling smt k (ss.map (Tree.digest permute))
        = .ok (Trie.IsNode last, oldKey, oldValue, Trie.IsNode last,
            bif Trie.IsNode last then 0 else Tree.digest permute last) := by
  cases hlast : ss.getLast? with
  | none =>
      left
      have hnil := List.getLast?_eq_none_iff.mp hlast
      exact ⟨hnil, by rw [hnil]; rfl⟩
  | some last =>
      right
      have hpos := h.canonical.size_getLast_pos hlast
      have hmem := List.mem_of_getLast? hlast
      have hne : last ≠ .empty := by
        rintro rfl
        exact Nat.lt_irrefl 0 hpos
      have hget := h.stored last (Trie.sub_plug_of_sibling hmem Trie.Sub.refl) hne
      have hlast' : (ss.map (Tree.digest permute)).getLast?
          = some (Tree.digest permute last) := by
        rw [List.getLast?_map, hlast]
        rfl
      cases last with
      | empty => exact absurd rfl hne
      | leaf k' v' =>
          refine ⟨.leaf k' v', k', v', rfl, ?_⟩
          simp only [SMT.lastSibling, hlast', hget, Tree.record]
          rfl
      | node l r =>
          refine ⟨.node l r, k, 0, rfl, ?_⟩
          simp only [SMT.lastSibling, hlast', hget, Tree.record]
          rfl

/-- What `delete` plans: the nodes of what is left of the key's path for its old
    ones. -/
theorem Reflects.deletePlan_eq {k v : ℕ} {ss : List Tree}
    (h : Reflects permute inputs smt (Trie.plug Nat.testBit k 0 ss (.leaf k v)))
    (hcf : CollisionFree permute inputs)
    (hget : smt.get k
      = .ok (SMT.answer k (ss.map (Tree.digest permute)) (.leaf k v))) :
    ∃ plan, SMT.deletePlan permute smt k = .ok plan ∧
      plan.inserts = (Trie.ridge Nat.testBit k 0 ss .empty).map (Tree.entry permute) ∧
      plan.deletes = ((.leaf k v : Tree) ::
        Trie.spine Nat.testBit k 0 ss (.leaf k v)).map (Tree.digest permute) ∧
      plan.newRoot = Tree.digest permute (Trie.shrink Nat.testBit k 0 ss .empty) := by
  have hcan := h.canonical
  rw [SMT.deletePlan, hget]
  rcases h.lastSibling_eq with ⟨rfl, hls⟩ | ⟨last, oldKey, oldValue, hlast, hls⟩
  · simp only [SMT.answer, decide_true, bind, Except.bind, hls]
    exact ⟨_, rfl, rfl, rfl, rfl⟩
  · obtain ⟨ℓ', hcl⟩ := hcan.sibling (List.mem_of_getLast? hlast)
    have hzero : ∀ s ∈ ss, Tree.digest permute s = 0 ↔ Trie.size s = 0 := by
      intro s hs
      obtain ⟨_, hcs⟩ := hcan.sibling hs
      rw [hcs.size_eq_zero_iff]
      exact (h.sibling_hashed hs).digest_eq_zero_iff hcf
    have hiso : Trie.IsNode last = decide (2 ≤ Trie.size last) := by
      rw [Bool.eq_iff_iff, decide_eq_true_iff]
      exact hcl.two_le_size_iff.symm
    let st : SMT.DeleteLoop :=
      { oldRoot := SMT.hash1 permute k v
        newRoot := bif Trie.IsNode last then 0 else Tree.digest permute last
        mixed := Trie.IsNode last
        siblings := []
        inserts := []
        deletes := [SMT.hash1 permute k v] }
    have hold : st.oldRoot = Tree.digest permute (.leaf k v) := rfl
    obtain ⟨siblings, hfold⟩ := SMT.foldr_deleteLevel (k := k) st
      (Nat.zero_add ss.length).symm hzero hlast (hcan.size_getLast_pos hlast) hiso
      hold rfl rfl
    simp only [SMT.answer, decide_true, bind, Except.bind, hls, List.length_map]
    rw [hfold]
    exact ⟨_, rfl, rfl, rfl, rfl⟩

/-- **DELETE.** -/
theorem Reflects.delete {t : Tree} (h : Reflects permute inputs smt t)
    (hcf : CollisionFree permute inputs) {k v : ℕ} (hm : Trie.Mem k v t) :
    ∃ plan, SMT.deletePlan permute smt k = .ok plan ∧
      ((∀ x ∈ plan.hashed, x ∈ inputs) → ∃ smt' t',
        SMT.delete permute smt k = .ok (smt', plan.response) ∧
        Reflects permute inputs smt' t' ∧
        ∀ k' v', Trie.Mem k' v' t' ↔ k' ≠ k ∧ Trie.Mem k' v' t) := by
  obtain ⟨ss, rfl, hget⟩ := h.leaf_path hcf hm
  have hcan := h.canonical
  obtain ⟨plan, hplan, hins, hdel, hroot⟩ := h.deletePlan_eq hcf hget
  refine ⟨_, hplan, ?_⟩
  intro hin
  have hw : SMTMemDb.written plan.inserts
      = (Trie.ridge Nat.testBit k 0 ss .empty).map (Tree.entry permute) := by
    rw [hins]
    exact written_nodes fun s hs => Trie.isNode_of_mem_ridge hs
  have hch := change_shrink hcan
  have hmem := mem_shrink_leaf hcan
  have hcan' := hcan.shrink (Trie.Canonical.empty _)
    (fun _ _ hm' => hm'.elim)
  -- the new nodes do not hold the key, the old ones do
  have hfresh : ∀ s ∈ Trie.ridge Nat.testBit k 0 ss .empty,
      s ∉ (.leaf k v : Tree) :: Trie.spine Nat.testBit k 0 ss (.leaf k v) := by
    intro s hs hgone
    have hkey : Trie.Mem k v s := by
      rcases List.mem_cons.mp hgone with rfl | hsp
      · exact ⟨rfl, rfl⟩
      · exact Trie.mem_of_mem_spine hsp ⟨rfl, rfl⟩
    have hleft := (hmem k v).mp ((Trie.sub_shrink_of_mem_ridge hs).2.mem hkey)
    exact hleft.1 rfl
  have hafter := h.insDel hcf hch hfresh hcan'
    (fun k' v' hm' => h.entries k' v' ((hmem k' v').mp hm').2)
    (Plan.input_mem hw hin) hw
  rw [← hdel, ← hroot] at hafter
  refine ⟨_, _, ?_, hafter, hmem⟩
  rw [SMT.delete, hplan]
  rfl

/-- What `add` puts at the bottom of the key's path: `b'`, with `low` its new nodes. -/
structure Insertion (k v ℓ : ℕ) (b b' : Tree) (low : List Tree) : Prop where
  canonical : Trie.Canonical Nat.testBit ℓ b'
  mem : ∀ k' v', Trie.Mem k' v' b' ↔ k' = k ∧ v' = v ∨ Trie.Mem k' v' b
  size : Trie.size b ≤ Trie.size b'
  sub : ∀ s, Trie.Sub s b' → s ≠ .empty → s ∈ low ∨ s = b
  made : ∀ s ∈ low, Trie.Sub s b'
  holds : ∀ s ∈ low, Trie.Mem k v s

/-- The new leaf, where nothing was. -/
theorem insertion_empty (k v ℓ : ℕ) :
    Insertion k v ℓ .empty (.leaf k v) [.leaf k v] where
  canonical := Trie.Canonical.leaf _ _ _
  mem _ _ := (or_iff_left id).symm
  size := Nat.zero_le _
  sub _ hs _ := Or.inl (List.mem_singleton.mpr (hs.eq_of_not_isNode rfl))
  made _ hs := List.mem_singleton.mp hs ▸ Trie.Sub.refl
  holds := by
    intro s hs
    obtain rfl := List.mem_singleton.mp hs
    exact ⟨rfl, rfl⟩

/-- The new leaf and an old one, under the bits they share. -/
theorem insertion_fork {k k₀ ℓ n : ℕ} (v v₀ : ℕ)
    (hsame : ∀ i < n, k₀.testBit (ℓ + i) = k.testBit (ℓ + i))
    (hdiff : k₀.testBit (ℓ + n) ≠ k.testBit (ℓ + n)) :
    Insertion k v ℓ (.leaf k₀ v₀) (Trie.fork Nat.testBit k v k₀ v₀ ℓ n)
      (.leaf k v :: Trie.spine Nat.testBit k ℓ
        (List.replicate n .empty ++ [.leaf k₀ v₀]) (.leaf k v)) where
  canonical := (Trie.canonical_fork hsame hdiff).1
  mem _ _ := Trie.mem_fork
  size := Nat.le_trans (show 1 ≤ 2 by decide) (Trie.canonical_fork hsame hdiff).2
  sub := by
    intro s hs hne
    rcases Trie.sub_plug hs with hsp | hbot | ⟨s', hs', hsub⟩
    · exact Or.inl (List.mem_cons_of_mem _ hsp)
    · rw [hbot.eq_of_not_isNode rfl]
      exact Or.inl List.mem_cons_self
    · rcases List.mem_append.mp hs' with hz | hl
      · rw [List.eq_of_mem_replicate hz] at hsub
        exact absurd (hsub.eq_of_not_isNode rfl) hne
      · rw [List.mem_singleton.mp hl] at hsub
        exact Or.inr (hsub.eq_of_not_isNode rfl)
  made := by
    intro s hs
    rcases List.mem_cons.mp hs with rfl | hsp
    · exact Trie.sub_plug_of_bottom Trie.Sub.refl
    · exact Trie.sub_plug_of_mem_spine hsp
  holds := by
    intro s hs
    rcases List.mem_cons.mp hs with rfl | hsp
    · exact ⟨rfl, rfl⟩
    · exact Trie.mem_of_mem_spine hsp ⟨rfl, rfl⟩

/-- The plan of `add`. -/
theorem Reflects.addPlan_eq {k : ℕ} {ss : List Tree} {b : Tree}
    (h : Reflects permute inputs smt (Trie.plug Nat.testBit k 0 ss b))
    (hcf : CollisionFree permute inputs) (hk : k < bn254r)
    (hget : smt.get k = .ok (SMT.answer k (ss.map (Tree.digest permute)) b))
    (hnode : Trie.IsNode b = false) (hm : ∀ v, ¬ Trie.Mem k v b) (value : ℕ) :
    ∃ plan b' low, SMT.addPlan permute smt k value = .ok plan ∧
      Insertion k (F1Field.e value) ss.length b b' low ∧
      SMTMemDb.written plan.inserts
        = (low ++ Trie.spine Nat.testBit k 0 ss b').map (Tree.entry permute) ∧
      plan.deletes = (Trie.spine Nat.testBit k 0 ss b).map (Tree.digest permute) ∧
      plan.newRoot = Tree.digest permute (Trie.plug Nat.testBit k 0 ss b') := by
  rw [SMT.addPlan, hget]
  cases b with
  | node l r => exact Bool.noConfusion hnode
  | empty =>
      have hmixed : ss ≠ [] → decide (0 < ss.length) = true ∨ 0 + ss.length < ss.length ∧
          ∀ s, ss.getLast? = some s → Tree.digest permute s ≠ 0 :=
        fun hne => Or.inl (decide_eq_true (List.length_pos_iff.mpr hne))
      have hw := written_path permute hk value 0 ss
      simp only [SMT.answer, bind, Except.bind, SMT.addStart, List.length_map, pure,
        Except.pure, Bool.false_eq_true, not_true_eq_false, if_false]
      rw [SMT.foldr_addLevel_mixed ss .empty (.leaf k (F1Field.e value)) _ rfl
        (hash1_eq k value) hmixed]
      exact ⟨_, _, _, rfl, insertion_empty _ _ _, hw, rfl, rfl⟩
  | leaf k₀ v₀ =>
      have hne : k₀ ≠ k := fun heq => hm v₀ ⟨heq.symm, rfl⟩
      obtain ⟨hcanb, hagree⟩ := h.canonical.bottom_agrees
      simp only [Nat.zero_add] at hagree
      have hk₀ : k₀ < bn254r :=
        (h.entries k₀ v₀ (Trie.mem_plug.mpr (Or.inl ⟨rfl, rfl⟩))).1
      obtain ⟨n, hlt, hsame, hdiff⟩ :=
        exists_first_bit hk hk₀ hne (hagree k₀ v₀ ⟨rfl, rfl⟩)
      -- the siblings below the old ones: zeros for the shared bits, then the old leaf
      let zs : List Tree := List.replicate n .empty ++ [.leaf k₀ v₀]
      have hzs : ss.map (Tree.digest permute) ++ List.replicate n 0 ++
            [SMT.hash1 permute k₀ v₀] = (ss ++ zs).map (Tree.digest permute) := by
        rw [List.map_append, List.map_append, List.map_replicate, List.append_assoc]
        rfl
      have hlen : zs.length = n + 1 := by
        rw [List.length_append, List.length_replicate, List.length_singleton]
      have hfresh : ∀ i s, zs[i]? = some s → s = .empty ∨
          ss.length + i + 1 = ss.length + (n + 1) := by
        intro i s hi
        rcases Nat.lt_or_ge i n with hin | hin
        · rw [List.getElem?_append_left (by rw [List.length_replicate]; exact hin),
            List.getElem?_replicate_of_lt hin] at hi
          exact Or.inl (Option.some.inj hi).symm
        · have hi' : i < n + 1 := hlen ▸ (List.getElem?_eq_some_iff.mp hi).1
          right
          omega
      have hmixed : ss ≠ [] → false = true ∨ 0 + ss.length < ss.length + (n + 1) ∧
          ∀ s, ss.getLast? = some s → Tree.digest permute s ≠ 0 := by
        refine fun _ => Or.inr ⟨by omega, ?_⟩
        intro s hs
        have hpos := h.canonical.size_getLast_pos hs
        refine (h.sibling_hashed (List.mem_of_getLast? hs)).digest_ne_zero hcf ?_
        rintro rfl
        exact Nat.lt_irrefl 0 hpos
      have hw := written_path permute hk value 0 (ss ++ zs)
      rw [Trie.spine_append, List.map_append, ← List.append_assoc, ← List.cons_append,
        Nat.zero_add] at hw
      simp only [SMT.answer, hne, decide_false, bind, Except.bind, SMT.addStart,
        List.length_map, pure, Except.pure, Bool.false_eq_true, not_false_eq_true, if_true,
        if_false, SMT.sharedBits_eq hsame hdiff (by omega) (by omega : n < 257), hzs]
      rw [List.length_append, hlen, List.map_append, List.zipIdx_append,
        List.foldr_append, List.length_map, Nat.zero_add, SMT.foldr_addLevel_fresh zs
          (.leaf k (F1Field.e value)) _ (hash1_eq k value) rfl hfresh,
        SMT.foldr_addLevel_mixed ss (.leaf k₀ v₀) _ _ rfl rfl hmixed]
      exact ⟨_, _, _, rfl, insertion_fork _ _ hsame hdiff, hw, rfl, rfl⟩

/-- **ADD.** -/
theorem Reflects.add {t : Tree} (h : Reflects permute inputs smt t)
    (hcf : CollisionFree permute inputs) {k : ℕ} (hk : k < bn254r)
    (hm : ∀ v, ¬ Trie.Mem k v t) (value : ℕ) :
    ∃ plan, SMT.addPlan permute smt k value = .ok plan ∧
      ((∀ x ∈ plan.hashed, x ∈ inputs) → ∃ smt' t',
        SMT.add permute smt k value = .ok (smt', plan.response) ∧
        Reflects permute inputs smt' t' ∧
        ∀ k' v', Trie.Mem k' v' t' ↔
          k' = k ∧ v' = F1Field.e value ∨ Trie.Mem k' v' t) := by
  obtain ⟨ss, b, rfl, -, hnode, hget⟩ := h.path hcf hk
  have hcan := h.canonical
  obtain ⟨plan, b', low, hplan, hb', hw, hdel, hroot⟩ := h.addPlan_eq hcf hk hget hnode
    (fun v hv => hm v (hcan.mem_iff_bottom.mpr hv)) value
  refine ⟨plan, hplan, ?_⟩
  intro hin
  have hch := change_plug b' low [] hcan hnode
    (fun s hs hne => (hb'.sub s hs hne).imp_right fun heq => ⟨heq, rfl⟩) hb'.made
    (fun _ hs => absurd hs List.not_mem_nil)
  rw [List.nil_append] at hch
  have hmem : ∀ k' v', Trie.Mem k' v' (Trie.plug Nat.testBit k 0 ss b') ↔
      k' = k ∧ v' = F1Field.e value ∨
      Trie.Mem k' v' (Trie.plug Nat.testBit k 0 ss b) := by
    intro k' v'
    rw [Trie.mem_plug, Trie.mem_plug, hb'.mem, or_assoc]
  have hagree : ∀ k' v', Trie.Mem k' v' b' → ∀ i < ss.length,
      k'.testBit (0 + i) = k.testBit (0 + i) := by
    intro k' v' hm' i hi
    rcases (hb'.mem k' v').mp hm' with ⟨rfl, _⟩ | hold
    · rfl
    · exact hcan.bottom_agrees.2 k' v' hold i hi
  have hcan' := (hcan.plug (by rw [Nat.zero_add]; exact hb'.canonical) hagree hb'.size).1
  -- the new nodes hold the key, the old ones do not
  have hfresh : ∀ s ∈ low ++ Trie.spine Nat.testBit k 0 ss b',
      s ∉ Trie.spine Nat.testBit k 0 ss b := by
    intro s hs hgone
    have hkey : Trie.Mem k (F1Field.e value) s := by
      rcases List.mem_append.mp hs with hl | hsp
      · exact hb'.holds s hl
      · exact Trie.mem_of_mem_spine hsp ((hb'.mem _ _).mpr (Or.inl ⟨rfl, rfl⟩))
    exact hm _ ((Trie.sub_plug_of_mem_spine hgone).mem hkey)
  have hent : ∀ k' v', Trie.Mem k' v' (Trie.plug Nat.testBit k 0 ss b') →
      k' < bn254r ∧ v' < bn254r := by
    intro k' v' hm'
    rcases (hmem k' v').mp hm' with ⟨rfl, rfl⟩ | hold
    · exact ⟨hk, F1Field.e_lt value⟩
    · exact h.entries k' v' hold
  have hafter := h.insDel hcf hch hfresh hcan' hent (Plan.input_mem hw hin) hw
  rw [← hdel, ← hroot] at hafter
  refine ⟨_, _, ?_, hafter, hmem⟩
  rw [SMT.add, hplan]
  rfl

end Albus.Core
