import Albus.Circuits.NamedClaims
import Albus.Core.CredentialRoot

/-! # The proofs of a claims tree fit the circuit

    `SMTVerifier(nLevels)` takes as many siblings as it has levels, of which the last
    must be zero, and climbs from the leaf through those up to the last that is not.
    The keys of a claims tree are consecutive, so a tree of at most `2 ^ (d - 1)`
    claims has no path longer than `d - 1` (`length_siblings_le`); `get` fills the
    siblings up with zeros, and what stands before the zeros is the path
    (`rdropWhile_filled`). -/

namespace Albus.Circuits

open Albus.Lib Albus.Core

/-- **WHAT THE TREE VERIFIER IS SATISFIED BY**: an inclusion whose last sibling is
    zero, and whose other siblings lead from the leaf to the root. -/
structure SmtAccepts (lib : Circomlib) (permute : List ℕ → ℕ) (nLevels : ℕ) : Prop where
  inclusion : ∀ (root : F) (c : Claim), c.proof (nLevels - 1) = 0 →
    root.val = climb permute c.key.val 0 (trimmed ((List.range nLevels).map c.proof))
      (SMT.hash1 permute c.key.val c.value.val) →
    lib.smtVerifier nLevels (merkleInclusion root c)

/-- A proof as the inputs `X`, `XKey` and `XProof` of a circuit. -/
def ClaimProof.toClaim (proof : ClaimProof) : Claim where
  value := proof.value
  key := proof.key
  proof i := (proof.siblings.getD i 0 : ℕ)

/-- The proof is one for `d` levels. -/
structure FitsCircuit (lib : Circomlib) (permute : List ℕ → ℕ) (d : ℕ) (tree : ClaimsTree)
    (proof : ClaimProof) : Prop where
  found : proof.found = true
  length : proof.siblings.length = d
  last : proof.siblings.getLast? = some 0
  root : climb permute proof.key 0 (proof.siblings.rdropWhile (· = 0))
    (SMT.hash1 permute proof.key proof.value) = tree.root
  verifier : lib.smtVerifier d (merkleInclusion (tree.root : F) (ClaimProof.toClaim proof))

/-! ## The path of a claim -/

section Path

variable {permute : List ℕ → ℕ} {inputs : List (List ℕ)} {tree : ClaimsTree}
  {claims : List (String × String)} {t : Tree}

/-- The path of a claim's key ends in the claim. -/
theorem exists_path (h : ClaimsTree.Built permute inputs tree claims t)
    (hcf : CollisionFree permute inputs) (hnodup : (claims.map Prod.fst).Nodup)
    {name : String} (hname : name ∈ claims.map Prod.fst) :
    ∃ k v ss, k < bn254r ∧ v < bn254r ∧
      t = Trie.plug Nat.testBit k 0 ss (.leaf k v) ∧
      tree.get name = .ok
        { found := true
          key := k
          value := v
          siblings := ss.map (Tree.digest permute) ++
            List.replicate (tree.treeDepth - ss.length) 0 } := by
  obtain ⟨p, hp, rfl⟩ := List.mem_map.mp hname
  obtain ⟨k, hk⟩ := List.mem_iff_getElem?.mp hp
  obtain ⟨value, henc⟩ := h.encoded p hp
  obtain ⟨hkey, -⟩ := h.stores hcf hnodup hk henc
  have hm : Trie.Mem k (F1Field.e value) t :=
    (h.mem k _).mpr ⟨p.1, p.2, value, hk, henc, rfl⟩
  obtain ⟨hlt, hv⟩ := h.reflects.entries k _ hm
  obtain ⟨ss, b, ht, -, hnode, hget⟩ := h.reflects.path hcf hlt
  have hcan := h.reflects.canonical
  rw [ht] at hm hcan
  have hb := hcan.mem_iff_bottom.mp hm
  cases b with
  | empty => exact hb.elim
  | node l r => exact Bool.noConfusion hnode
  | leaf k' v' =>
      obtain ⟨rfl, rfl⟩ := hb
      refine ⟨k, F1Field.e value, ss, hlt, hv, ht, ?_⟩
      rw [ClaimsTree.get, hkey, hget]
      simp [SMT.answer]

/-- **CONSECUTIVE KEYS HAVE SHORT PATHS.** -/
theorem length_siblings_le (h : ClaimsTree.Built permute inputs tree claims t) {n : ℕ}
    (hlen : claims.length ≤ 2 ^ n) {k : ℕ} {ss : List Tree} {b : Tree}
    (ht : t = Trie.plug Nat.testBit k 0 ss b) : ss.length ≤ n := by
  have hlow : ∀ k v, Trie.Mem k v t → k < 2 ^ n := by
    intro k v hm
    obtain ⟨name, text, value, hget, -⟩ := (h.mem k v).mp hm
    exact Nat.lt_of_lt_of_le (List.getElem?_eq_some_iff.mp hget).1 hlen
  have hcan := h.reflects.canonical
  rw [ht] at hcan hlow
  refine hcan.length_siblings_le ?_
  intro k₁ v₁ k₂ v₂ h₁ h₂ hagree
  exact eq_of_testBit_lt (hlow k₁ v₁ h₁) (hlow k₂ v₂ h₂) hagree

/-- The hash beside a leaf, at the end of its path, is not zero. -/
theorem digest_getLast_ne_zero (h : ClaimsTree.Built permute inputs tree claims t)
    (hcf : CollisionFree permute inputs) {k k' v : ℕ} {ss : List Tree}
    (ht : t = Trie.plug Nat.testBit k 0 ss (.leaf k' v)) {s : Tree}
    (hs : ss.getLast? = some s) : Tree.digest permute s ≠ 0 := by
  have hcan := h.reflects.canonical
  have hhashed := h.reflects.hashed
  rw [ht] at hcan hhashed
  have hpos := hcan.size_getLast_pos hs
  have hsub : Trie.Sub s (Trie.plug Nat.testBit k 0 ss (.leaf k' v)) :=
    Trie.sub_plug_of_sibling (List.mem_of_getLast? hs) Trie.Sub.refl
  refine (hhashed.sub hsub).digest_ne_zero hcf ?_
  rintro rfl
  exact Nat.lt_irrefl 0 hpos

end Path

/-! ## Filling up with zeros -/

/-- The zeros that are filled in are the zeros that are dropped. -/
theorem rdropWhile_filled {siblings : List ℕ} (h : ∀ s ∈ siblings.getLast?, s ≠ 0) (m : ℕ) :
    (siblings ++ List.replicate m 0).rdropWhile (· = 0) = siblings := by
  induction m with
  | zero =>
      rw [List.replicate_zero, List.append_nil, List.rdropWhile_eq_self_iff]
      intro hne hzero
      exact h _ (List.getLast?_eq_some_getLast hne) (of_decide_eq_true hzero)
  | succ m ih =>
      rw [List.replicate_succ', ← List.append_assoc,
        List.rdropWhile_concat_pos (fun x => decide (x = 0)) _ 0 rfl]
      exact ih

/-- The siblings as the circuit takes them. -/
theorem trimmed_siblings {siblings : List ℕ} (h : ∀ s ∈ siblings, s < bn254r) :
    trimmed ((List.range siblings.length).map fun i => ((siblings.getD i 0 : ℕ) : F))
      = siblings.rdropWhile (· = 0) := by
  have hval : ((List.range siblings.length).map fun i =>
      ((siblings.getD i 0 : ℕ) : F)).map ZMod.val = siblings := by
    refine List.ext_getElem (by simp) ?_
    intro i h₁ h₂
    rw [List.getElem_map, List.getElem_map, List.getElem_range,
      List.getD_eq_getElem _ _ h₂, ZMod.val_natCast_of_lt (h _ (List.getElem_mem h₂))]
  rw [trimmed, hval]

/-! ## Every claim of a tree -/

theorem treeDepth_addAll {permute : List ℕ → ℕ} {claims : List (String × String)}
    {tree tree' : ClaimsTree} (h : tree.addAll permute claims = .ok tree') :
    tree'.treeDepth = tree.treeDepth := by
  induction claims generalizing tree with
  | nil =>
      obtain rfl := Except.ok.inj h
      rfl
  | cons p claims ih =>
      rw [ClaimsTree.addAll] at h
      cases hadd : ClaimsTree.add permute tree p.1 p.2 with
      | error e =>
          rw [hadd] at h
          cases h
      | ok tree₁ =>
          rw [hadd] at h
          rw [ih h]
          -- `add` changes the keys and the tree below
          rw [ClaimsTree.add] at hadd
          split at hadd
          · cases hadd
          · split at hadd
            · obtain rfl := Except.ok.inj hadd
              rfl
            · cases hadd

/-- **MERKLE PROOFS FIT THE CIRCUIT.** -/
theorem merkle_proofs_fit {lib : Circomlib} {permute : List ℕ → ℕ} {d : ℕ}
    {depth : Option ℕ} {claims : List (String × String)} {tree : ClaimsTree} (hd : 1 ≤ d)
    (hdepth : (ClaimsTree.new depth).treeDepth = d)
    (hnodup : (claims.map Prod.fst).Nodup) (hlen : claims.length ≤ 2 ^ (d - 1))
    (hcf : CollisionFree permute ((ClaimsTree.new depth).hashed permute claims))
    (hok : (ClaimsTree.new depth).addAll permute claims = .ok tree)
    (hlib : SmtAccepts lib permute d) :
    ∀ name ∈ claims.map Prod.fst, ∃ proof, tree.get name = .ok proof ∧
      FitsCircuit lib permute d tree proof := by
  intro name hname
  obtain ⟨t, h⟩ := (ClaimsTree.built_new depth).addAll hcf hnodup (fun _ hx => hx) hok
  rw [List.nil_append] at h
  obtain ⟨k, v, ss, hk, hv, ht, hget⟩ := exists_path h hcf hnodup hname
  rw [(treeDepth_addAll hok).trans hdepth] at hget
  have hss : ss.length ≤ d - 1 := length_siblings_le h hlen ht
  obtain ⟨m, hm⟩ : ∃ m, d - ss.length = m + 1 := ⟨d - ss.length - 1, by omega⟩
  rw [hm] at hget
  refine ⟨_, hget, ?_⟩
  -- the path, as hashes, and the zeros behind it
  have hlast : ∀ s ∈ (ss.map (Tree.digest permute)).getLast?, s ≠ 0 := by
    intro s hs
    rw [List.getLast?_map] at hs
    obtain ⟨r, hr, rfl⟩ := Option.mem_map.mp hs
    exact digest_getLast_ne_zero h hcf ht hr
  have hdrop := rdropWhile_filled hlast (m + 1)
  have hfield : ∀ s ∈ ss.map (Tree.digest permute) ++ List.replicate (m + 1) 0,
      s < bn254r := by
    intro s hs
    rcases List.mem_append.mp hs with hs | hs
    · obtain ⟨r, -, rfl⟩ := List.mem_map.mp hs
      exact Tree.digest_lt r
    · rw [List.eq_of_mem_replicate hs]
      decide
  have hlength : (ss.map (Tree.digest permute) ++ List.replicate (m + 1) 0).length = d := by
    rw [List.length_append, List.length_map, List.length_replicate]
    omega
  have hroot : climb permute k 0 (ss.map (Tree.digest permute)) (SMT.hash1 permute k v)
      = tree.root := by
    show _ = tree.smt.root
    rw [h.reflects.root, ht]
    exact climb_plug k ss (.leaf k v) 0
  refine ⟨rfl, hlength, ?_, ?_, ?_⟩
  · rw [List.replicate_succ', ← List.append_assoc]
    exact List.getLast?_concat
  · show climb permute k 0 (List.rdropWhile _ _) _ = _
    rw [hdrop]
    exact hroot
  · refine hlib.inclusion _ _ ?_ ?_
    · show ((List.getD _ (d - 1) 0 : ℕ) : F) = 0
      rw [List.getD_append_right _ _ _ _ (by rw [List.length_map]; exact hss),
        List.getD_replicate 0 (by rw [List.length_map]; omega), Nat.cast_zero]
    · show ZMod.val ((tree.root : ℕ) : F) = climb permute (ZMod.val ((k : ℕ) : F)) 0 (trimmed
        ((List.range d).map fun i => ((List.getD _ i 0 : ℕ) : F)))
        (SMT.hash1 permute (ZMod.val ((k : ℕ) : F)) (ZMod.val ((v : ℕ) : F)))
      rw [ZMod.val_natCast_of_lt hk, ZMod.val_natCast_of_lt hv, ← hlength,
        trimmed_siblings hfield, hdrop, hroot]
      refine ZMod.val_natCast_of_lt ?_
      show tree.smt.root < bn254r
      rw [h.reflects.root]
      exact Tree.digest_lt t

/-! ## Four claims at three levels -/

namespace ProofSample

def claims : List (String × String) :=
  [("country", "US"), ("citizenship", "DE"), ("meta.validUntil", "0"),
    ("meta.validFrom", "0")]

def tree : ClaimsTree :=
  match (ClaimsTree.new (some 3)).addAll RootSample.poseidon claims with
  | .ok tree => tree
  | .error _ => ClaimsTree.new none

theorem tree_ok :
    (ClaimsTree.new (some 3)).addAll RootSample.poseidon claims = .ok tree :=
  ok_of_isOk (by decide +kernel) (ClaimsTree.new none)

/-- The tree verifier by what it computes. -/
def lib : Circomlib :=
  { Circomlib.reference .empty with
    smtVerifier nLevels i := i.enabled = 1 ∧ i.fnc = 0 ∧ i.siblings (nLevels - 1) = 0 ∧
      i.root.val = climb RootSample.poseidon i.key.val 0
        (trimmed ((List.range nLevels).map i.siblings))
        (SMT.hash1 RootSample.poseidon i.key.val i.value.val) }

theorem lib_accepts : SmtAccepts lib RootSample.poseidon 3 where
  inclusion := fun _ _ hlast hroot => ⟨rfl, rfl, hlast, hroot⟩

end ProofSample

open ProofSample in
theorem merkle_proofs_fit_sample :
    ∃ proof, tree.get "citizenship" = .ok proof ∧
      FitsCircuit lib RootSample.poseidon 3 tree proof :=
  merkle_proofs_fit (by decide) rfl (by decide) (by decide) (by decide +kernel) tree_ok
    lib_accepts "citizenship" (List.mem_cons_of_mem _ List.mem_cons_self)

end Albus.Circuits
