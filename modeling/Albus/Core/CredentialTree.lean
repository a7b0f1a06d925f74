import Albus.Core.ClaimsTree
import Albus.Core.SmtRefinement

/-! # The tree of a credential

    The names of the flattened claims are distinct, so every claim gets a key of its
    own, the position of its name: the tree of a credential holds exactly its
    claims' values under their positions (`createCredentialTree_reflects`). -/

namespace Albus.Core

open Albus.Lib

/-! ## Distinct names -/

theorem mem_of_lookup {claims : List (String × String)} {name text : String}
    (h : claims.lookup name = some text) : (name, text) ∈ claims := by
  obtain ⟨before, after, rfl, -⟩ := List.lookup_eq_some_iff.mp h
  exact List.mem_append_right _ List.mem_cons_self

/-- A name that occurs once is looked up where it stands. -/
theorem lookup_of_mem {claims : List (String × String)}
    (hnodup : (claims.map Prod.fst).Nodup) {p : String × String} (hp : p ∈ claims) :
    claims.lookup p.1 = some p.2 := by
  obtain ⟨before, after, rfl⟩ := List.append_of_mem hp
  refine List.lookup_eq_some_iff.mpr ⟨before, after, rfl, ?_⟩
  intro q hq
  rw [bne_iff_ne]
  intro heq
  rw [List.map_append] at hnodup
  exact (List.nodup_append.mp hnodup).2.2 q.1 (List.mem_map_of_mem hq) p.1
    List.mem_cons_self heq.symm

theorem map_fst_setProp_perm {res : List (String × String)} {key : String}
    (hk : key ∉ res.map Prod.fst) (hp : key ≠ "__proto__") (value : String) :
    ((setProp res key value).map Prod.fst).Perm (key :: res.map Prod.fst) := by
  rw [setProp, if_neg hp, if_neg hk]
  cases arrayIndex key with
  | none =>
      rw [List.map_append]
      exact List.perm_append_singleton key _
  | some n =>
      show ((res.takeWhile (precedes n) ++
        (key, value) :: res.dropWhile (precedes n)).map Prod.fst).Perm _
      rw [List.map_append, List.map_cons]
      refine List.perm_middle.trans ?_
      rw [← List.map_append, List.takeWhile_append_dropWhile]

theorem nodup_setProp {res : List (String × String)} (h : (res.map Prod.fst).Nodup)
    (key value : String) : ((setProp res key value).map Prod.fst).Nodup := by
  by_cases hp : key = "__proto__"
  · rw [setProp, if_pos hp]
    exact h
  · by_cases hk : key ∈ res.map Prod.fst
    · have hmap : (setProp res key value).map Prod.fst = res.map Prod.fst := by
        rw [setProp, if_neg hp, if_pos hk, List.map_map]
        refine List.map_congr_left ?_
        intro p _
        show (if p.1 = key then (key, value) else p).1 = p.1
        by_cases hpk : p.1 = key
        · rw [if_pos hpk, hpk]
        · rw [if_neg hpk]
      rw [hmap]
      exact h
    · exact (map_fst_setProp_perm hk hp value).nodup_iff.mpr
        (List.nodup_cons.mpr ⟨hk, h⟩)

theorem nodup_foldl_setProp {res : List (String × String)}
    (h : (res.map Prod.fst).Nodup) (inner : List (String × String)) :
    ((inner.foldl (fun res p => setProp res p.1 p.2) res).map Prod.fst).Nodup := by
  induction inner generalizing res with
  | nil => exact h
  | cons p inner ih => exact ih (nodup_setProp h p.1 p.2)

mutual

theorem nodup_flattenValue {res out : List (String × String)} {k : String} :
    ∀ {value : JsValue}, (res.map Prod.fst).Nodup →
      flattenValue res k value = .ok out → (out.map Prod.fst).Nodup
  | .scalar text, h, hok => by
      rw [flattenValue] at hok
      obtain rfl := Except.ok.inj hok
      exact nodup_setProp h k text
  | .null, _, hok => by
      rw [flattenValue] at hok
      exact nomatch hok
  | .object props, h, hok => by
      rw [flattenValue] at hok
      cases hin : flattenObject k [] props with
      | error e =>
          rw [hin] at hok
          exact nomatch hok
      | ok inner =>
          rw [hin] at hok
          obtain rfl := Except.ok.inj hok
          exact nodup_foldl_setProp h inner

theorem nodup_flattenObject {parentKey : String} :
    ∀ {props : JsProps} {res out : List (String × String)}, (res.map Prod.fst).Nodup →
      flattenObject parentKey res props = .ok out → (out.map Prod.fst).Nodup
  | .nil, res, out, h, hok => by
      rw [flattenObject] at hok
      obtain rfl := Except.ok.inj hok
      exact h
  | .cons key value rest, res, out, h, hok => by
      rw [flattenObject] at hok
      cases hv : flattenValue res (if parentKey = "" then key
          else parentKey ++ "." ++ key) value with
      | error e =>
          simp only [hv] at hok
          exact nomatch hok
      | ok res' =>
          simp only [hv] at hok
          exact nodup_flattenObject (nodup_flattenValue h hv) hok

end

/-- **THE NAMES OF A CREDENTIAL'S CLAIMS ARE DISTINCT.** -/
theorem W3CCredential.nodup_claims {unixTs : String → String}
    {credential : W3CCredential} {claims : List (String × String)}
    (h : credential.claims unixTs = .ok claims) : (claims.map Prod.fst).Nodup := by
  have hnil : (([] : List (String × String)).map Prod.fst).Nodup := List.nodup_nil
  exact nodup_flattenObject hnil h

/-! ## Building the tree -/

namespace ClaimsTree

/-- The inputs of the hashes of the nodes made while adding claims. -/
def hashed (permute : List ℕ → ℕ) : ClaimsTree → List (String × String) → List (List ℕ)
  | _, [] => []
  | tree, (key, text) :: claims =>
    (match encodeValue permute text with
      | .ok value =>
        SMT.hashed permute tree.smt (.add
          (encodeKey { tree with keys := tree.keys ++ [key] } key).toNat value)
      | .error _ => []) ++
    match add permute tree key text with
    | .ok tree' => hashed permute tree' claims
    | .error _ => []

variable {permute : List ℕ → ℕ} {inputs : List (List ℕ)} {tree : ClaimsTree}
  {claims : List (String × String)} {t : Tree}

/-- The tree after adding `claims`: every claim's value under its position. -/
structure Built (permute : List ℕ → ℕ) (inputs : List (List ℕ)) (tree : ClaimsTree)
    (claims : List (String × String)) (t : Tree) : Prop where
  reflects : Reflects permute inputs tree.smt t
  keys : tree.keys = claims.map Prod.fst
  length : claims.length ≤ bn254r
  encoded : ∀ p ∈ claims, ∃ value, encodeValue permute p.2 = .ok value
  mem : ∀ k v, Trie.Mem k v t ↔ ∃ name text value,
    claims[k]? = some (name, text) ∧ encodeValue permute text = .ok value ∧
      v = F1Field.e value

theorem built_new (depth : Option ℕ) : Built permute inputs (new depth) [] .empty where
  reflects := SMT.new_reflects
  keys := rfl
  length := Nat.zero_le _
  encoded := nofun
  mem _ _ := iff_of_false id (by rintro ⟨_, _, _, h, _⟩; exact nomatch h)

/-- The key that `add` gives to a new name. -/
theorem Built.encodeKey_eq (h : Built permute inputs tree claims t) {key : String}
    (hkey : key ∉ claims.map Prod.fst) :
    encodeKey { tree with keys := tree.keys ++ [key] } key = claims.length := by
  have hkey' : key ∉ tree.keys := h.keys ▸ hkey
  have hmem : key ∈ tree.keys ++ [key] := List.mem_append_right _ List.mem_cons_self
  rw [encodeKey, if_pos hmem, List.idxOf_append_of_notMem hkey', List.idxOf_cons_self,
    h.keys, List.length_map, Nat.add_zero]

/-- A position of the list is not in use. -/
theorem Built.not_mem (h : Built permute inputs tree claims t) (v : ℕ) :
    ¬ Trie.Mem claims.length v t := by
  rw [h.mem]
  rintro ⟨name, text, value, hnone, _⟩
  rw [List.getElem?_eq_none (Nat.le_refl _)] at hnone
  exact nomatch hnone

/-- A key that is found is not added. -/
theorem add_of_found {smt : SMT} {k value : ℕ} {res : FindFromSmtResponse}
    (hget : smt.get k = .ok res) (hfound : res.found = true) :
    SMT.add permute smt k value = .error (.error "Key already exists") := by
  rw [SMT.add, SMT.addPlan, hget]
  simp only [bind, Except.bind, hfound, if_true]
  rfl

/-- Adding succeeds below the modulus only: the key after the last field element is
    read as zero, which is taken. -/
theorem Built.length_lt (h : Built permute inputs tree claims t)
    (hcf : CollisionFree permute inputs) {value : ℕ} {out : SMT × AddIntoSmtResponse}
    (hok : SMT.add permute tree.smt claims.length value = .ok out) :
    claims.length < bn254r := by
  refine Nat.lt_of_le_of_ne h.length ?_
  intro heq
  have hpos : 0 < claims.length := by
    rw [heq]
    decide
  have hget0 : claims[0]? = some claims[0] := List.getElem?_eq_getElem hpos
  obtain ⟨value₀, henc⟩ := h.encoded claims[0] (List.getElem_mem hpos)
  have he : F1Field.e (claims.length : ℤ) = 0 := by
    rw [F1Field.e_natCast, heq, Nat.mod_self]
  have hm : Trie.Mem (F1Field.e (claims.length : ℤ)) (F1Field.e value₀) t := by
    rw [he, h.mem]
    exact ⟨_, _, value₀, hget0, henc, rfl⟩
  obtain ⟨res, hget, hfound, _⟩ := h.reflects.get_of_mem hcf hm
  rw [add_of_found hget hfound] at hok
  exact nomatch hok

/-- **ONE CLAIM.** -/
theorem Built.add (h : Built permute inputs tree claims t)
    (hcf : CollisionFree permute inputs) {key text : String} {tree' : ClaimsTree}
    (hkey : key ∉ claims.map Prod.fst)
    (hin : ∀ value, encodeValue permute text = .ok value →
      ∀ x ∈ SMT.hashed permute tree.smt (.add claims.length value), x ∈ inputs)
    (hok : ClaimsTree.add permute tree key text = .ok tree') :
    ∃ t', Built permute inputs tree' (claims ++ [(key, text)]) t' := by
  rw [ClaimsTree.add] at hok
  simp only [h.encodeKey_eq hkey, Int.toNat_natCast] at hok
  cases henc : encodeValue permute text with
  | error e =>
      rw [henc] at hok
      exact nomatch hok
  | ok value =>
      rw [henc] at hok
      cases hadd : SMT.add permute tree.smt claims.length value with
      | error e =>
          simp only [hadd] at hok
          exact nomatch hok
      | ok out =>
          simp only [hadd] at hok
          obtain rfl := Except.ok.inj hok
          -- the new claim goes under the next position, which is free
          have hlt := h.length_lt hcf hadd
          obtain ⟨plan, hplan, hdone⟩ := h.reflects.add hcf hlt h.not_mem value
          have hhashed := hin value henc
          rw [SMT.hashed, hplan] at hhashed
          obtain ⟨smt', t', hsmt, hafter, hmem⟩ := hdone hhashed
          obtain rfl := Except.ok.inj (hadd.symm.trans hsmt)
          refine ⟨t', hafter, ?_, ?_, ?_, ?_⟩
          · show tree.keys ++ [key] = _
            rw [h.keys, List.map_append]
            rfl
          · rw [List.length_append]
            exact hlt
          · intro p hp
            rcases List.mem_append.mp hp with hp' | hp'
            · exact h.encoded p hp'
            · rw [List.mem_singleton.mp hp']
              exact ⟨value, henc⟩
          · intro k v
            rw [hmem, h.mem]
            constructor
            · rintro (⟨rfl, rfl⟩ | ⟨name, text', value', hget, rest⟩)
              · exact ⟨key, text, value, List.getElem?_concat_length, henc, rfl⟩
              · have hk := (List.getElem?_eq_some_iff.mp hget).1
                refine ⟨name, text', value', ?_, rest⟩
                rw [List.getElem?_append_left hk]
                exact hget
            · rintro ⟨name, text', value', hget, henc', rfl⟩
              by_cases hk : k < claims.length
              · rw [List.getElem?_append_left hk] at hget
                exact Or.inr ⟨name, text', value', hget, henc', rfl⟩
              · have hk' := (List.getElem?_eq_some_iff.mp hget).1
                rw [List.length_append, List.length_singleton] at hk'
                obtain rfl : k = claims.length := by omega
                rw [List.getElem?_concat_length] at hget
                obtain ⟨rfl, rfl⟩ := Prod.mk.inj (Option.some.inj hget)
                rw [henc] at henc'
                obtain rfl := Except.ok.inj henc'
                exact Or.inl ⟨rfl, rfl⟩

/-- **ALL CLAIMS.** -/
theorem Built.addAll (h : Built permute inputs tree claims t)
    (hcf : CollisionFree permute inputs) {rest : List (String × String)}
    {tree' : ClaimsTree} (hnodup : ((claims ++ rest).map Prod.fst).Nodup)
    (hin : ∀ x ∈ hashed permute tree rest, x ∈ inputs)
    (hok : ClaimsTree.addAll permute tree rest = .ok tree') :
    ∃ t', Built permute inputs tree' (claims ++ rest) t' := by
  induction rest generalizing tree claims t with
  | nil =>
      obtain rfl := Except.ok.inj hok
      exact ⟨t, by rw [List.append_nil]; exact h⟩
  | cons p rest ih =>
      obtain ⟨key, text⟩ := p
      have hkey : key ∉ claims.map Prod.fst := by
        rw [List.map_append] at hnodup
        intro hmem
        exact (List.nodup_append.mp hnodup).2.2 key hmem key List.mem_cons_self rfl
      rw [ClaimsTree.addAll] at hok
      cases hadd : ClaimsTree.add permute tree key text with
      | error e =>
          rw [hadd] at hok
          exact nomatch hok
      | ok tree₁ =>
          rw [hadd] at hok
          have hhead : ∀ value, encodeValue permute text = .ok value →
              ∀ x ∈ SMT.hashed permute tree.smt (.add claims.length value),
                x ∈ inputs := by
            intro value henc x hx
            refine hin x (List.mem_append_left _ ?_)
            rw [henc]
            show x ∈ SMT.hashed _ _ (.add (Int.toNat _) _)
            rw [h.encodeKey_eq hkey]
            exact hx
          obtain ⟨t₁, h₁⟩ := h.add hcf hkey hhead hadd
          have htail : ∀ x ∈ hashed permute tree₁ rest, x ∈ inputs := by
            intro x hx
            refine hin x (List.mem_append_right _ ?_)
            rw [hadd]
            exact hx
          have hassoc : claims ++ [(key, text)] ++ rest = claims ++ (key, text) :: rest :=
            List.append_cons _ _ _ ▸ rfl
          obtain ⟨t', h'⟩ := ih h₁ (hassoc ▸ hnodup) htail hok
          exact ⟨t', hassoc ▸ h'⟩

/-- A position is the position of one name. -/
theorem encodeKey_inj {k : ℕ} {name name' : String} (h : tree.encodeKey name = k)
    (h' : tree.encodeKey name' = k) : name = name' := by
  have hmem : ∀ {name : String}, tree.encodeKey name = k →
      name ∈ tree.keys ∧ tree.keys.idxOf name = k := by
    intro name hname
    rw [encodeKey] at hname
    by_cases hin : name ∈ tree.keys
    · rw [if_pos hin] at hname
      exact ⟨hin, Int.ofNat_inj.mp hname⟩
    · rw [if_neg hin] at hname
      exact absurd hname (by omega)
  obtain ⟨hin, hidx⟩ := hmem h
  exact (List.idxOf_inj hin).mp (hidx.trans (hmem h').2.symm)

/-- The tree stores `v` under the name. -/
def Stores (tree : ClaimsTree) (name : String) (v : ℕ) : Prop :=
  ∃ proof ∈ (tree.get name).toOption, proof.found = true ∧ proof.value = v

instance (tree : ClaimsTree) (name : String) (v : ℕ) : Decidable (tree.Stores name v) :=
  inferInstanceAs (Decidable (∃ proof ∈ (tree.get name).toOption, _ ∧ _))

/-- A claim's value is stored under its name. -/
theorem Built.stores (h : Built permute inputs tree claims t)
    (hcf : CollisionFree permute inputs) (hnodup : (claims.map Prod.fst).Nodup) {k : ℕ}
    {name text : String} {value : ℕ} (hk : claims[k]? = some (name, text))
    (henc : encodeValue permute text = .ok value) :
    tree.encodeKey name = k ∧ tree.Stores name (F1Field.e value) := by
  obtain ⟨hlt, hget⟩ := List.getElem?_eq_some_iff.mp hk
  have hlt' : k < tree.keys.length := by
    rw [h.keys, List.length_map]
    exact hlt
  have hname : tree.keys[k] = name := by
    simp only [h.keys, List.getElem_map, hget]
  have hkey : tree.encodeKey name = k := by
    have hmem : name ∈ tree.keys := hname ▸ List.getElem_mem hlt'
    rw [encodeKey, if_pos hmem, ← hname,
      List.Nodup.idxOf_getElem (by rw [h.keys]; exact hnodup) k hlt']
  refine ⟨hkey, ?_⟩
  have he : F1Field.e (k : ℤ) = k :=
    F1Field.e_of_lt (Nat.lt_of_lt_of_le hlt h.length)
  have hm : Trie.Mem (F1Field.e (k : ℤ)) (F1Field.e value) t := by
    rw [he, h.mem]
    exact ⟨name, text, value, hk, henc, rfl⟩
  obtain ⟨res, hsmt, hfound, hvalue⟩ := h.reflects.get_of_mem hcf hm
  rw [Stores, get, hkey, hsmt]
  exact ⟨_, rfl, hfound, hvalue⟩

/-- A tree has fewer leaves than there are field elements: their hashes differ, and
    none is zero. -/
theorem Built.length_lt_of_collisionFree (h : Built permute inputs tree claims t)
    (hcf : CollisionFree permute inputs) : claims.length < bn254r := by
  refine Nat.lt_of_le_of_ne h.length ?_
  intro heq
  have hleaf : ∀ k < bn254r, ∃ v, [k, v, 1] ∈ inputs := by
    intro k hk
    have hget := List.getElem?_eq_getElem (l := claims) (heq ▸ hk)
    obtain ⟨value, henc⟩ := h.encoded _ (List.getElem_mem (heq ▸ hk))
    have hm : Trie.Mem k (F1Field.e value) t :=
      (h.mem k _).mpr ⟨_, _, value, hget, henc, rfl⟩
    exact ⟨_, h.reflects.hashed _ hm.sub (Trie.leaf_ne_empty _ _)⟩
  choose! v hv using hleaf
  -- more leaves than values their hashes can have
  have hmaps : ∀ k ∈ Finset.range bn254r,
      Poseidon.hash permute [k, v k, 1] ∈ (Finset.range bn254r).erase 0 := by
    intro k hk
    rw [Finset.mem_erase, Finset.mem_range]
    exact ⟨hcf.nonzero _ (hv k (Finset.mem_range.mp hk)), Tree.hash_lt _⟩
  have hcard : ((Finset.range bn254r).erase 0).card < (Finset.range bn254r).card :=
    Finset.card_erase_lt_of_mem (Finset.mem_range.mpr (by decide))
  obtain ⟨k, hk, k', hk', hne, hhash⟩ :=
    Finset.exists_ne_map_eq_of_card_lt_of_maps_to hcard hmaps
  have hinput := hcf.injective _ (hv k (Finset.mem_range.mp hk)) _
    (hv k' (Finset.mem_range.mp hk')) hhash
  exact hne (List.cons.inj hinput).1

/-- A name that no claim has is not found: its key, −1, is above all positions. -/
theorem Built.get_of_not_mem (h : Built permute inputs tree claims t)
    (hcf : CollisionFree permute inputs) {name : String}
    (hname : name ∉ claims.map Prod.fst) :
    ∃ proof, tree.get name = .ok proof ∧ proof.found = false := by
  have hlt := h.length_lt_of_collisionFree hcf
  have hkey : tree.encodeKey name = -1 := by
    rw [encodeKey, if_neg (h.keys ▸ hname)]
  have habsent : ∀ v, ¬ Trie.Mem (F1Field.e (-1)) v t := by
    intro v hm
    obtain ⟨name', text, value, hget, -⟩ := (h.mem _ _).mp hm
    have hk := (List.getElem?_eq_some_iff.mp hget).1
    have he : F1Field.e (-1) = bn254r - 1 := by decide
    omega
  obtain ⟨res, hsmt, hfound⟩ := h.reflects.get_of_not_mem hcf habsent
  rw [get, hkey, hsmt]
  exact ⟨_, rfl, hfound⟩

/-- **WHAT A TREE STORES UNDER A NAME** is the value of the claim of that name. -/
theorem Built.stores_iff (h : Built permute inputs tree claims t)
    (hcf : CollisionFree permute inputs) (hnodup : (claims.map Prod.fst).Nodup)
    {name : String} {v : ℕ} :
    tree.Stores name v ↔ ∃ text value, claims.lookup name = some text ∧
      encodeValue permute text = .ok value ∧ v = F1Field.e value := by
  by_cases hname : name ∈ claims.map Prod.fst
  · obtain ⟨p, hp, rfl⟩ := List.mem_map.mp hname
    obtain ⟨k, hk⟩ := List.mem_iff_getElem?.mp hp
    obtain ⟨value, henc⟩ := h.encoded p hp
    have hlookup : claims.lookup p.1 = some p.2 := lookup_of_mem hnodup hp
    obtain ⟨-, proof, hproof, hfound, hvalue⟩ := h.stores hcf hnodup hk henc
    constructor
    · rintro ⟨proof', hproof', -, hvalue'⟩
      obtain rfl := Option.some.inj ((Option.mem_def.mp hproof).symm.trans hproof')
      exact ⟨p.2, value, hlookup, henc, hvalue'.symm.trans hvalue⟩
    · rintro ⟨text, value', htext, henc', rfl⟩
      rw [hlookup] at htext
      obtain rfl := Option.some.inj htext
      obtain rfl := Except.ok.inj (henc.symm.trans henc')
      exact ⟨proof, hproof, hfound, hvalue⟩
  · obtain ⟨proof, hget, hfound⟩ := h.get_of_not_mem hcf hname
    constructor
    · rintro ⟨proof', hproof', hfound', -⟩
      rw [hget] at hproof'
      obtain rfl := Option.some.inj hproof'
      exact absurd (hfound.symm.trans hfound') Bool.false_ne_true
    · rintro ⟨text, -, htext, -⟩
      exact absurd (List.mem_map_of_mem (mem_of_lookup htext)) hname

end ClaimsTree

/-! ## createCredentialTree -/

/-- The inputs of the hashes of the nodes made for a credential. -/
def credentialHashed (permute : List ℕ → ℕ) (unixTs : String → String)
    (credential : W3CCredential) (depth : Option ℕ) : List (List ℕ) :=
  match credential.claims unixTs with
  | .ok claims => (ClaimsTree.new depth).hashed permute claims
  | .error _ => []

/-- **THE TREE OF A CREDENTIAL HOLDS ITS CLAIMS UNDER THEIR POSITIONS.** -/
theorem createCredentialTree_built {permute : List ℕ → ℕ} {inputs : List (List ℕ)}
    {unixTs : String → String} {credential : W3CCredential} {depth : Option ℕ}
    {tree : ClaimsTree} (hcf : CollisionFree permute inputs)
    (hin : ∀ x ∈ credentialHashed permute unixTs credential depth, x ∈ inputs)
    (hok : createCredentialTree permute unixTs credential depth = .ok tree) :
    ∃ claims t, credential.claims unixTs = .ok claims ∧
      (claims.map Prod.fst).Nodup ∧ ClaimsTree.Built permute inputs tree claims t := by
  rw [createCredentialTree] at hok
  rw [credentialHashed] at hin
  cases hclaims : credential.claims unixTs with
  | error e =>
      rw [hclaims] at hok
      exact nomatch hok
  | ok claims =>
      rw [hclaims] at hok hin
      have hnodup := W3CCredential.nodup_claims hclaims
      obtain ⟨t, ht⟩ := (ClaimsTree.built_new depth).addAll hcf hnodup hin hok
      exact ⟨claims, t, rfl, hnodup, ht⟩

end Albus.Core
