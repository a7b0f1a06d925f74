import Albus.Core.Smt
import Albus.Lib.Trie
import Mathlib.Data.List.GetD
import Mathlib.Data.Nat.Digits.Lemmas

/-! # The tree behind the store

    The hash of a node stands for a whole binary trie: `digest` is that hash,
    `record` is what the store holds under it, `input` is what Poseidon was
    applied to.  A store reflects a trie when it holds the record of every
    non-empty subtree; then `_find` walks the trie (`find_eq`).

    Poseidon is relied on for one thing.  On the inputs of the nodes at hand it
    does not collide and is not zero (`CollisionFree`). -/

namespace Albus.Core

open Albus.Lib

/-! ## The bits of a key -/

namespace SMT

theorem length_getBits (key : ℕ) : 256 ≤ (getBits key).length := by
  rw [getBits, List.length_append, List.length_replicate]
  omega

theorem getD_getBits (key i : ℕ) : (getBits key).getD i 0 = key / 2 ^ i % 2 := by
  rw [← Nat.getD_digits key i (Nat.le_refl 2), getBits, Scalar.bits]
  by_cases h : i < (Nat.digits 2 key).length
  · exact List.getD_append _ _ _ _ h
  · have hle := Nat.le_of_not_lt h
    rw [List.getD_append_right _ _ _ _ hle, List.getD_eq_default _ _ hle]
    by_cases h' : i - (Nat.digits 2 key).length < 256 - (Nat.digits 2 key).length
    · exact List.getD_replicate 0 h'
    · exact List.getD_eq_default _ _ (by rw [List.length_replicate]; omega)

theorem getBits_getElem? {key i : ℕ} (hi : i < 256) :
    (getBits key)[i]? = some (key / 2 ^ i % 2) := by
  have hlen : i < (getBits key).length := Nat.lt_of_lt_of_le hi (length_getBits key)
  rw [← getD_getBits, List.getD_eq_getElem _ _ hlen, List.getElem?_eq_getElem hlen]

theorem getD_getBits_ne_zero (key i : ℕ) :
    (getBits key).getD i 0 ≠ 0 ↔ key.testBit i = true := by
  rw [getD_getBits, Nat.testBit_eq_decide_div_mod_eq, decide_eq_true_iff]
  omega

theorem getBits_eq_zero {key i : ℕ} (hi : i < 256) :
    (getBits key)[i]? = some 0 ↔ key.testBit i = false := by
  rw [getBits_getElem? hi, Nat.testBit_eq_decide_div_mod_eq, decide_eq_false_iff_not,
    Option.some_inj]
  omega

theorem getBits_eq_iff {key key' i : ℕ} (hi : i < 256) :
    (getBits key)[i]? = (getBits key')[i]? ↔ key.testBit i = key'.testBit i := by
  rw [getBits_getElem? hi, getBits_getElem? hi, Nat.testBit_eq_decide_div_mod_eq,
    Nat.testBit_eq_decide_div_mod_eq, Option.some_inj, decide_eq_decide]
  omega

end SMT

/-- Numbers of `n` bits are told apart by these. -/
theorem eq_of_testBit_lt {a b n : ℕ} (ha : a < 2 ^ n) (hb : b < 2 ^ n)
    (h : ∀ i < n, a.testBit i = b.testBit i) : a = b := by
  refine Nat.eq_of_testBit_eq ?_
  intro i
  by_cases hi : i < n
  · exact h i hi
  · have hpow : 2 ^ n ≤ 2 ^ i := Nat.pow_le_pow_right (by decide) (Nat.le_of_not_lt hi)
    rw [Nat.testBit_lt_two_pow (Nat.lt_of_lt_of_le ha hpow),
      Nat.testBit_lt_two_pow (Nat.lt_of_lt_of_le hb hpow)]

/-- Field elements are told apart by their first 254 bits. -/
theorem eq_of_testBit_eq {a b : ℕ} (ha : a < bn254r) (hb : b < bn254r)
    (h : ∀ i < 254, a.testBit i = b.testBit i) : a = b :=
  eq_of_testBit_lt (Nat.lt_trans ha bn254r_lt_two_pow) (Nat.lt_trans hb bn254r_lt_two_pow) h

/-! ## Digests -/

/-- The trie a store holds. -/
abbrev Tree := Trie ℕ ℕ

namespace Tree

variable (permute : List ℕ → ℕ)

def digest : Tree → ℕ
  | .empty => 0
  | .leaf k v => SMT.hash1 permute k v
  | .node l r => SMT.hash0 permute [digest l, digest r]

/-- What the store holds under the digest. -/
def record : Tree → List ℕ
  | .empty => []
  | .leaf k v => [1, k, v]
  | .node l r => [digest permute l, digest permute r]

/-- What Poseidon is applied to. -/
def input : Tree → List ℕ
  | .empty => []
  | .leaf k v => [k, v, 1]
  | .node l r => [digest permute l, digest permute r]

/-- An insert: the digest with the record. -/
def entry (t : Tree) : ℕ × List ℕ := (digest permute t, record permute t)

variable {permute}

theorem digest_eq {t : Tree} (h : t ≠ .empty) :
    digest permute t = Poseidon.hash permute (input permute t) := by
  cases t with
  | empty => exact absurd rfl h
  | leaf k v => rfl
  | node l r => rfl

theorem hash_lt (inputs : List ℕ) : Poseidon.hash permute inputs < bn254r :=
  F1Field.e_lt _

theorem digest_lt (t : Tree) : digest permute t < bn254r := by
  cases t with
  | empty => show 0 < bn254r; decide
  | leaf k v => exact hash_lt _
  | node l r => exact hash_lt _

/-- The order of the two children in a node, as `place` writes it. -/
theorem place_eq (k ℓ : ℕ) (on off : Tree) :
    SMT.place (SMT.getBits k) ℓ (digest permute on) (digest permute off)
      = record permute (Trie.side (k.testBit ℓ) on off) := by
  rw [SMT.place]
  cases h : k.testBit ℓ with
  | false =>
      rw [if_neg (by rw [SMT.getD_getBits_ne_zero, h]; exact Bool.false_ne_true)]
      rfl
  | true =>
      rw [if_pos ((SMT.getD_getBits_ne_zero k ℓ).mpr h)]
      rfl

theorem hash0_record_side (b : Bool) (on off : Tree) :
    SMT.hash0 permute (record permute (Trie.side b on off))
      = digest permute (Trie.side b on off) := by
  cases b <;> rfl

end Tree

/-! ## Collision freeness -/

/-- On these inputs Poseidon has no collision and no zero. -/
structure CollisionFree (permute : List ℕ → ℕ) (inputs : List (List ℕ)) : Prop where
  injective : ∀ x ∈ inputs, ∀ y ∈ inputs,
    Poseidon.hash permute x = Poseidon.hash permute y → x = y
  nonzero : ∀ x ∈ inputs, Poseidon.hash permute x ≠ 0

instance (permute : List ℕ → ℕ) (inputs : List (List ℕ)) :
    Decidable (CollisionFree permute inputs) :=
  decidable_of_iff
    ((∀ x ∈ inputs, ∀ y ∈ inputs,
      Poseidon.hash permute x = Poseidon.hash permute y → x = y) ∧
      ∀ x ∈ inputs, Poseidon.hash permute x ≠ 0)
    ⟨fun h => ⟨h.1, h.2⟩, fun h => ⟨h.injective, h.nonzero⟩⟩

namespace Tree

variable {permute : List ℕ → ℕ} {inputs : List (List ℕ)}

/-- The nodes of a tree were made from these inputs. -/
def Hashed (permute : List ℕ → ℕ) (inputs : List (List ℕ)) (t : Tree) : Prop :=
  ∀ s, Trie.Sub s t → s ≠ .empty → input permute s ∈ inputs

theorem Hashed.sub {s t : Tree} (h : Hashed permute inputs t) (hs : Trie.Sub s t) :
    Hashed permute inputs s :=
  fun r hr => h r (hr.trans hs)

theorem Hashed.digest_ne_zero {t : Tree} (h : Hashed permute inputs t)
    (hcf : CollisionFree permute inputs) (ht : t ≠ .empty) : digest permute t ≠ 0 := by
  rw [digest_eq ht]
  exact hcf.nonzero _ (h t Trie.Sub.refl ht)

theorem Hashed.digest_eq_zero_iff {t : Tree} (h : Hashed permute inputs t)
    (hcf : CollisionFree permute inputs) : digest permute t = 0 ↔ t = .empty := by
  constructor
  · intro h0
    by_contra ht
    exact h.digest_ne_zero hcf ht h0
  · rintro rfl
    rfl

/-- **EQUAL DIGESTS, EQUAL TREES.** -/
theorem Hashed.digest_inj (hcf : CollisionFree permute inputs) {s t : Tree}
    (hs : Hashed permute inputs s) (ht : Hashed permute inputs t)
    (h : digest permute s = digest permute t) : s = t := by
  induction s generalizing t with
  | empty => exact ((ht.digest_eq_zero_iff hcf).mp h.symm).symm
  | leaf k v =>
      have hne := Trie.leaf_ne_empty k v
      have htne : t ≠ .empty := by
        rintro rfl
        exact hs.digest_ne_zero hcf hne h
      have hin : input permute (.leaf k v) = input permute t := by
        refine hcf.injective _ (hs _ Trie.Sub.refl hne) _ (ht _ Trie.Sub.refl htne) ?_
        rw [← digest_eq hne, ← digest_eq htne]
        exact h
      cases t with
      | empty => exact absurd rfl htne
      | leaf k' v' =>
          simp only [input, List.cons.injEq, and_true] at hin
          rw [hin.1, hin.2]
      | node l r => exact absurd (congrArg List.length hin) (by simp [input])
  | node l r ihl ihr =>
      have hne := Trie.node_ne_empty l r
      have htne : t ≠ .empty := by
        rintro rfl
        exact hs.digest_ne_zero hcf hne h
      have hin : input permute (.node l r) = input permute t := by
        refine hcf.injective _ (hs _ Trie.Sub.refl hne) _ (ht _ Trie.Sub.refl htne) ?_
        rw [← digest_eq hne, ← digest_eq htne]
        exact h
      cases t with
      | empty => exact absurd rfl htne
      | leaf k v => exact absurd (congrArg List.length hin) (by simp [input])
      | node l' r' =>
          simp only [input, List.cons.injEq, and_true] at hin
          rw [ihl (hs.sub (Trie.Sub.left Trie.Sub.refl))
              (ht.sub (Trie.Sub.left Trie.Sub.refl)) hin.1,
            ihr (hs.sub (Trie.Sub.right Trie.Sub.refl))
              (ht.sub (Trie.Sub.right Trie.Sub.refl)) hin.2]

end Tree

/-! ## The store -/

/-- The store holds every node of the tree. -/
def Stored (permute : List ℕ → ℕ) (db : SMTMemDb) (t : Tree) : Prop :=
  ∀ s, Trie.Sub s t → s ≠ .empty →
    db.get (Tree.digest permute s) = some (Tree.record permute s)

namespace SMT

variable {permute : List ℕ → ℕ}

/-- The answer of `_find` at the bottom of the path of `key`. -/
def answer (key : ℕ) (siblings : List ℕ) : Tree → FindFromSmtResponse
  | .leaf k v => ⟨k = key, k, v, siblings, false⟩
  | _ => ⟨false, key, 0, siblings, true⟩

theorem answer_siblings {key : ℕ} {siblings : List ℕ} {b : Tree} (sibling : ℕ) :
    { answer key siblings b with siblings := sibling :: (answer key siblings b).siblings }
      = answer key (sibling :: siblings) b := by
  cases b <;> rfl

/-- One step of `_find` at an inner node. -/
theorem find_node {db : SMTMemDb} {key : ℕ} {keyBits : List ℕ} {fuel root ℓ l r : ℕ}
    (hroot : root ≠ 0) (hget : db.get root = some [l, r]) (b : Bool)
    (hb : keyBits[ℓ]? = some 0 ↔ b = false) :
    find db key keyBits (fuel + 1) root ℓ
      = (find db key keyBits fuel (bif b then r else l) (ℓ + 1)).map fun res =>
          { res with siblings := (bif b then l else r) :: res.siblings } := by
  rw [find, if_neg hroot, hget]
  cases b with
  | false =>
      simp only [if_pos (hb.mpr rfl)]
      rfl
  | true =>
      have hbit : ¬ keyBits[ℓ]? = some 0 := fun h => Bool.noConfusion (hb.mp h)
      simp only [if_neg hbit]
      rfl

/-- **`_find` WALKS THE TREE.** -/
theorem find_eq {db : SMTMemDb} {t : Tree} {key fuel ℓ : ℕ}
    (hst : Stored permute db t)
    (hnz : ∀ s, Trie.Sub s t → s ≠ .empty → Tree.digest permute s ≠ 0)
    (hfuel : (Trie.siblings Nat.testBit key ℓ t).length < fuel)
    (hbits : ℓ + (Trie.siblings Nat.testBit key ℓ t).length ≤ 256) :
    find db key (getBits key) fuel (Tree.digest permute t) ℓ
      = .ok (answer key ((Trie.siblings Nat.testBit key ℓ t).map (Tree.digest permute))
          (Trie.bottom Nat.testBit key ℓ t)) := by
  induction t generalizing fuel ℓ with
  | empty =>
      cases fuel with
      | zero => exact absurd hfuel (Nat.not_lt_zero _)
      | succ fuel => rfl
  | leaf k v =>
      have hne := Trie.leaf_ne_empty k v
      cases fuel with
      | zero => exact absurd hfuel (Nat.not_lt_zero _)
      | succ fuel =>
          rw [find, if_neg (hnz _ Trie.Sub.refl hne), hst _ Trie.Sub.refl hne]
          show Except.ok _ = Except.ok _
          by_cases hk : k = key
          · simp [Trie.siblings, Trie.bottom, answer, hk]
          · simp [Trie.siblings, Trie.bottom, answer, hk]
  | node l r ihl ihr =>
      have hne := Trie.node_ne_empty l r
      cases fuel with
      | zero => exact absurd hfuel (Nat.not_lt_zero _)
      | succ fuel =>
          -- a node on the path has a level left, so its bit is one of the key's 256
          have hnode : 0 < (Trie.siblings Nat.testBit key ℓ (.node l r)).length := by
            rw [Trie.siblings]
            split <;> exact Nat.succ_pos _
          rw [find_node (hnz _ Trie.Sub.refl hne) (hst _ Trie.Sub.refl hne)
            (key.testBit ℓ) (getBits_eq_zero (by omega))]
          cases hb : key.testBit ℓ with
          | false =>
              have hsib : Trie.siblings Nat.testBit key ℓ (.node l r)
                  = r :: Trie.siblings Nat.testBit key (ℓ + 1) l := by
                rw [Trie.siblings, hb, if_neg Bool.false_ne_true]
              have hbot : Trie.bottom Nat.testBit key ℓ (.node l r)
                  = Trie.bottom Nat.testBit key (ℓ + 1) l := by
                rw [Trie.bottom, hb, if_neg Bool.false_ne_true]
              rw [hsib, List.length_cons] at hfuel hbits
              have hrec := ihl (fun s hs => hst s (Trie.Sub.left hs))
                (fun s hs => hnz s (Trie.Sub.left hs)) (Nat.lt_of_succ_lt_succ hfuel)
                (ℓ := ℓ + 1) (by omega)
              rw [hsib, hbot, cond_false, cond_false, hrec, List.map_cons]
              exact congrArg Except.ok (answer_siblings _)
          | true =>
              have hsib : Trie.siblings Nat.testBit key ℓ (.node l r)
                  = l :: Trie.siblings Nat.testBit key (ℓ + 1) r := by
                rw [Trie.siblings, hb, if_pos rfl]
              have hbot : Trie.bottom Nat.testBit key ℓ (.node l r)
                  = Trie.bottom Nat.testBit key (ℓ + 1) r := by
                rw [Trie.bottom, hb, if_pos rfl]
              rw [hsib, List.length_cons] at hfuel hbits
              have hrec := ihr (fun s hs => hst s (Trie.Sub.right hs))
                (fun s hs => hnz s (Trie.Sub.right hs)) (Nat.lt_of_succ_lt_succ hfuel)
                (ℓ := ℓ + 1) (by omega)
              rw [hsib, hbot, cond_true, cond_true, hrec, List.map_cons]
              exact congrArg Except.ok (answer_siblings _)

end SMT

/-! ## Writing to the store -/

namespace SMTMemDb

variable {permute : List ℕ → ℕ}

theorem get_ins {db : SMTMemDb} {insert : ℕ × List ℕ} {n : ℕ} (hi : insert.1 < bn254r)
    (hn : n < bn254r) :
    (db.ins insert).get n
      = if n = insert.1 then some (normalize insert.2) else db.get n := by
  rw [get, ins]
  by_cases h : n = insert.1
  · rw [if_pos h, h]
    exact Function.update_self _ _ _
  · rw [if_neg h]
    exact Function.update_of_ne (fun heq => h (F1Field.toString_inj hn hi heq)) _ _

theorem get_del {db : SMTMemDb} {key n : ℕ} (hk : key < bn254r) (hn : n < bn254r)
    (hne : n ≠ key) : (db.del key).get n = db.get n :=
  Function.update_of_ne (fun heq => hne (F1Field.toString_inj hn hk heq)) _ _

/-- What is not deleted stays. -/
theorem get_multiDel {db : SMTMemDb} {keys : List ℕ} {n : ℕ} (hn : n < bn254r)
    (h : ∀ key ∈ keys, key < bn254r ∧ n ≠ key) : (db.multiDel keys).get n = db.get n := by
  induction keys generalizing db with
  | nil => rfl
  | cons key keys ih =>
      have hkey := h key List.mem_cons_self
      rw [multiDel, List.foldl_cons]
      exact (ih fun key' hk => h key' (List.mem_cons_of_mem _ hk)).trans
        (get_del hkey.1 hn hkey.2)

/-- What inserts write: each record is normalized. -/
def written (inserts : List (ℕ × List ℕ)) : List (ℕ × List ℕ) :=
  inserts.map fun i => (i.1, normalize i.2)

/-- Inserting the nodes `ts` stores them, and keeps what was stored. -/
theorem get_multiIns {db : SMTMemDb} {inserts : List (ℕ × List ℕ)} {ts : List Tree}
    (hw : written inserts = ts.map (Tree.entry permute)) {s : Tree}
    (hinj : ∀ t ∈ ts, Tree.digest permute t = Tree.digest permute s → t = s)
    (h : s ∈ ts ∨ db.get (Tree.digest permute s) = some (Tree.record permute s)) :
    (db.multiIns inserts).get (Tree.digest permute s) = some (Tree.record permute s) := by
  induction inserts generalizing db ts with
  | nil =>
      have hts : ts = [] := List.map_eq_nil_iff.mp hw.symm
      subst hts
      exact h.resolve_left List.not_mem_nil
  | cons i inserts ih =>
      cases ts with
      | nil => exact absurd hw (List.cons_ne_nil _ _)
      | cons t ts =>
          obtain ⟨hhead, htail⟩ := List.cons.inj hw
          have h1 : i.1 = Tree.digest permute t := congrArg Prod.fst hhead
          have h2 : normalize i.2 = Tree.record permute t := congrArg Prod.snd hhead
          refine ih htail (fun t' ht' => hinj t' (List.mem_cons_of_mem _ ht')) ?_
          rw [get_ins (h1 ▸ Tree.digest_lt t) (Tree.digest_lt s), h1, h2]
          by_cases heq : Tree.digest permute s = Tree.digest permute t
          · right
            rw [if_pos heq, hinj t List.mem_cons_self heq.symm]
          · rw [if_neg heq]
            rcases h with h' | h'
            · rcases List.mem_cons.mp h' with rfl | hmem
              · exact absurd rfl heq
              · exact Or.inl hmem
            · exact Or.inr h'

end SMTMemDb

end Albus.Core
