import Mathlib.Data.List.Basic
import Mathlib.Tactic.Common

/-! # Binary tries

    A finite map with its entries at the leaves of a binary tree, a key's bits
    choosing the way down.  A trie is CANONICAL when every inner node has at least
    two leaves under it: then no path is longer than it takes to tell the keys
    apart, and the trie is determined by its entries (`Canonical.ext`), whatever
    operations built it.

    An operation on a key works on the way down to it: the siblings along the
    path, and what stands at its bottom.  `plug` puts a bottom back under a list
    of siblings, `shrink` does the same and lets a leaf rise past empty
    siblings. -/

namespace Albus.Lib

universe u v

/-- A binary tree with entries at its leaves. -/
inductive Trie (κ : Type u) (ν : Type v) where
  | empty
  | leaf (key : κ) (value : ν)
  | node (left right : Trie κ ν)
  deriving DecidableEq

namespace Trie

variable {κ : Type u} {ν : Type v}

theorem leaf_ne_empty (k : κ) (v : ν) : leaf k v ≠ empty := nofun

theorem node_ne_empty (l r : Trie κ ν) : node l r ≠ empty := nofun

/-- The entry `k ↦ v` is at some leaf. -/
def Mem (k : κ) (v : ν) : Trie κ ν → Prop
  | empty => False
  | leaf k' v' => k = k' ∧ v = v'
  | node l r => Mem k v l ∨ Mem k v r

/-- The number of leaves. -/
def size : Trie κ ν → ℕ
  | empty => 0
  | leaf _ _ => 1
  | node l r => size l + size r

def IsNode : Trie κ ν → Bool
  | node _ _ => true
  | _ => false

/-- `Sub s t`: `s` is a subtree of `t`. -/
inductive Sub (s : Trie κ ν) : Trie κ ν → Prop where
  | refl : Sub s s
  | left {l r : Trie κ ν} : Sub s l → Sub s (node l r)
  | right {l r : Trie κ ν} : Sub s r → Sub s (node l r)

/-- A bit is not its own negation. -/
private theorem bit_ne_not {b c : Bool} (h : c = b) (h' : c = !b) : False := by
  subst h
  cases c <;> contradiction

/-- The node with `on` on the side of the bit `b`, and `off` on the other. -/
def side (b : Bool) (on off : Trie κ ν) : Trie κ ν :=
  bif b then node off on else node on off

@[simp] theorem mem_side {k : κ} {v : ν} {b : Bool} {on off : Trie κ ν} :
    Mem k v (side b on off) ↔ Mem k v on ∨ Mem k v off := by
  cases b with
  | false => exact Iff.rfl
  | true => exact or_comm

@[simp] theorem size_side (b : Bool) (on off : Trie κ ν) :
    size (side b on off) = size on + size off := by
  cases b with
  | false => rfl
  | true => exact Nat.add_comm _ _

@[simp] theorem isNode_side (b : Bool) (on off : Trie κ ν) :
    IsNode (side b on off) = true := by
  cases b <;> rfl

theorem sub_side {s on off : Trie κ ν} {b : Bool} :
    Sub s (side b on off) ↔ s = side b on off ∨ Sub s on ∨ Sub s off := by
  constructor
  · intro h
    cases b with
    | false =>
        cases h with
        | refl => exact Or.inl rfl
        | left h => exact Or.inr (Or.inl h)
        | right h => exact Or.inr (Or.inr h)
    | true =>
        cases h with
        | refl => exact Or.inl rfl
        | left h => exact Or.inr (Or.inr h)
        | right h => exact Or.inr (Or.inl h)
  · rintro (rfl | h | h)
    · exact Sub.refl
    · cases b with
      | false => exact Sub.left h
      | true => exact Sub.right h
    · cases b with
      | false => exact Sub.right h
      | true => exact Sub.left h

theorem Sub.trans {r s t : Trie κ ν} (h : Sub r s) (h' : Sub s t) : Sub r t := by
  induction h' with
  | refl => exact h
  | left _ ih => exact Sub.left ih
  | right _ ih => exact Sub.right ih

theorem Sub.mem {s t : Trie κ ν} (h : Sub s t) {k : κ} {v : ν} (hm : Mem k v s) :
    Mem k v t := by
  induction h with
  | refl => exact hm
  | left _ ih => exact Or.inl ih
  | right _ ih => exact Or.inr ih

theorem Mem.sub {t : Trie κ ν} {k : κ} {v : ν} (h : Mem k v t) : Sub (leaf k v) t := by
  induction t with
  | empty => exact h.elim
  | leaf k' v' =>
      obtain ⟨rfl, rfl⟩ := h
      exact Sub.refl
  | node l r ihl ihr =>
      rcases h with hl | hr
      · exact Sub.left (ihl hl)
      · exact Sub.right (ihr hr)

/-- The number of constructors; a proper subtree has fewer. -/
def weight : Trie κ ν → ℕ
  | node l r => weight l + weight r + 1
  | _ => 1

theorem weight_side (b : Bool) (on off : Trie κ ν) :
    weight (side b on off) = weight on + weight off + 1 := by
  cases b with
  | false => rfl
  | true => exact congrArg (· + 1) (Nat.add_comm _ _)

theorem weight_pos (t : Trie κ ν) : 0 < weight t := by
  cases t <;> simp [weight]

theorem Sub.weight_le {s t : Trie κ ν} (h : Sub s t) : weight s ≤ weight t := by
  induction h with
  | refl => exact Nat.le_refl _
  | left _ ih => simp only [weight]; omega
  | right _ ih => simp only [weight]; omega

theorem Sub.size_le {s t : Trie κ ν} (h : Sub s t) : size s ≤ size t := by
  induction h with
  | refl => exact Nat.le_refl _
  | left _ ih => exact Nat.le_trans ih (Nat.le_add_right _ _)
  | right _ ih => exact Nat.le_trans ih (Nat.le_add_left _ _)

theorem Sub.eq_of_not_isNode {s t : Trie κ ν} (h : Sub s t) (ht : IsNode t = false) :
    s = t := by
  cases h with
  | refl => rfl
  | left _ => exact Bool.noConfusion ht
  | right _ => exact Bool.noConfusion ht

theorem exists_mem_of_size_pos {t : Trie κ ν} (h : 0 < size t) : ∃ k v, Mem k v t := by
  induction t with
  | empty => exact absurd h (Nat.lt_irrefl 0)
  | leaf k v => exact ⟨k, v, rfl, rfl⟩
  | node l r ihl ihr =>
      rcases Nat.eq_zero_or_pos (size l) with hl | hl
      · have hr : 0 < size r := by simpa [size, hl] using h
        obtain ⟨k, v, hm⟩ := ihr hr
        exact ⟨k, v, Or.inr hm⟩
      · obtain ⟨k, v, hm⟩ := ihl hl
        exact ⟨k, v, Or.inl hm⟩

/-! ## Canonical tries -/

variable {bit : κ → ℕ → Bool}

/-- `Canonical bit ℓ t`, for a subtree at depth `ℓ`: the bits of a key lead to its
    leaf, and every inner node has two leaves or more. -/
inductive Canonical (bit : κ → ℕ → Bool) : ℕ → Trie κ ν → Prop where
  | empty (ℓ : ℕ) : Canonical bit ℓ empty
  | leaf (ℓ : ℕ) (k : κ) (v : ν) : Canonical bit ℓ (leaf k v)
  | node {ℓ : ℕ} {l r : Trie κ ν} :
      Canonical bit (ℓ + 1) l → Canonical bit (ℓ + 1) r →
      (∀ k v, Mem k v l → bit k ℓ = false) → (∀ k v, Mem k v r → bit k ℓ = true) →
      2 ≤ size l + size r → Canonical bit ℓ (node l r)

/-- A canonical node, seen along one of its bits. -/
theorem canonical_side_iff {ℓ : ℕ} {b : Bool} {on off : Trie κ ν} :
    Canonical bit ℓ (side b on off) ↔
      Canonical bit (ℓ + 1) on ∧ Canonical bit (ℓ + 1) off ∧
      (∀ k v, Mem k v on → bit k ℓ = b) ∧ (∀ k v, Mem k v off → bit k ℓ = !b) ∧
      2 ≤ size on + size off := by
  constructor
  · intro h
    cases b with
    | false =>
        cases h with
        | node hl hr hbl hbr hs => exact ⟨hl, hr, hbl, hbr, hs⟩
    | true =>
        cases h with
        | node hl hr hbl hbr hs =>
            exact ⟨hr, hl, hbr, hbl, Nat.add_comm _ _ ▸ hs⟩
  · rintro ⟨hon, hoff, hbon, hboff, hs⟩
    cases b with
    | false => exact Canonical.node hon hoff hbon hboff hs
    | true => exact Canonical.node hoff hon hboff hbon (Nat.add_comm _ _ ▸ hs)

theorem Canonical.two_le_size {ℓ : ℕ} {l r : Trie κ ν}
    (h : Canonical bit ℓ (Trie.node l r)) : 2 ≤ size (Trie.node l r) := by
  cases h with
  | node _ _ _ _ hs => exact hs

/-- Two leaves of a canonical trie have different keys. -/
theorem Canonical.exists_two {ℓ : ℕ} {t : Trie κ ν} (h : Canonical bit ℓ t)
    (hs : 2 ≤ size t) : ∃ k₁ v₁ k₂ v₂, Mem k₁ v₁ t ∧ Mem k₂ v₂ t ∧ k₁ ≠ k₂ := by
  induction h with
  | empty => exact absurd hs (by simp [size])
  | leaf => exact absurd hs (by simp [size])
  | @node ℓ l r hl hr hbl hbr _ ihl ihr =>
      have hsum : 2 ≤ size l + size r := hs
      by_cases hl2 : 2 ≤ size l
      · obtain ⟨k₁, v₁, k₂, v₂, h₁, h₂, hne⟩ := ihl hl2
        exact ⟨k₁, v₁, k₂, v₂, Or.inl h₁, Or.inl h₂, hne⟩
      · by_cases hr2 : 2 ≤ size r
        · obtain ⟨k₁, v₁, k₂, v₂, h₁, h₂, hne⟩ := ihr hr2
          exact ⟨k₁, v₁, k₂, v₂, Or.inr h₁, Or.inr h₂, hne⟩
        · -- one leaf on each side: their bits at this depth differ
          obtain ⟨k₁, v₁, h₁⟩ := exists_mem_of_size_pos (t := l) (by omega)
          obtain ⟨k₂, v₂, h₂⟩ := exists_mem_of_size_pos (t := r) (by omega)
          refine ⟨k₁, v₁, k₂, v₂, Or.inl h₁, Or.inr h₂, ?_⟩
          rintro rfl
          have hbit := (hbl k₁ v₁ h₁).symm.trans (hbr k₁ v₂ h₂)
          exact Bool.false_ne_true hbit

/-- **A CANONICAL TRIE IS DETERMINED BY ITS ENTRIES.** -/
theorem Canonical.ext {ℓ : ℕ} {s t : Trie κ ν} (hs : Canonical bit ℓ s)
    (ht : Canonical bit ℓ t) (h : ∀ k v, Mem k v s ↔ Mem k v t) : s = t := by
  induction hs generalizing t with
  | empty ℓ =>
      cases ht with
      | empty => rfl
      | leaf _ k v => exact absurd ((h k v).mpr ⟨rfl, rfl⟩) id
      | node hl hr hbl hbr hsize =>
          obtain ⟨k, v, hm⟩ := exists_mem_of_size_pos (Nat.lt_of_lt_of_le Nat.zero_lt_two
            (Canonical.node hl hr hbl hbr hsize).two_le_size)
          exact absurd ((h k v).mpr hm) id
  | leaf ℓ k v =>
      cases ht with
      | empty => exact absurd ((h k v).mp ⟨rfl, rfl⟩) id
      | leaf _ k' v' =>
          obtain ⟨rfl, rfl⟩ := (h k v).mp ⟨rfl, rfl⟩
          rfl
      | node hl hr hbl hbr hsize =>
          have hn := Canonical.node hl hr hbl hbr hsize
          obtain ⟨k₁, v₁, k₂, v₂, h₁, h₂, hne⟩ := hn.exists_two hn.two_le_size
          exact absurd (((h k₁ v₁).mpr h₁).1.trans ((h k₂ v₂).mpr h₂).1.symm) hne
  | @node ℓ l r hl hr hbl hbr hsize ihl ihr =>
      have hn := Canonical.node hl hr hbl hbr hsize
      cases ht with
      | empty =>
          obtain ⟨k, v, hm⟩ := exists_mem_of_size_pos (Nat.lt_of_lt_of_le Nat.zero_lt_two
            hn.two_le_size)
          exact absurd ((h k v).mp hm) id
      | leaf _ k v =>
          obtain ⟨k₁, v₁, k₂, v₂, h₁, h₂, hne⟩ := hn.exists_two hn.two_le_size
          exact absurd (((h k₁ v₁).mp h₁).1.trans ((h k₂ v₂).mp h₂).1.symm) hne
      | @node _ l' r' hl' hr' hbl' hbr' hsize' =>
          -- an entry is on the side its bit at this depth says, in both tries
          have hleft : ∀ k v, Mem k v l ↔ Mem k v l' := by
            intro k v
            constructor
            · intro hm
              rcases (h k v).mp (Or.inl hm) with h' | h'
              · exact h'
              · exact absurd ((hbl k v hm).symm.trans (hbr' k v h')) Bool.false_ne_true
            · intro hm
              rcases (h k v).mpr (Or.inl hm) with h' | h'
              · exact h'
              · exact absurd ((hbl' k v hm).symm.trans (hbr k v h')) Bool.false_ne_true
          have hright : ∀ k v, Mem k v r ↔ Mem k v r' := by
            intro k v
            constructor
            · intro hm
              rcases (h k v).mp (Or.inr hm) with h' | h'
              · exact absurd ((hbl' k v h').symm.trans (hbr k v hm)) Bool.false_ne_true
              · exact h'
            · intro hm
              rcases (h k v).mpr (Or.inr hm) with h' | h'
              · exact absurd ((hbl k v h').symm.trans (hbr' k v hm)) Bool.false_ne_true
              · exact h'
          rw [ihl hl' hleft, ihr hr' hright]

/-! ## The way down to a key -/

/-- What stands beside the path of `k`, from the top down. -/
def siblings (bit : κ → ℕ → Bool) (k : κ) : ℕ → Trie κ ν → List (Trie κ ν)
  | ℓ, node l r =>
      if bit k ℓ then l :: siblings bit k (ℓ + 1) r else r :: siblings bit k (ℓ + 1) l
  | _, _ => []

/-- What stands at the bottom of the path of `k`. -/
def bottom (bit : κ → ℕ → Bool) (k : κ) : ℕ → Trie κ ν → Trie κ ν
  | ℓ, node l r => if bit k ℓ then bottom bit k (ℓ + 1) r else bottom bit k (ℓ + 1) l
  | _, t => t

/-- The trie with bottom `b` under the siblings `ss` of the path of `k`. -/
def plug (bit : κ → ℕ → Bool) (k : κ) : ℕ → List (Trie κ ν) → Trie κ ν → Trie κ ν
  | _, [], b => b
  | ℓ, s :: ss, b => side (bit k ℓ) (plug bit k (ℓ + 1) ss b) s

/-- The nodes of the path of `k`, from the bottom up. -/
def spine (bit : κ → ℕ → Bool) (k : κ) :
    ℕ → List (Trie κ ν) → Trie κ ν → List (Trie κ ν)
  | _, [], _ => []
  | ℓ, s :: ss, b => spine bit k (ℓ + 1) ss b ++ [plug bit k ℓ (s :: ss) b]

theorem plug_siblings_bottom (k : κ) (ℓ : ℕ) (t : Trie κ ν) :
    plug bit k ℓ (siblings bit k ℓ t) (bottom bit k ℓ t) = t := by
  induction t generalizing ℓ with
  | empty => rfl
  | leaf => rfl
  | node l r ihl ihr =>
      cases hb : bit k ℓ with
      | false => simp [siblings, bottom, plug, side, hb, ihl]
      | true => simp [siblings, bottom, plug, side, hb, ihr]

theorem bottom_isNode (k : κ) (ℓ : ℕ) (t : Trie κ ν) :
    IsNode (bottom bit k ℓ t) = false := by
  induction t generalizing ℓ with
  | empty => rfl
  | leaf => rfl
  | node l r ihl ihr =>
      cases hb : bit k ℓ with
      | false => simp [bottom, hb, ihl]
      | true => simp [bottom, hb, ihr]

theorem plug_append (k : κ) (ℓ : ℕ) (ss ss' : List (Trie κ ν)) (b : Trie κ ν) :
    plug bit k ℓ (ss ++ ss') b = plug bit k ℓ ss (plug bit k (ℓ + ss.length) ss' b) := by
  induction ss generalizing ℓ with
  | nil => rfl
  | cons s ss ih =>
      have hlen : ℓ + (s :: ss).length = ℓ + 1 + ss.length := by
        rw [List.length_cons]
        omega
      rw [List.cons_append, plug, plug, ih, hlen]

theorem spine_append (k : κ) (ℓ : ℕ) (ss ss' : List (Trie κ ν)) (b : Trie κ ν) :
    spine bit k ℓ (ss ++ ss') b
      = spine bit k (ℓ + ss.length) ss' b
        ++ spine bit k ℓ ss (plug bit k (ℓ + ss.length) ss' b) := by
  induction ss generalizing ℓ with
  | nil => rw [List.nil_append, spine, List.append_nil, List.length_nil, Nat.add_zero]
  | cons s ss ih =>
      have hlen : ℓ + (s :: ss).length = ℓ + 1 + ss.length := by
        rw [List.length_cons]
        omega
      rw [List.cons_append, spine, spine, ih, ← List.cons_append, plug_append, hlen,
        List.append_assoc]

theorem mem_plug {k k' : κ} {v : ν} {ℓ : ℕ} {ss : List (Trie κ ν)} {b : Trie κ ν} :
    Mem k' v (plug bit k ℓ ss b) ↔ Mem k' v b ∨ ∃ s ∈ ss, Mem k' v s := by
  induction ss generalizing ℓ with
  | nil => simp [plug]
  | cons s ss ih =>
      rw [plug, mem_side, ih, List.exists_mem_cons_iff]
      constructor
      · rintro ((h | h) | h)
        · exact Or.inl h
        · exact Or.inr (Or.inr h)
        · exact Or.inr (Or.inl h)
      · rintro (h | h | h)
        · exact Or.inl (Or.inl h)
        · exact Or.inr h
        · exact Or.inl (Or.inr h)

/-- The keys at the bottom agree with `k` along the path. -/
theorem Canonical.bottom_agrees {k : κ} {ℓ : ℕ} {ss : List (Trie κ ν)} {b : Trie κ ν}
    (h : Canonical bit ℓ (plug bit k ℓ ss b)) :
    Canonical bit (ℓ + ss.length) b ∧
      ∀ k' v, Mem k' v b → ∀ i < ss.length, bit k' (ℓ + i) = bit k (ℓ + i) := by
  induction ss generalizing ℓ with
  | nil => exact ⟨h, fun _ _ _ i hi => absurd hi (Nat.not_lt_zero i)⟩
  | cons s ss ih =>
      obtain ⟨hon, _, hbon, _, _⟩ := canonical_side_iff.mp h
      obtain ⟨hb, hagree⟩ := ih hon
      have hlen : ℓ + (s :: ss).length = ℓ + 1 + ss.length := by
        rw [List.length_cons]
        omega
      refine ⟨hlen ▸ hb, ?_⟩
      intro k' v hm i hi
      cases i with
      | zero => exact hbon k' v (mem_plug.mpr (Or.inl hm))
      | succ i =>
          have hi' : i < ss.length := Nat.lt_of_succ_lt_succ hi
          have heq : ℓ + (i + 1) = ℓ + 1 + i := by omega
          rw [heq]
          exact hagree k' v hm i hi'

/-- The keys beside the path of `k` leave it at some bit. -/
theorem Canonical.sibling_ne {k : κ} {ℓ : ℕ} {ss : List (Trie κ ν)} {b : Trie κ ν}
    (h : Canonical bit ℓ (plug bit k ℓ ss b)) {s : Trie κ ν} (hs : s ∈ ss) {k' : κ}
    {v : ν} (hm : Mem k' v s) : k' ≠ k := by
  induction ss generalizing ℓ with
  | nil => exact absurd hs List.not_mem_nil
  | cons s' ss ih =>
      obtain ⟨hon, _, _, hboff, _⟩ := canonical_side_iff.mp h
      rcases List.mem_cons.mp hs with rfl | hs'
      · rintro rfl
        exact bit_ne_not rfl (hboff _ v hm)
      · exact ih hon hs'

theorem Canonical.sibling {k : κ} {ℓ : ℕ} {ss : List (Trie κ ν)} {b : Trie κ ν}
    (h : Canonical bit ℓ (plug bit k ℓ ss b)) {s : Trie κ ν} (hs : s ∈ ss) :
    ∃ ℓ', Canonical bit ℓ' s := by
  induction ss generalizing ℓ with
  | nil => exact absurd hs List.not_mem_nil
  | cons s' ss ih =>
      obtain ⟨hon, hoff, _, _, _⟩ := canonical_side_iff.mp h
      rcases List.mem_cons.mp hs with rfl | hs'
      · exact ⟨ℓ + 1, hoff⟩
      · exact ih hon hs'

/-- The last sibling and the bottom make a node. -/
theorem Canonical.getLast_sibling {k : κ} {ℓ : ℕ} {ss : List (Trie κ ν)} {b s : Trie κ ν}
    (h : Canonical bit ℓ (plug bit k ℓ ss b)) (hs : ss.getLast? = some s) :
    2 ≤ size b + size s := by
  induction ss generalizing ℓ with
  | nil => exact absurd hs.symm (Option.some_ne_none s)
  | cons s' ss ih =>
      obtain ⟨hon, _, _, _, hsize⟩ := canonical_side_iff.mp h
      cases ss with
      | nil =>
          obtain rfl : s' = s := Option.some.inj hs
          exact hsize
      | cons s'' ss => exact ih hon (by rw [← hs, List.getLast?_cons_cons])

/-- What stands beside the path of a leaf, at its end, is not empty. -/
theorem Canonical.size_getLast_pos {k k' : κ} {v : ν} {ℓ : ℕ} {ss : List (Trie κ ν)}
    {s : Trie κ ν} (h : Canonical bit ℓ (plug bit k ℓ ss (Trie.leaf k' v)))
    (hs : ss.getLast? = some s) : 0 < size s := by
  have htwo : 2 ≤ 1 + size s := h.getLast_sibling hs
  omega

theorem Canonical.size_eq_zero_iff {ℓ : ℕ} {t : Trie κ ν} (h : Canonical bit ℓ t) :
    size t = 0 ↔ t = Trie.empty := by
  constructor
  · intro h0
    cases h with
    | empty => rfl
    | leaf => exact absurd h0 Nat.one_ne_zero
    | node _ _ _ _ hsize => exact absurd h0 (Nat.pos_iff_ne_zero.mp (Nat.lt_of_lt_of_le
        Nat.zero_lt_two hsize))
  · rintro rfl
    rfl

theorem Canonical.two_le_size_iff {ℓ : ℕ} {t : Trie κ ν} (h : Canonical bit ℓ t) :
    2 ≤ size t ↔ IsNode t = true := by
  cases h with
  | empty => simp [size, IsNode]
  | leaf => simp [size, IsNode]
  | node _ _ _ _ hsize => exact iff_of_true hsize rfl

theorem Canonical.mem_iff_bottom {k : κ} {v : ν} {ℓ : ℕ} {ss : List (Trie κ ν)}
    {b : Trie κ ν} (h : Canonical bit ℓ (plug bit k ℓ ss b)) :
    Mem k v (plug bit k ℓ ss b) ↔ Mem k v b := by
  rw [mem_plug]
  constructor
  · rintro (hm | ⟨s, hs, hm⟩)
    · exact hm
    · exact absurd rfl (h.sibling_ne hs hm)
  · exact Or.inl

/-- Replacing the bottom by no smaller a trie keeps the canonical form. -/
theorem Canonical.plug {k : κ} {ℓ : ℕ} {ss : List (Trie κ ν)} {b b' : Trie κ ν}
    (h : Canonical bit ℓ (plug bit k ℓ ss b)) (hb' : Canonical bit (ℓ + ss.length) b')
    (hagree : ∀ k' v, Mem k' v b' → ∀ i < ss.length, bit k' (ℓ + i) = bit k (ℓ + i))
    (hsize : size b ≤ size b') :
    Canonical bit ℓ (Trie.plug bit k ℓ ss b') ∧
      size (Trie.plug bit k ℓ ss b) ≤ size (Trie.plug bit k ℓ ss b') := by
  induction ss generalizing ℓ with
  | nil => exact ⟨hb', hsize⟩
  | cons s ss ih =>
      obtain ⟨hon, hoff, hbon, hboff, hs⟩ := canonical_side_iff.mp h
      have hlen : ℓ + (s :: ss).length = ℓ + 1 + ss.length := by
        rw [List.length_cons]
        omega
      have hagree' : ∀ k' v, Mem k' v b' → ∀ i < ss.length,
          bit k' (ℓ + 1 + i) = bit k (ℓ + 1 + i) := by
        intro k' v hm i hi
        have heq : ℓ + 1 + i = ℓ + (i + 1) := by omega
        rw [heq]
        exact hagree k' v hm (i + 1) (Nat.succ_lt_succ hi)
      obtain ⟨hcan, hle⟩ := ih hon (hlen ▸ hb') hagree'
      refine ⟨canonical_side_iff.mpr ⟨hcan, hoff, ?_, hboff, by omega⟩, ?_⟩
      · intro k' v hm
        rcases mem_plug.mp hm with hm' | ⟨s', hs', hm'⟩
        · exact hagree k' v hm' 0 (Nat.succ_pos _)
        · exact hbon k' v (mem_plug.mpr (Or.inr ⟨s', hs', hm'⟩))
      · rw [Trie.plug, Trie.plug, size_side, size_side]
        exact Nat.add_le_add_right hle _

/-! ## The nodes of the path -/

theorem sub_plug_of_mem_spine {k : κ} {ℓ : ℕ} {ss : List (Trie κ ν)} {b s : Trie κ ν}
    (h : s ∈ spine bit k ℓ ss b) : Sub s (plug bit k ℓ ss b) := by
  induction ss generalizing ℓ with
  | nil => exact absurd h List.not_mem_nil
  | cons s' ss ih =>
      rcases List.mem_append.mp h with h' | h'
      · exact sub_side.mpr (Or.inr (Or.inl (ih h')))
      · rw [List.mem_singleton.mp h']
        exact Sub.refl

/-- The bottom is under every node of the path. -/
theorem mem_of_mem_spine {k k' : κ} {v : ν} {ℓ : ℕ} {ss : List (Trie κ ν)}
    {b s : Trie κ ν} (h : s ∈ spine bit k ℓ ss b) (hm : Mem k' v b) : Mem k' v s := by
  induction ss generalizing ℓ with
  | nil => exact absurd h List.not_mem_nil
  | cons s' ss ih =>
      rcases List.mem_append.mp h with h' | h'
      · exact ih h'
      · rw [List.mem_singleton.mp h']
        exact mem_plug.mpr (Or.inl hm)

theorem isNode_of_mem_spine {k : κ} {ℓ : ℕ} {ss : List (Trie κ ν)} {b s : Trie κ ν}
    (h : s ∈ spine bit k ℓ ss b) : IsNode s = true := by
  induction ss generalizing ℓ with
  | nil => exact absurd h List.not_mem_nil
  | cons s' ss ih =>
      rcases List.mem_append.mp h with h' | h'
      · exact ih h'
      · rw [List.mem_singleton.mp h']
        exact isNode_side _ _ _

/-- A subtree is on the path, at its bottom, or beside it. -/
theorem sub_plug {k : κ} {ℓ : ℕ} {ss : List (Trie κ ν)} {b s : Trie κ ν}
    (h : Sub s (plug bit k ℓ ss b)) :
    s ∈ spine bit k ℓ ss b ∨ Sub s b ∨ ∃ s' ∈ ss, Sub s s' := by
  induction ss generalizing ℓ with
  | nil => exact Or.inr (Or.inl h)
  | cons s' ss ih =>
      rcases sub_side.mp h with h' | h' | h'
      · exact Or.inl (List.mem_append_right _ (List.mem_singleton.mpr h'))
      · rcases ih h' with h'' | h'' | ⟨s'', hs'', h''⟩
        · exact Or.inl (List.mem_append_left _ h'')
        · exact Or.inr (Or.inl h'')
        · exact Or.inr (Or.inr ⟨s'', List.mem_cons_of_mem _ hs'', h''⟩)
      · exact Or.inr (Or.inr ⟨s', List.mem_cons_self, h'⟩)

theorem sub_plug_of_sibling {k : κ} {ℓ : ℕ} {ss : List (Trie κ ν)} {b s s' : Trie κ ν}
    (hs' : s' ∈ ss) (h : Sub s s') : Sub s (plug bit k ℓ ss b) := by
  induction ss generalizing ℓ with
  | nil => exact absurd hs' List.not_mem_nil
  | cons s'' ss ih =>
      rcases List.mem_cons.mp hs' with rfl | hmem
      · exact sub_side.mpr (Or.inr (Or.inr h))
      · exact sub_side.mpr (Or.inr (Or.inl (ih hmem)))

theorem sub_plug_of_bottom {k : κ} {ℓ : ℕ} {ss : List (Trie κ ν)} {b s : Trie κ ν}
    (h : Sub s b) : Sub s (plug bit k ℓ ss b) := by
  induction ss generalizing ℓ with
  | nil => exact h
  | cons s' ss ih => exact sub_side.mpr (Or.inr (Or.inl ih))

theorem size_pos_of_mem_spine {k : κ} {ℓ : ℕ} {ss : List (Trie κ ν)} {b s : Trie κ ν}
    (hcan : Canonical bit ℓ (plug bit k ℓ ss b)) (h : s ∈ spine bit k ℓ ss b) :
    0 < size s := by
  induction ss generalizing ℓ with
  | nil => exact absurd h List.not_mem_nil
  | cons s' ss ih =>
      obtain ⟨hon, _, _, _, hs⟩ := canonical_side_iff.mp hcan
      rcases List.mem_append.mp h with h' | h'
      · exact ih hon h'
      · rw [List.mem_singleton.mp h', plug, size_side]
        exact Nat.lt_of_lt_of_le Nat.zero_lt_two hs

/-- **NO NODE OF THE PATH OCCURS BESIDE IT.** -/
theorem Canonical.spine_not_sub_sibling {k : κ} {ℓ : ℕ} {ss : List (Trie κ ν)}
    {b s s' : Trie κ ν} (hcan : Canonical bit ℓ (Trie.plug bit k ℓ ss b))
    (h : s ∈ spine bit k ℓ ss b) (hs' : s' ∈ ss) : ¬ Sub s s' := by
  induction ss generalizing ℓ with
  | nil => exact absurd h List.not_mem_nil
  | cons s₀ ss ih =>
      intro hsub
      have hcan' := hcan
      obtain ⟨hon, _, hbon, hboff, _⟩ := canonical_side_iff.mp hcan
      rcases List.mem_append.mp h with hlow | htop
      · rcases List.mem_cons.mp hs' with rfl | hmem
        · -- an entry of `s` would be on both sides of this depth's bit
          obtain ⟨k', v, hm⟩ := exists_mem_of_size_pos (size_pos_of_mem_spine hon hlow)
          have hin := hbon k' v ((sub_plug_of_mem_spine hlow).mem hm)
          have hout := hboff k' v (hsub.mem hm)
          exact bit_ne_not hin hout
        · exact ih hon hlow hmem hsub
      · -- the whole trie is no part of a proper subtree
        have hw := hsub.weight_le
        rw [List.mem_singleton.mp htop, Trie.plug, weight_side] at hw
        rcases List.mem_cons.mp hs' with rfl | hmem
        · omega
        · have hin : Sub s' (Trie.plug bit k (ℓ + 1) ss b) :=
            sub_plug_of_sibling hmem Sub.refl
          have hw' := hin.weight_le
          have hpos := weight_pos s₀
          omega

/-! ## Telling keys apart -/

/-- **NO PATH IS LONGER THAN IT TAKES TO TELL THE KEYS APART.** -/
theorem Canonical.length_siblings_le {k : κ} {ss : List (Trie κ ν)} {b : Trie κ ν}
    {n : ℕ} (h : Canonical bit 0 (Trie.plug bit k 0 ss b))
    (hsep : ∀ k₁ v₁ k₂ v₂, Mem k₁ v₁ (Trie.plug bit k 0 ss b) →
      Mem k₂ v₂ (Trie.plug bit k 0 ss b) → (∀ i < n, bit k₁ i = bit k₂ i) → k₁ = k₂) :
    ss.length ≤ n := by
  by_contra hlt
  have hlt : n < ss.length := Nat.lt_of_not_le hlt
  have htake : (ss.take n).length = n := List.length_take_of_le (Nat.le_of_lt hlt)
  obtain ⟨s, rest, hrest⟩ := List.exists_cons_of_length_pos
    (l := ss.drop n) (by rw [List.length_drop]; omega)
  -- what stands below the first `n` bits is a node, so it holds two keys
  have hsplit : Trie.plug bit k 0 ss b
      = Trie.plug bit k 0 (ss.take n) (Trie.plug bit k n (s :: rest) b) := by
    conv_lhs => rw [← List.take_append_drop n ss, plug_append, htake, hrest, Nat.zero_add]
  rw [hsplit] at h hsep
  obtain ⟨hlow, hagree⟩ := h.bottom_agrees
  rw [htake, Nat.zero_add] at hlow
  obtain ⟨_, _, _, _, hsize⟩ := canonical_side_iff.mp hlow
  have htwo : 2 ≤ size (Trie.plug bit k n (s :: rest) b) := by
    rw [Trie.plug, size_side]
    exact hsize
  obtain ⟨k₁, v₁, k₂, v₂, h₁, h₂, hne⟩ := hlow.exists_two htwo
  refine hne (hsep k₁ v₁ k₂ v₂ (mem_plug.mpr (Or.inl h₁)) (mem_plug.mpr (Or.inl h₂)) ?_)
  intro i hi
  have hi' : i < (ss.take n).length := htake.symm ▸ hi
  have h1 := hagree k₁ v₁ h₁ i hi'
  have h2 := hagree k₂ v₂ h₂ i hi'
  rw [Nat.zero_add] at h1 h2
  exact h1.trans h2.symm

/-- Two leaves under `n` common bits. -/
def fork (bit : κ → ℕ → Bool) (k : κ) (v : ν) (k' : κ) (v' : ν) (ℓ n : ℕ) : Trie κ ν :=
  plug bit k ℓ (List.replicate n empty ++ [leaf k' v']) (leaf k v)

theorem mem_fork {k k' k'' : κ} {v v' v'' : ν} {ℓ n : ℕ} :
    Mem k'' v'' (fork bit k v k' v' ℓ n) ↔
      (k'' = k ∧ v'' = v) ∨ (k'' = k' ∧ v'' = v') := by
  rw [fork]
  rw [mem_plug]
  constructor
  · rintro (h | ⟨s, hs, h⟩)
    · exact Or.inl h
    · rcases List.mem_append.mp hs with hs' | hs'
      · rw [List.eq_of_mem_replicate hs'] at h
        exact h.elim
      · rw [List.mem_singleton.mp hs'] at h
        exact Or.inr h
  · rintro (h | h)
    · exact Or.inl h
    · exact Or.inr ⟨_, List.mem_append_right _ List.mem_cons_self, h⟩

theorem canonical_fork {k k' : κ} {v v' : ν} {ℓ n : ℕ}
    (hsame : ∀ i < n, bit k' (ℓ + i) = bit k (ℓ + i))
    (hdiff : bit k' (ℓ + n) ≠ bit k (ℓ + n)) :
    Canonical bit ℓ (fork bit k v k' v' ℓ n) ∧ 2 ≤ size (fork bit k v k' v' ℓ n) := by
  induction n generalizing ℓ with
  | zero =>
      have hb : bit k' ℓ = !bit k ℓ := by
        rw [Nat.add_zero] at hdiff
        cases h : bit k ℓ <;> cases h' : bit k' ℓ <;> simp_all
      refine ⟨canonical_side_iff.mpr ⟨Canonical.leaf _ _ _, Canonical.leaf _ _ _, ?_, ?_,
        Nat.le_refl 2⟩, ?_⟩
      · rintro _ _ ⟨rfl, _⟩
        rfl
      · rintro _ _ ⟨rfl, _⟩
        exact hb
      · show 2 ≤ size (side _ _ _)
        rw [size_side]
        exact Nat.le_refl 2
  | succ n ih =>
      have hidx : ∀ i, ℓ + 1 + i = ℓ + (i + 1) := fun i => by omega
      obtain ⟨hcan, hsize⟩ := ih (ℓ := ℓ + 1)
        (fun i hi => (hidx i) ▸ hsame (i + 1) (Nat.succ_lt_succ hi))
        ((hidx n) ▸ hdiff)
      have hsucc : fork bit k v k' v' ℓ (n + 1)
          = side (bit k ℓ) (fork bit k v k' v' (ℓ + 1) n) empty := rfl
      rw [hsucc, size_side]
      refine ⟨canonical_side_iff.mpr ⟨hcan, Canonical.empty _, ?_, ?_, hsize⟩, hsize⟩
      · intro k'' v'' hm
        rcases mem_fork.mp hm with ⟨rfl, _⟩ | ⟨rfl, _⟩
        · rfl
        · exact hsame 0 (Nat.succ_pos n)
      · exact fun _ _ hm => hm.elim

/-! ## Taking a key away -/

/-- The node with `on` and `off` below it, or the one leaf there is. -/
def join (b : Bool) (on off : Trie κ ν) : Trie κ ν :=
  if 2 ≤ size on + size off then side b on off
  else if size on = 0 then off else on

/-- The trie with bottom `b` under the siblings `ss` of the path of `k`, a leaf
    that is left alone rising to the top. -/
def shrink (bit : κ → ℕ → Bool) (k : κ) : ℕ → List (Trie κ ν) → Trie κ ν → Trie κ ν
  | _, [], b => b
  | ℓ, s :: ss, b => join (bit k ℓ) (shrink bit k (ℓ + 1) ss b) s

/-- The nodes of the path of `k` that are left. -/
def ridge (bit : κ → ℕ → Bool) (k : κ) :
    ℕ → List (Trie κ ν) → Trie κ ν → List (Trie κ ν)
  | _, [], _ => []
  | ℓ, s :: ss, b =>
      ridge bit k (ℓ + 1) ss b ++
        if 2 ≤ size (shrink bit k (ℓ + 1) ss b) + size s
        then [shrink bit k ℓ (s :: ss) b] else []

theorem not_mem_of_size_eq_zero {t : Trie κ ν} (h : size t = 0) {k : κ} {v : ν} :
    ¬ Mem k v t := by
  induction t with
  | empty => exact id
  | leaf => exact absurd h Nat.one_ne_zero
  | node l r ihl ihr =>
      have hl : size l = 0 := Nat.eq_zero_of_add_eq_zero_right h
      have hr : size r = 0 := Nat.eq_zero_of_add_eq_zero_left h
      rintro (hm | hm)
      · exact ihl hl hm
      · exact ihr hr hm

theorem join_eq_side {b : Bool} {on off : Trie κ ν} (h : 2 ≤ size on + size off) :
    join b on off = side b on off :=
  if_pos h

theorem join_eq_on {b : Bool} {on off : Trie κ ν} (h : ¬ 2 ≤ size on + size off)
    (h0 : size on ≠ 0) : join b on off = on := by
  rw [join, if_neg h, if_neg h0]

theorem join_eq_off {b : Bool} {on off : Trie κ ν} (h : ¬ 2 ≤ size on + size off)
    (h0 : size on = 0) : join b on off = off := by
  rw [join, if_neg h, if_pos h0]

theorem mem_join {k : κ} {v : ν} {b : Bool} {on off : Trie κ ν} :
    Mem k v (join b on off) ↔ Mem k v on ∨ Mem k v off := by
  by_cases h2 : 2 ≤ size on + size off
  · rw [join_eq_side h2, mem_side]
  · by_cases h0 : size on = 0
    · rw [join_eq_off h2 h0, or_iff_right (not_mem_of_size_eq_zero h0)]
    · rw [join_eq_on h2 h0, or_iff_left (not_mem_of_size_eq_zero (by omega))]

theorem mem_shrink {k k' : κ} {v : ν} {ℓ : ℕ} {ss : List (Trie κ ν)} {b : Trie κ ν} :
    Mem k' v (shrink bit k ℓ ss b) ↔ Mem k' v b ∨ ∃ s ∈ ss, Mem k' v s := by
  induction ss generalizing ℓ with
  | nil => simp [shrink]
  | cons s ss ih =>
      rw [shrink, mem_join, ih, List.exists_mem_cons_iff, or_assoc]
      exact or_congr_right or_comm

/-- A leaf is canonical wherever it stands. -/
theorem Canonical.of_size_le_one {ℓ ℓ' : ℕ} {t : Trie κ ν} (h : Canonical bit ℓ t)
    (hs : size t ≤ 1) : Canonical bit ℓ' t := by
  cases h with
  | empty => exact Canonical.empty _
  | leaf _ k v => exact Canonical.leaf _ _ _
  | node hl hr hbl hbr hsize =>
      exact absurd (Nat.le_trans hsize hs) (by decide)

/-- **SHRINKING KEEPS THE CANONICAL FORM**, however small the new bottom is. -/
theorem Canonical.shrink {k : κ} {ℓ : ℕ} {ss : List (Trie κ ν)} {b b' : Trie κ ν}
    (h : Canonical bit ℓ (Trie.plug bit k ℓ ss b)) (hb' : Canonical bit (ℓ + ss.length) b')
    (hagree : ∀ k' v, Mem k' v b' → ∀ i < ss.length, bit k' (ℓ + i) = bit k (ℓ + i)) :
    Canonical bit ℓ (Trie.shrink bit k ℓ ss b') := by
  induction ss generalizing ℓ with
  | nil => exact hb'
  | cons s ss ih =>
      obtain ⟨hon, hoff, hbon, hboff, _⟩ := canonical_side_iff.mp h
      have hlen : ℓ + (s :: ss).length = ℓ + 1 + ss.length := by
        rw [List.length_cons]
        omega
      have hcan := ih hon (hlen ▸ hb') (by
        intro k' v hm i hi
        have heq : ℓ + 1 + i = ℓ + (i + 1) := by omega
        rw [heq]
        exact hagree k' v hm (i + 1) (Nat.succ_lt_succ hi))
      have hbit : ∀ k' v, Mem k' v (Trie.shrink bit k (ℓ + 1) ss b') →
          bit k' ℓ = bit k ℓ := by
        intro k' v hm
        rcases mem_shrink.mp hm with hm' | ⟨s', hs', hm'⟩
        · exact hagree k' v hm' 0 (Nat.succ_pos _)
        · exact hbon k' v (mem_plug.mpr (Or.inr ⟨s', hs', hm'⟩))
      rw [Trie.shrink]
      by_cases h2 : 2 ≤ size (Trie.shrink bit k (ℓ + 1) ss b') + size s
      · rw [join_eq_side h2]
        exact canonical_side_iff.mpr ⟨hcan, hoff, hbit, hboff, h2⟩
      · by_cases h0 : size (Trie.shrink bit k (ℓ + 1) ss b') = 0
        · rw [join_eq_off h2 h0]
          exact hoff.of_size_le_one (by omega)
        · rw [join_eq_on h2 h0]
          exact hcan.of_size_le_one (by omega)

theorem sub_shrink {k : κ} {ℓ : ℕ} {ss : List (Trie κ ν)} {b s : Trie κ ν}
    (h : Sub s (shrink bit k ℓ ss b)) :
    s ∈ ridge bit k ℓ ss b ∨ Sub s b ∨ ∃ s' ∈ ss, Sub s s' := by
  induction ss generalizing ℓ with
  | nil => exact Or.inr (Or.inl h)
  | cons s' ss ih =>
      have hlow : Sub s (shrink bit k (ℓ + 1) ss b) →
          s ∈ ridge bit k ℓ (s' :: ss) b ∨ Sub s b ∨ ∃ s'' ∈ s' :: ss, Sub s s'' := by
        intro h'
        rcases ih h' with h'' | h'' | ⟨s'', hs'', h''⟩
        · exact Or.inl (List.mem_append_left _ h'')
        · exact Or.inr (Or.inl h'')
        · exact Or.inr (Or.inr ⟨s'', List.mem_cons_of_mem _ hs'', h''⟩)
      have hside : Sub s s' →
          s ∈ ridge bit k ℓ (s' :: ss) b ∨ Sub s b ∨ ∃ s'' ∈ s' :: ss, Sub s s'' :=
        fun h' => Or.inr (Or.inr ⟨s', List.mem_cons_self, h'⟩)
      by_cases h2 : 2 ≤ size (shrink bit k (ℓ + 1) ss b) + size s'
      · have heq : shrink bit k ℓ (s' :: ss) b
            = side (bit k ℓ) (shrink bit k (ℓ + 1) ss b) s' := by
          rw [shrink, join_eq_side h2]
        rw [heq] at h
        rcases sub_side.mp h with h' | h' | h'
        · refine Or.inl (List.mem_append_right _ ?_)
          rw [if_pos h2, heq]
          exact List.mem_singleton.mpr h'
        · exact hlow h'
        · exact hside h'
      · by_cases h0 : size (shrink bit k (ℓ + 1) ss b) = 0
        · rw [shrink, join_eq_off h2 h0] at h
          exact hside h
        · rw [shrink, join_eq_on h2 h0] at h
          exact hlow h

/-- The nodes that are left hold two leaves, and are part of what is left. -/
theorem sub_shrink_of_mem_ridge {k : κ} {ℓ : ℕ} {ss : List (Trie κ ν)} {b s : Trie κ ν}
    (h : s ∈ ridge bit k ℓ ss b) : 2 ≤ size s ∧ Sub s (shrink bit k ℓ ss b) := by
  induction ss generalizing ℓ with
  | nil => exact absurd h List.not_mem_nil
  | cons s' ss ih =>
      rcases List.mem_append.mp h with hlow | htop
      · obtain ⟨htwo, hsub⟩ := ih hlow
        refine ⟨htwo, ?_⟩
        have hle := hsub.size_le
        rw [shrink]
        by_cases h2 : 2 ≤ size (shrink bit k (ℓ + 1) ss b) + size s'
        · rw [join_eq_side h2]
          exact sub_side.mpr (Or.inr (Or.inl hsub))
        · rw [join_eq_on h2 (by omega)]
          exact hsub
      · by_cases h2 : 2 ≤ size (shrink bit k (ℓ + 1) ss b) + size s'
        · rw [if_pos h2] at htop
          rw [List.mem_singleton.mp htop]
          refine ⟨?_, Sub.refl⟩
          rw [shrink, join_eq_side h2, size_side]
          exact h2
        · rw [if_neg h2] at htop
          exact absurd htop List.not_mem_nil

theorem isNode_of_mem_ridge {k : κ} {ℓ : ℕ} {ss : List (Trie κ ν)} {b s : Trie κ ν}
    (h : s ∈ ridge bit k ℓ ss b) : IsNode s = true := by
  induction ss generalizing ℓ with
  | nil => exact absurd h List.not_mem_nil
  | cons s' ss ih =>
      rcases List.mem_append.mp h with hlow | htop
      · exact ih hlow
      · by_cases h2 : 2 ≤ size (shrink bit k (ℓ + 1) ss b) + size s'
        · rw [if_pos h2] at htop
          rw [List.mem_singleton.mp htop, shrink, join_eq_side h2]
          exact isNode_side _ _ _
        · rw [if_neg h2] at htop
          exact absurd htop List.not_mem_nil

end Trie

end Albus.Lib
