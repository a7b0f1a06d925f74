import Albus.Core.SmtTree

/-! # Inclusion

    The root of a tree is recomputed from a leaf along the bits of its key
    (`climb_plug`), and a root recomputed so is the root of no tree that does not hold
    the leaf (`climb_sound`). -/

namespace Albus.Core

open Albus.Lib

/-- The root from a leaf's hash and the siblings of the path of `key`. -/
def climb (permute : List ℕ → ℕ) (key : ℕ) : ℕ → List ℕ → ℕ → ℕ
  | _, [], leaf => leaf
  | ℓ, s :: ss, leaf =>
    let below := climb permute key (ℓ + 1) ss leaf
    SMT.hash0 permute (bif key.testBit ℓ then [s, below] else [below, s])

/-- What is hashed on the way. -/
def climbInputs (permute : List ℕ → ℕ) (key : ℕ) : ℕ → List ℕ → ℕ → List (List ℕ)
  | _, [], _ => []
  | ℓ, s :: ss, leaf =>
    let below := climb permute key (ℓ + 1) ss leaf
    (bif key.testBit ℓ then [s, below] else [below, s]) ::
      climbInputs permute key (ℓ + 1) ss leaf

/-- What is hashed from a leaf to the root. -/
def pathInputs (permute : List ℕ → ℕ) (key value : ℕ) (siblings : List ℕ) :
    List (List ℕ) :=
  [key, value, 1] :: climbInputs permute key 0 siblings (SMT.hash1 permute key value)

variable {permute : List ℕ → ℕ} {inputs : List (List ℕ)}

/-- A tree whose digest is a hash is not empty, and was made from that input. -/
theorem Tree.Hashed.input_eq (hcf : CollisionFree permute inputs) {t : Tree}
    (ht : t.Hashed permute inputs) {x : List ℕ} (hx : x ∈ inputs)
    (h : Tree.digest permute t = Poseidon.hash permute x) :
    t ≠ .empty ∧ Tree.input permute t = x := by
  have hne : t ≠ .empty := by
    rintro rfl
    exact hcf.nonzero x hx h.symm
  refine ⟨hne, hcf.injective _ (ht t Trie.Sub.refl hne) _ hx ?_⟩
  rw [← Tree.digest_eq hne]
  exact h

/-- **THE DIGEST OF A TREE IS A CLIMB** along the path of any key. -/
theorem climb_plug (key : ℕ) (ss : List Tree) (b : Tree) (ℓ : ℕ) :
    climb permute key ℓ (ss.map (Tree.digest permute)) (Tree.digest permute b)
      = Tree.digest permute (Trie.plug Nat.testBit key ℓ ss b) := by
  induction ss generalizing ℓ with
  | nil => rfl
  | cons s ss ih =>
      rw [List.map_cons, climb, ih, Trie.plug]
      cases key.testBit ℓ with
      | false => rfl
      | true => rfl

/-- **A CLIMB TO THE ROOT STARTS AT A LEAF OF THE TREE.** -/
theorem climb_sound (hcf : CollisionFree permute inputs) {t : Tree}
    (ht : t.Hashed permute inputs) {key value ℓ : ℕ} {ss : List ℕ}
    (hleaf : [key, value, 1] ∈ inputs)
    (hin : ∀ x ∈ climbInputs permute key ℓ ss (SMT.hash1 permute key value), x ∈ inputs)
    (h : Tree.digest permute t
      = climb permute key ℓ ss (SMT.hash1 permute key value)) :
    Trie.Mem key value t := by
  induction ss generalizing t ℓ with
  | nil =>
      obtain ⟨hne, hinput⟩ := ht.input_eq hcf hleaf h
      cases t with
      | empty => exact absurd rfl hne
      | leaf k v =>
          simp only [Tree.input, List.cons.injEq, and_true] at hinput
          exact ⟨hinput.1.symm, hinput.2.symm⟩
      | node l r => exact absurd (congrArg List.length hinput) (by simp [Tree.input])
  | cons s ss ih =>
      have htail : ∀ x ∈ climbInputs permute key (ℓ + 1) ss
          (SMT.hash1 permute key value), x ∈ inputs :=
        fun x hx => hin x (List.mem_cons_of_mem _ hx)
      obtain ⟨hne, hinput⟩ := ht.input_eq hcf (hin _ List.mem_cons_self) h
      cases t with
      | empty => exact absurd rfl hne
      | leaf k v =>
          have hlen := congrArg List.length hinput
          cases hb : key.testBit ℓ <;> simp [Tree.input, hb] at hlen
      | node l r =>
          have hl := ht.sub (Trie.Sub.left (r := r) (Trie.Sub.refl (s := l)))
          have hr := ht.sub (Trie.Sub.right (l := l) (Trie.Sub.refl (s := r)))
          cases hb : key.testBit ℓ with
          | false =>
              rw [hb, cond_false] at hinput
              exact Or.inl (ih hl htail (List.cons.inj hinput).1)
          | true =>
              rw [hb, cond_true] at hinput
              exact Or.inr (ih hr htail (List.cons.inj (List.cons.inj hinput).2).1)

end Albus.Core
