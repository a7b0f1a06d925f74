import Mathlib.Data.Set.Card
import Mathlib.Logic.Function.Basic

/-! # Stores and the entries that satisfy a property

    A store is a partial map that is written at one key at a time.  Its census are
    the keys whose entry satisfies a property.  Two things are often kept beside a
    store: a counter of the census, and numbers that were handed out to its entries
    in order.  The rules say how both follow a write. -/

namespace Albus.Lib

universe u v

variable {κ : Type u} {α : Type v}

/-- The keys of the entries that satisfy `p`. -/
def census (m : κ → Option α) (p : α → Prop) : Set κ :=
  {k | ∃ a, m k = some a ∧ p a}

/-- `n` is the number of entries that satisfy `p`. -/
def CensusCard (m : κ → Option α) (p : α → Prop) (n : Nat) : Prop :=
  (census m p).encard = n

/-- The entries that satisfy `p` have different numbers, none above `n`. -/
structure Numbered (m : κ → Option α) (p : α → Prop) (number : α → Nat) (n : Nat) :
    Prop where
  le : ∀ k a, m k = some a → p a → number a ≤ n
  inj : ∀ k k' a a', m k = some a → m k' = some a' → p a → p a' →
    number a = number a' → k = k'

section

variable {m m' : κ → Option α} {p : α → Prop} {number : α → Nat} {n : Nat}

theorem censusCard_zero_iff : CensusCard m p 0 ↔ ∀ k a, m k = some a → ¬ p a := by
  rw [CensusCard, Nat.cast_zero, Set.encard_eq_zero, Set.eq_empty_iff_forall_notMem]
  constructor
  · intro h k a ha hp
    exact h k ⟨a, ha, hp⟩
  · rintro h k ⟨a, ha, hp⟩
    exact h k a ha hp

/-- A census is counted alike in two stores that agree on it. -/
theorem CensusCard.congr (h : CensusCard m p n)
    (hsame : ∀ k, (∃ a, m' k = some a ∧ p a) ↔ ∃ a, m k = some a ∧ p a) :
    CensusCard m' p n := by
  have heq : census m' p = census m p := Set.ext hsame
  rw [CensusCard, heq]
  exact h

/-- A store without entries that satisfy `p` is numbered by anything. -/
theorem numbered_of_none (h : ∀ k a, m k = some a → ¬ p a) : Numbered m p number n where
  le := fun k a ha hp => absurd hp (h k a ha)
  inj := fun k _ a _ ha _ hp _ _ => absurd hp (h k a ha)

/-- Entries that were there before, with their numbers, stay numbered. -/
theorem Numbered.mono (h : Numbered m p number n)
    (hold : ∀ k b, m' k = some b → p b → ∃ a, m k = some a ∧ p a ∧ number b = number a) :
    Numbered m' p number n where
  le := by
    intro k b hb hp
    obtain ⟨a, ha, hpa, heq⟩ := hold k b hb hp
    exact heq ▸ h.le k a ha hpa
  inj := by
    intro k k' b b' hb hb' hp hp' hnum
    obtain ⟨a, ha, hpa, heq⟩ := hold k b hb hp
    obtain ⟨a', ha', hpa', heq'⟩ := hold k' b' hb' hp'
    exact h.inj k k' a a' ha ha' hpa hpa' (heq.symm.trans (hnum.trans heq'))

end

section

variable [DecidableEq κ] {m : κ → Option α} {p : α → Prop} {number : α → Nat} {n : Nat}
  {k : κ}

/-- What a written store holds at a key. -/
theorem update_eq_some {x : Option α} {k' : κ} {b : α}
    (h : Function.update m k x k' = some b) :
    (k' = k ∧ x = some b) ∨ (k' ≠ k ∧ m k' = some b) := by
  by_cases hk : k' = k
  · subst hk
    rw [Function.update_self] at h
    exact Or.inl ⟨rfl, h⟩
  · rw [Function.update_of_ne hk] at h
    exact Or.inr ⟨hk, h⟩

/-- A new entry that satisfies `p` is one more. -/
theorem CensusCard.insert (h : CensusCard m p n) (hk : m k = none) {a : α} (ha : p a) :
    CensusCard (Function.update m k (some a)) p (n + 1) := by
  have hnew : k ∉ census m p := by
    rintro ⟨b, hb, -⟩
    rw [hk] at hb
    exact nomatch hb
  have hset : census (Function.update m k (some a)) p = Insert.insert k (census m p) := by
    ext k'
    constructor
    · rintro ⟨b, hb, hp⟩
      rcases update_eq_some hb with ⟨rfl, -⟩ | ⟨-, hb⟩
      · exact Set.mem_insert _ _
      · exact Set.mem_insert_of_mem _ ⟨b, hb, hp⟩
    · intro hmem
      rcases Set.mem_insert_iff.mp hmem with rfl | ⟨b, hb, hp⟩
      · exact ⟨a, Function.update_self _ _ _, ha⟩
      · have hne : k' ≠ k := fun heq => hnew (heq ▸ ⟨b, hb, hp⟩)
        exact ⟨b, by rw [Function.update_of_ne hne, hb], hp⟩
  rw [CensusCard, hset, Set.encard_insert_of_notMem hnew, h]
  rfl

/-- An entry that satisfied `p` and is gone is one less. -/
theorem CensusCard.erase (h : CensusCard m p n) {a : α} (hk : m k = some a) (ha : p a) :
    CensusCard (Function.update m k none) p (n - 1) := by
  have hmem : k ∈ census m p := ⟨a, hk, ha⟩
  have hset : census (Function.update m k none) p = census m p \ {k} := by
    ext k'
    constructor
    · rintro ⟨b, hb, hp⟩
      rcases update_eq_some hb with ⟨-, hb⟩ | ⟨hne, hb⟩
      · exact nomatch hb
      · exact ⟨⟨b, hb, hp⟩, hne⟩
    · rintro ⟨⟨b, hb, hp⟩, hne⟩
      exact ⟨b, by rw [Function.update_of_ne hne, hb], hp⟩
  rw [CensusCard, hset, Set.encard_sdiff_singleton_of_mem hmem, h]
  rfl

/-- A write that leaves the key's membership as it was keeps the count. -/
theorem CensusCard.write (h : CensusCard m p n) {x : Option α}
    (hsame : (∃ a, x = some a ∧ p a) ↔ ∃ a, m k = some a ∧ p a) :
    CensusCard (Function.update m k x) p n := by
  refine h.congr ?_
  intro k'
  by_cases hk : k' = k
  · subst hk
    rw [Function.update_self]
    exact hsame
  · rw [Function.update_of_ne hk]

/-- An entry in place of another one, both with `p` or both without. -/
theorem CensusCard.replace (h : CensusCard m p n) {a a' : α} (hk : m k = some a)
    (hp : p a' ↔ p a) : CensusCard (Function.update m k (some a')) p n := by
  refine h.write ?_
  constructor
  · rintro ⟨b, hb, hpb⟩
    obtain rfl := Option.some.inj hb
    exact ⟨a, hk, hp.mp hpb⟩
  · rintro ⟨b, hb, hpb⟩
    obtain rfl := Option.some.inj (hk.symm.trans hb)
    exact ⟨a', rfl, hp.mpr hpb⟩

/-- A new entry without `p` is not counted. -/
theorem CensusCard.insert_of_not (h : CensusCard m p n) (hk : m k = none) {a : α} (ha : ¬ p a) :
    CensusCard (Function.update m k (some a)) p n := by
  refine h.write ?_
  constructor
  · rintro ⟨b, hb, hpb⟩
    obtain rfl := Option.some.inj hb
    exact absurd hpb ha
  · rintro ⟨b, hb, -⟩
    rw [hk] at hb
    exact nomatch hb

/-- An entry without `p` that is gone was not counted. -/
theorem CensusCard.erase_of_not (h : CensusCard m p n) {a : α} (hk : m k = some a) (ha : ¬ p a) :
    CensusCard (Function.update m k none) p n := by
  refine h.write ?_
  constructor
  · rintro ⟨b, hb, -⟩
    exact nomatch hb
  · rintro ⟨b, hb, hpb⟩
    obtain rfl := Option.some.inj (hk.symm.trans hb)
    exact absurd hpb ha

/-- The next number goes to the entry that is written. -/
theorem Numbered.assign (h : Numbered m p number n) {a : α} (ha : number a = n + 1) :
    Numbered (Function.update m k (some a)) p number (n + 1) where
  le := by
    intro k' b hb hp
    rcases update_eq_some hb with ⟨-, hb⟩ | ⟨-, hb⟩
    · obtain rfl := Option.some.inj hb
      exact ha.le
    · exact (h.le k' b hb hp).trans (Nat.le_succ n)
  inj := by
    intro k₁ k₂ a₁ a₂ h₁ h₂ hp₁ hp₂ hnum
    rcases update_eq_some h₁ with ⟨rfl, hnew₁⟩ | ⟨-, hold₁⟩ <;>
      rcases update_eq_some h₂ with ⟨rfl, hnew₂⟩ | ⟨-, hold₂⟩
    · rfl
    · -- an older number is not the new one
      obtain rfl := Option.some.inj hnew₁
      have hle := h.le k₂ a₂ hold₂ hp₂
      omega
    · obtain rfl := Option.some.inj hnew₂
      have hle := h.le k₁ a₁ hold₁ hp₁
      omega
    · exact h.inj k₁ k₂ a₁ a₂ hold₁ hold₂ hp₁ hp₂ hnum

end

end Albus.Lib
