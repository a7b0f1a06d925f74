import Albus.Program.PolicyBinding

/-! # Rules and the slots of other signals

    `apply_rules` counts the rules of a key and never looks at the size of the
    key's signal: the rules beyond it run on into whatever signal lies behind.
    The walk stays inside the signals it names exactly when no such surplus rule
    has the last word on a slot of another signal. -/

namespace Albus.Program

open Albus.Lib

/-- A slot of the signal `k`. -/
def Signals.InSpan (signals : Signals) (k : String) (slot : Nat) : Prop :=
  ∃ signal ∈ signals.get k, signal.index ≤ slot ∧ slot < signal.index + signal.size

instance (signals : Signals) (k : String) (slot : Nat) :
    Decidable (signals.InSpan k slot) :=
  inferInstanceAs (Decidable (∃ signal ∈ signals.get k,
    signal.index ≤ slot ∧ slot < signal.index + signal.size))

/-- A slot of a signal that some rule names. -/
def NamedSlot (signals : Signals) (rules : List PolicyRule) (slot : Nat) : Prop :=
  ∃ rule ∈ rules, signals.InSpan rule.key slot

instance (signals : Signals) (rules : List PolicyRule) (slot : Nat) :
    Decidable (NamedSlot signals rules slot) :=
  inferInstanceAs (Decidable (∃ rule ∈ rules, signals.InSpan rule.key slot))

/-- The writes of the remaining rules that lie beyond their signal. -/
def surplusFrom (signals : Signals) :
    (String → Nat) → List PolicyRule → List SlotWrite
  | _, [] => []
  | used, rule :: rules =>
      match signals.get rule.key with
      | none => surplusFrom signals used rules
      | some signal =>
          let rest := surplusFrom signals
            (Function.update used rule.key (used rule.key + 1)) rules
          if used rule.key < signal.size then rest
          else (signal.index + used rule.key, rule.value) :: rest

/-- The `k`-th rule of key `K` is surplus for `k ≥ size(K)`; it is aimed at slot
    `index(K) + k`. -/
def surplus (signals : Signals) (rules : List PolicyRule) : List SlotWrite :=
  surplusFrom signals (fun _ => 0) rules

/-- `apply_rules` changes only slots of signals that the rules name. -/
def StaysInside (signals : Signals) (rules : List PolicyRule)
    (inputs : List (Bytes 32)) : Prop :=
  ∀ slot, ¬ NamedSlot signals rules slot →
    (applyRules rules inputs signals)[slot]? = inputs[slot]?

/-- The last surplus rule aimed at an existing slot of no named signal, if there is
    one, carries the word that is there. -/
def SurplusHarmless (signals : Signals) (rules : List PolicyRule)
    (inputs : List (Bytes 32)) : Prop :=
  ∀ slot < inputs.length, ¬ NamedSlot signals rules slot →
    ∀ v ∈ lastWrite (surplus signals rules) slot, inputs[slot]? = some v

instance (signals : Signals) (rules : List PolicyRule) (inputs : List (Bytes 32)) :
    Decidable (SurplusHarmless signals rules inputs) :=
  inferInstanceAs (Decidable (∀ slot < inputs.length, ¬ NamedSlot signals rules slot →
    ∀ v ∈ lastWrite (surplus signals rules) slot, inputs[slot]? = some v))

theorem lastWrite_cons (w : SlotWrite) (ws : List SlotWrite) (slot : Nat) :
    lastWrite (w :: ws) slot
      = (lastWrite ws slot).or (if slot = w.1 then some w.2 else none) := by
  induction ws using List.reverseRecOn with
  | nil =>
      rw [lastWrite_nil, Option.none_or]
      exact lastWrite_concat [] w slot
  | append_singleton ws w' ih =>
      rw [← List.cons_append, lastWrite_concat, lastWrite_concat, ih]
      by_cases h : slot = w'.1
      · rw [if_pos h, if_pos h, Option.some_or]
      · rw [if_neg h, if_neg h]

/-- A write somewhere else has no say. -/
theorem lastWrite_cons_of_ne {w : SlotWrite} {slot : Nat} (h : slot ≠ w.1)
    (ws : List SlotWrite) : lastWrite (w :: ws) slot = lastWrite ws slot := by
  rw [lastWrite_cons, if_neg h, Option.or_none]

/-- Outside the named signals only surplus rules write. -/
private theorem lastWrite_surplusFrom (signals : Signals) {slot : Nat}
    (rules : List PolicyRule) :
    ∀ (used : String → Nat), ¬ NamedSlot signals rules slot →
      lastWrite (ruleWritesFrom signals used rules) slot
        = lastWrite (surplusFrom signals used rules) slot := by
  induction rules with
  | nil => intro used _; rfl
  | cons rule rules ih =>
      intro used hslot
      have hrest : ¬ NamedSlot signals rules slot := by
        rintro ⟨r, hr, hspan⟩
        exact hslot ⟨r, List.mem_cons_of_mem _ hr, hspan⟩
      cases hget : signals.get rule.key with
      | none =>
          simp only [ruleWritesFrom, surplusFrom, hget]
          exact ih used hrest
      | some signal =>
          simp only [ruleWritesFrom, surplusFrom, hget]
          by_cases hlt : used rule.key < signal.size
          · -- inside the signal: the slot is another one
            have hne : slot ≠ signal.index + used rule.key := by
              rintro rfl
              exact hslot ⟨rule, List.mem_cons_self, signal, hget, by omega, by omega⟩
            rw [if_pos hlt, lastWrite_cons_of_ne hne]
            exact ih _ hrest
          · rw [if_neg hlt, lastWrite_cons, lastWrite_cons, ih _ hrest]

theorem lastWrite_surplus {signals : Signals} {rules : List PolicyRule} {slot : Nat}
    (h : ¬ NamedSlot signals rules slot) :
    lastWrite (ruleWrites signals rules) slot = lastWrite (surplus signals rules) slot :=
  lastWrite_surplusFrom signals rules (fun _ => 0) h

/-- What a slot of no named signal holds after the walk. -/
theorem applyRules_getElem?_of_not_named {signals : Signals} {rules : List PolicyRule}
    {inputs : List (Bytes 32)} {slot : Nat} (hlt : slot < inputs.length)
    (h : ¬ NamedSlot signals rules slot) :
    (applyRules rules inputs signals)[slot]?
      = (lastWrite (surplus signals rules) slot).or inputs[slot]? := by
  rw [applyRules_eq_writeAll, writeAll_getElem? _ _ hlt, lastWrite_surplus h]

/-- The walk makes no slot. -/
theorem applyRules_getElem?_of_le {signals : Signals} {rules : List PolicyRule}
    {inputs : List (Bytes 32)} {slot : Nat} (h : inputs.length ≤ slot) :
    (applyRules rules inputs signals)[slot]? = none := by
  rw [applyRules_eq_writeAll, List.getElem?_eq_none]
  rwa [writeAll_length]

/-- **RULES STAY INSIDE THEIR SIGNAL, EXACTLY WHEN** the surplus rules do no harm. -/
theorem stays_inside_iff (signals : Signals) (rules : List PolicyRule)
    (inputs : List (Bytes 32)) :
    StaysInside signals rules inputs ↔ SurplusHarmless signals rules inputs := by
  constructor
  · intro hstay slot hlt hslot v hv
    have hkeep := hstay slot hslot
    rw [applyRules_getElem?_of_not_named hlt hslot, Option.mem_def.mp hv,
      Option.some_or] at hkeep
    exact hkeep.symm
  · intro hharm slot hslot
    by_cases hlt : slot < inputs.length
    · rw [applyRules_getElem?_of_not_named hlt hslot]
      cases hv : lastWrite (surplus signals rules) slot with
      | none => rw [Option.none_or]
      | some v =>
          rw [Option.some_or]
          exact (hharm slot hlt hslot v hv).symm
    · rw [applyRules_getElem?_of_le (Nat.not_lt.mp hlt),
        List.getElem?_eq_none (Nat.not_lt.mp hlt)]

private theorem surplusFrom_eq_nil (signals : Signals) (rules : List PolicyRule) :
    ∀ (used : String → Nat),
      (∀ k signal, signals.get k = some signal →
        used k + (rules.filter (fun r => r.key = k)).length ≤ signal.size ∨
          ∀ r ∈ rules, r.key ≠ k) →
      surplusFrom signals used rules = [] := by
  induction rules with
  | nil => intro used _; rfl
  | cons rule rules ih =>
      intro used hfit
      cases hget : signals.get rule.key with
      | none =>
          simp only [surplusFrom, hget]
          refine ih used ?_
          intro k signal hk
          by_cases heq : rule.key = k
          · subst heq
            rw [hget] at hk
            exact nomatch hk
          · rcases hfit k signal hk with h | h
            · rw [List.filter_cons_of_neg (by simpa using heq)] at h
              exact Or.inl h
            · exact Or.inr fun r hr => h r (List.mem_cons_of_mem _ hr)
      | some signal =>
          have hroom : used rule.key
              + ((rule :: rules).filter (fun r => r.key = rule.key)).length ≤ signal.size := by
            rcases hfit rule.key signal hget with h | h
            · exact h
            · exact absurd rfl (h rule List.mem_cons_self)
          rw [List.filter_cons_of_pos (by simp), List.length_cons] at hroom
          simp only [surplusFrom, hget]
          rw [if_pos (by omega)]
          refine ih _ ?_
          intro k signal' hk
          by_cases heq : k = rule.key
          · subst heq
            rw [hget] at hk
            obtain rfl := Option.some.inj hk
            rw [Function.update_self]
            exact Or.inl (by omega)
          · rw [Function.update_of_ne heq]
            rcases hfit k signal' hk with h | h
            · rw [List.filter_cons_of_neg (by simpa using fun h => heq h.symm)] at h
              exact Or.inl h
            · exact Or.inr fun r hr => h r (List.mem_cons_of_mem _ hr)

/-- With no more rules for a key than its signal has slots nothing is surplus, and
    the walk stays inside whatever the inputs are. -/
theorem staysInside_of_rulesFit {signals : Signals} {rules : List PolicyRule}
    (h : RulesFit signals rules) (inputs : List (Bytes 32)) :
    StaysInside signals rules inputs := by
  rw [stays_inside_iff]
  have hnil : surplus signals rules = [] := by
    refine surplusFrom_eq_nil signals rules (fun _ => 0) ?_
    intro k signal hk
    have := h k signal hk
    exact Or.inl (by omega)
  intro slot _ _ v hv
  rw [hnil] at hv
  exact nomatch hv

/-! ### One rule too many -/

namespace OneRuleTooMany

def publicSignals : List String := ["minAge", "timestamp"]

def circuit : Account Circuit := Sample.circuit publicSignals 2

def signals : Signals :=
  { data := [("timestamp", ⟨1, 1⟩), ("minAge", ⟨0, 1⟩)], count := 2 }

/-- `minAge` is one slot, and is given two values. -/
def rules : List PolicyRule :=
  [⟨"minAge", Bytes.ofNum 32 18⟩, ⟨"minAge", Bytes.ofNum 32 0⟩]

def inputs : List (Bytes 32) := [Bytes.ofNum 32 18, Bytes.ofNum 32 1700000000]

/-- The request after its creation and the prove call that brings all inputs. -/
def calls : List Call :=
  [Sample.create rules, Sample.prove rules circuit none (some Sample.proof) inputs]

end OneRuleTooMany

/-- **A RULE LEAVES ITS SIGNAL**: the second `minAge` rule replaces the timestamp
    that the same call has just checked. -/
theorem stays_inside_fails :
    Signals.new OneRuleTooMany.publicSignals = some OneRuleTooMany.signals ∧
    (signalNames OneRuleTooMany.publicSignals).Nodup ∧
    ¬ StaysInside OneRuleTooMany.signals OneRuleTooMany.rules OneRuleTooMany.inputs ∧
    ∃ a, (exec (step Sample.runtime Sample.seeds) none OneRuleTooMany.calls).2 = some a ∧
      a.request.status = .proved ∧
      OneRuleTooMany.inputs[1]? = some (Bytes.ofNum 32 1700000000) ∧
      a.request.publicInputs[1]? = some (Bytes.ofNum 32 0) := by
  refine ⟨by decide, by decide, ?_, by decide +kernel⟩
  intro hstay
  have hkept := hstay 1 (by decide)
  exact absurd hkept (by decide)

end Albus.Program
