import Albus.Program.State
import Mathlib.Logic.Function.Basic

/-! # Policy rules over the public inputs

    `Policy::apply_rules` walks the rules once, counting for every key the slots
    it has already filled, and writes rule `k` of key `K` to slot
    `index(K) + k` when that slot exists.  Nothing stops `k` at the size of the
    signal, and a slot that does not exist is passed over in silence.

    The slots and values are a function of the rules and the layout alone
    (`ruleWrites`); `applyRules_eq_writeAll` says the walk performs exactly these
    writes, in order. -/

namespace Albus.Program

open Albus.Lib

/-- One turn of the loop of `apply_rules`: the inputs so far and the per-key
    counters (`used_indices`, absent meaning 0). -/
def applyRule (signals : Signals)
    (acc : List (Bytes 32) × (String → Nat)) (rule : PolicyRule) :
    List (Bytes 32) × (String → Nat) :=
  match signals.get rule.key with
  | none => acc
  | some signal =>
      let index := signal.index + acc.2 rule.key
      -- `get_mut`: only an existing slot is written and counted
      if index < acc.1.length then
        (acc.1.set index rule.value,
          Function.update acc.2 rule.key (acc.2 rule.key + 1))
      else acc

/-- `Policy::apply_rules`. -/
def applyRules (rules : List PolicyRule) (inputs : List (Bytes 32))
    (signals : Signals) : List (Bytes 32) :=
  (rules.foldl (applyRule signals) (inputs, fun _ => 0)).1

/-! ## Writes as data -/

/-- One slot and the value it is to hold. -/
abbrev SlotWrite := Nat × Bytes 32

/-- Performs the writes in order; a slot past the end is passed over. -/
def writeAll (inputs : List (Bytes 32)) (ws : List SlotWrite) : List (Bytes 32) :=
  ws.foldl (fun acc w => acc.set w.1 w.2) inputs

/-- The value the last write to a slot leaves there. -/
def lastWrite (ws : List SlotWrite) (slot : Nat) : Option (Bytes 32) :=
  ws.reverse.lookup slot

@[simp] theorem writeAll_nil (inputs : List (Bytes 32)) :
    writeAll inputs [] = inputs := rfl

theorem writeAll_append (inputs : List (Bytes 32)) (ws ws' : List SlotWrite) :
    writeAll inputs (ws ++ ws') = writeAll (writeAll inputs ws) ws' :=
  List.foldl_append

@[simp] theorem lastWrite_nil (slot : Nat) : lastWrite [] slot = none := rfl

theorem lastWrite_concat (ws : List SlotWrite) (w : SlotWrite) (slot : Nat) :
    lastWrite (ws ++ [w]) slot
      = if slot = w.1 then some w.2 else lastWrite ws slot := by
  obtain ⟨n, v⟩ := w
  unfold lastWrite
  rw [List.reverse_append, List.reverse_singleton, List.singleton_append,
    List.lookup_cons]
  by_cases h : slot = n
  · rw [if_pos h, beq_iff_eq.mpr h]
  · rw [if_neg h, beq_eq_false_iff_ne.mpr h]

@[simp] theorem writeAll_length (inputs : List (Bytes 32)) (ws : List SlotWrite) :
    (writeAll inputs ws).length = inputs.length := by
  induction ws using List.reverseRecOn with
  | nil => rfl
  | append_singleton ws w ih =>
      rw [writeAll_append]
      show ((writeAll inputs ws).set w.1 w.2).length = inputs.length
      rw [List.length_set, ih]

/-- After the writes an existing slot holds its last write, or what it held. -/
theorem writeAll_getElem? (inputs : List (Bytes 32)) (ws : List SlotWrite)
    {slot : Nat} (h : slot < inputs.length) :
    (writeAll inputs ws)[slot]? = (lastWrite ws slot).or inputs[slot]? := by
  induction ws using List.reverseRecOn with
  | nil => rfl
  | append_singleton ws w ih =>
      rw [writeAll_append, lastWrite_concat]
      show ((writeAll inputs ws).set w.1 w.2)[slot]? = _
      rw [List.getElem?_set]
      by_cases hw : slot = w.1
      · have hlt : w.1 < (writeAll inputs ws).length := by
          rw [writeAll_length]
          omega
        rw [if_pos hw.symm, if_pos hlt, if_pos hw]
        rfl
      · rw [if_neg (fun heq => hw heq.symm), if_neg hw]
        exact ih

theorem lastWrite_isSome {ws : List SlotWrite} {w : SlotWrite} (h : w ∈ ws) :
    ∃ v, lastWrite ws w.1 = some v := by
  induction ws using List.reverseRecOn with
  | nil => exact nomatch h
  | append_singleton ws w' ih =>
      rw [lastWrite_concat]
      by_cases hw : w.1 = w'.1
      · exact ⟨w'.2, by rw [if_pos hw]⟩
      · rw [if_neg hw]
        refine ih ?_
        rcases List.mem_append.mp h with hl | hr
        · exact hl
        · exact absurd (congrArg Prod.fst (List.mem_singleton.mp hr)) hw

theorem mem_of_lastWrite {ws : List SlotWrite} {slot : Nat} {v : Bytes 32}
    (h : lastWrite ws slot = some v) : (slot, v) ∈ ws := by
  obtain ⟨l₁, l₂, heq, -⟩ := List.lookup_eq_some_iff.mp h
  refine List.mem_reverse.mp ?_
  rw [heq]
  exact List.mem_append_right l₁ List.mem_cons_self

/-- Writes elsewhere do not change what is last written to a slot. -/
theorem lastWrite_append_of_ne {ws ws' : List SlotWrite} {slot : Nat}
    (h : ∀ w ∈ ws', w.1 ≠ slot) : lastWrite (ws ++ ws') slot = lastWrite ws slot := by
  induction ws' using List.reverseRecOn with
  | nil => rw [List.append_nil]
  | append_singleton ws' w ih =>
      have hw : w.1 ≠ slot := h w (List.mem_append_right _ List.mem_cons_self)
      rw [← List.append_assoc, lastWrite_concat, if_neg (fun heq => hw heq.symm)]
      exact ih (fun w' hw' => h w' (List.mem_append_left _ hw'))

theorem lastWrite_eq_none {ws : List SlotWrite} {slot : Nat}
    (h : ∀ w ∈ ws, w.1 ≠ slot) : lastWrite ws slot = none := by
  have hnil : lastWrite ([] ++ ws) slot = lastWrite [] slot := lastWrite_append_of_ne h
  rwa [List.nil_append, lastWrite_nil] at hnil

/-! ## The writes of a rule list -/

/-- The writes of the remaining rules, the counters being `used`. -/
def ruleWritesFrom (signals : Signals) :
    (String → Nat) → List PolicyRule → List SlotWrite
  | _, [] => []
  | used, rule :: rules =>
      match signals.get rule.key with
      | none => ruleWritesFrom signals used rules
      | some signal =>
          (signal.index + used rule.key, rule.value) ::
            ruleWritesFrom signals
              (Function.update used rule.key (used rule.key + 1)) rules

/-- The writes `apply_rules` attempts. -/
def ruleWrites (signals : Signals) (rules : List PolicyRule) : List SlotWrite :=
  ruleWritesFrom signals (fun _ => 0) rules

/-- The source's counters lag behind only for keys whose next slot is missing. -/
private def Lagging (signals : Signals) (len : Nat) (used ideal : String → Nat) :
    Prop :=
  ∀ k signal, signals.get k = some signal →
    used k = ideal k ∨ (used k ≤ ideal k ∧ len ≤ signal.index + used k)

private theorem foldl_applyRule (signals : Signals) (rules : List PolicyRule) :
    ∀ (inputs : List (Bytes 32)) (used ideal : String → Nat),
      Lagging signals inputs.length used ideal →
      (rules.foldl (applyRule signals) (inputs, used)).1
        = writeAll inputs (ruleWritesFrom signals ideal rules) := by
  induction rules with
  | nil => intro inputs used ideal _; rfl
  | cons rule rules ih =>
      intro inputs used ideal hlag
      rw [List.foldl_cons]
      cases hget : signals.get rule.key with
      | none =>
          have h1 : applyRule signals (inputs, used) rule = (inputs, used) := by
            simp [applyRule, hget]
          have h2 : ruleWritesFrom signals ideal (rule :: rules)
              = ruleWritesFrom signals ideal rules := by
            simp [ruleWritesFrom, hget]
          rw [h1, h2]
          exact ih inputs used ideal hlag
      | some signal =>
          have h2 : ruleWritesFrom signals ideal (rule :: rules)
              = (signal.index + ideal rule.key, rule.value) ::
                ruleWritesFrom signals
                  (Function.update ideal rule.key (ideal rule.key + 1)) rules := by
            simp [ruleWritesFrom, hget]
          have h3 : ∀ ws, writeAll inputs ((signal.index + ideal rule.key,
              rule.value) :: ws)
              = writeAll (inputs.set (signal.index + ideal rule.key) rule.value)
                ws := fun ws => rfl
          rw [h2, h3]
          by_cases hlt : signal.index + used rule.key < inputs.length
          · -- the slot exists: both sides write it and count it
            have heq : used rule.key = ideal rule.key := by
              rcases hlag rule.key signal hget with h | ⟨-, h⟩
              · exact h
              · omega
            have h1 : applyRule signals (inputs, used) rule
                = (inputs.set (signal.index + used rule.key) rule.value,
                  Function.update used rule.key (used rule.key + 1)) := by
              simp [applyRule, hget, hlt]
            rw [h1, heq]
            refine ih _ _ _ ?_
            intro k signal' hk
            rw [List.length_set]
            by_cases hkr : k = rule.key
            · subst hkr
              rw [Function.update_self, Function.update_self]
              exact Or.inl rfl
            · rw [Function.update_of_ne hkr, Function.update_of_ne hkr]
              exact hlag k signal' hk
          · -- the slot is missing: the source neither writes nor counts, and the
            -- ideal slot, at or past it, is missing as well
            have hle : used rule.key ≤ ideal rule.key := by
              rcases hlag rule.key signal hget with h | ⟨h, -⟩
              · exact h.le
              · exact h
            have h1 : applyRule signals (inputs, used) rule = (inputs, used) := by
              simp [applyRule, hget, hlt]
            rw [h1, List.set_eq_of_length_le (by omega)]
            refine ih _ _ _ ?_
            intro k signal' hk
            by_cases hkr : k = rule.key
            · subst hkr
              rw [hget] at hk
              obtain rfl := Option.some.inj hk
              rw [Function.update_self]
              exact Or.inr ⟨by omega, by omega⟩
            · rw [Function.update_of_ne hkr]
              exact hlag k signal' hk

/-- **THE WALK IS ITS WRITES.** -/
theorem applyRules_eq_writeAll (rules : List PolicyRule)
    (inputs : List (Bytes 32)) (signals : Signals) :
    applyRules rules inputs signals = writeAll inputs (ruleWrites signals rules) :=
  foldl_applyRule signals rules inputs (fun _ => 0) (fun _ => 0)
    (fun _ _ _ => Or.inl rfl)

example : applyRules
    [⟨"minAge", .replicate 32 7⟩, ⟨"lookup", .replicate 32 8⟩,
      ⟨"lookup", .replicate 32 9⟩]
    (List.replicate 3 (.replicate 32 0))
    { data := [("lookup", ⟨1, 2⟩), ("minAge", ⟨0, 1⟩)], count := 3 }
    = [.replicate 32 7, .replicate 32 8, .replicate 32 9] := by decide

/-! ## Designated slots -/

/-- The slots the remaining rules designate: those inside the signal's span. -/
def designatedFrom (signals : Signals) :
    (String → Nat) → List PolicyRule → List SlotWrite
  | _, [] => []
  | used, rule :: rules =>
      match signals.get rule.key with
      | none => designatedFrom signals used rules
      | some signal =>
          let rest := designatedFrom signals
            (Function.update used rule.key (used rule.key + 1)) rules
          if used rule.key < signal.size then
            (signal.index + used rule.key, rule.value) :: rest
          else rest

/-- The `k`-th rule of key `K` designates slot `index(K) + k`, for
    `k < size(K)`. -/
def designated (signals : Signals) (rules : List PolicyRule) : List SlotWrite :=
  designatedFrom signals (fun _ => 0) rules

/-- Every designated slot exists and holds its rule's value. -/
def Bound (signals : Signals) (rules : List PolicyRule)
    (inputs : List (Bytes 32)) : Prop :=
  ∀ w ∈ designated signals rules, inputs[w.1]? = some w.2

/-- No rule running past the end of its signal has the last word on a slot that
    another rule designates. -/
def SpillFree (signals : Signals) (rules : List PolicyRule) : Prop :=
  ∀ w ∈ designated signals rules,
    lastWrite (ruleWrites signals rules) w.1 = some w.2

/-- Every designated slot exists. -/
def Covers (signals : Signals) (rules : List PolicyRule) (len : Nat) : Prop :=
  ∀ w ∈ designated signals rules, w.1 < len

instance (signals : Signals) (rules : List PolicyRule)
    (inputs : List (Bytes 32)) : Decidable (Bound signals rules inputs) :=
  inferInstanceAs (Decidable (∀ w ∈ designated signals rules,
    inputs[w.1]? = some w.2))

instance (signals : Signals) (rules : List PolicyRule) :
    Decidable (SpillFree signals rules) :=
  inferInstanceAs (Decidable (∀ w ∈ designated signals rules,
    lastWrite (ruleWrites signals rules) w.1 = some w.2))

instance (signals : Signals) (rules : List PolicyRule) (len : Nat) :
    Decidable (Covers signals rules len) :=
  inferInstanceAs (Decidable (∀ w ∈ designated signals rules, w.1 < len))

private theorem designatedFrom_sub (signals : Signals) (rules : List PolicyRule) :
    ∀ (used : String → Nat), ∀ w ∈ designatedFrom signals used rules,
      w ∈ ruleWritesFrom signals used rules := by
  induction rules with
  | nil => intro used w hw; exact nomatch hw
  | cons rule rules ih =>
      intro used w hw
      cases hget : signals.get rule.key with
      | none =>
          simp only [designatedFrom, ruleWritesFrom, hget] at hw ⊢
          exact ih used w hw
      | some signal =>
          simp only [designatedFrom, ruleWritesFrom, hget] at hw ⊢
          split at hw
          · rcases List.mem_cons.mp hw with heq | hmem
            · exact heq ▸ List.mem_cons_self
            · exact List.mem_cons_of_mem _ (ih _ w hmem)
          · exact List.mem_cons_of_mem _ (ih _ w hw)

/-- Designated slots are among the attempted writes. -/
theorem designated_sub (signals : Signals) (rules : List PolicyRule) :
    ∀ w ∈ designated signals rules, w ∈ ruleWrites signals rules :=
  designatedFrom_sub signals rules (fun _ => 0)

/-- **WHEN THE RULES BIND**: `apply_rules` leaves every designated slot with its
    rule's value exactly when all of them exist and no spill overwrites one. -/
theorem bound_applyRules_iff (signals : Signals) (rules : List PolicyRule)
    (inputs : List (Bytes 32)) :
    Bound signals rules (applyRules rules inputs signals) ↔
      Covers signals rules inputs.length ∧ SpillFree signals rules := by
  rw [applyRules_eq_writeAll]
  constructor
  · intro hb
    have hcov : Covers signals rules inputs.length := by
      intro w hw
      have hlt := (List.getElem?_eq_some_iff.mp (hb w hw)).1
      rwa [writeAll_length] at hlt
    refine ⟨hcov, ?_⟩
    intro w hw
    have hslot := hb w hw
    rw [writeAll_getElem? _ _ (hcov w hw)] at hslot
    obtain ⟨v, hv⟩ := lastWrite_isSome (designated_sub signals rules w hw)
    rw [hv] at hslot ⊢
    exact hslot
  · rintro ⟨hcov, hspill⟩ w hw
    rw [writeAll_getElem? _ _ (hcov w hw), hspill w hw]
    rfl

/-- Inputs appended later leave bound slots bound. -/
theorem Bound.append {signals : Signals} {rules : List PolicyRule}
    {inputs : List (Bytes 32)} (h : Bound signals rules inputs)
    (more : List (Bytes 32)) : Bound signals rules (inputs ++ more) := by
  intro w hw
  have hw' := h w hw
  rw [List.getElem?_append_left (List.getElem?_eq_some_iff.mp hw').1]
  exact hw'

/-! ## Rules that stay inside their signal -/

/-- A write of the remaining rules lands on its rule's signal, between the count
    so far and the count after all of them. -/
private theorem ruleWritesFrom_span (signals : Signals)
    (rules : List PolicyRule) :
    ∀ (used : String → Nat), ∀ w ∈ ruleWritesFrom signals used rules,
      ∃ rule ∈ rules, ∃ signal, signals.get rule.key = some signal ∧
        signal.index + used rule.key ≤ w.1 ∧
        w.1 < signal.index + used rule.key
          + (rules.filter (fun r => r.key = rule.key)).length := by
  induction rules with
  | nil => intro used w hw; exact nomatch hw
  | cons rule rules ih =>
      intro used w hw
      -- a write of a later rule, the counters being `used'`
      have hrest : ∀ used' : String → Nat,
          (∀ k, used k ≤ used' k) →
          (∀ k, used' k + (rules.filter (fun r => r.key = k)).length
            ≤ used k + ((rule :: rules).filter (fun r => r.key = k)).length) →
          w ∈ ruleWritesFrom signals used' rules →
          ∃ rule' ∈ rule :: rules, ∃ signal,
            signals.get rule'.key = some signal ∧
            signal.index + used rule'.key ≤ w.1 ∧
            w.1 < signal.index + used rule'.key
              + ((rule :: rules).filter (fun r => r.key = rule'.key)).length := by
        intro used' hlo hhi hmem
        obtain ⟨rule', hr, signal, hget, h1, h2⟩ := ih used' w hmem
        refine ⟨rule', List.mem_cons_of_mem _ hr, signal, hget, ?_, ?_⟩
        · have := hlo rule'.key
          omega
        · have := hhi rule'.key
          omega
      cases hget : signals.get rule.key with
      | none =>
          simp only [ruleWritesFrom, hget] at hw
          refine hrest used (fun _ => le_rfl) ?_ hw
          intro k
          by_cases hk : rule.key = k <;> simp [hk]
      | some signal =>
          simp only [ruleWritesFrom, hget] at hw
          rcases List.mem_cons.mp hw with heq | hmem
          · refine ⟨rule, List.mem_cons_self, signal, hget, ?_, ?_⟩
            · rw [heq]
            · rw [heq, List.filter_cons]
              simp
          · refine hrest _ ?_ ?_ hmem
            · intro k
              by_cases hk : k = rule.key
              · subst hk
                rw [Function.update_self]
                omega
              · rw [Function.update_of_ne hk]
            · intro k
              by_cases hk : k = rule.key
              · subst hk
                rw [Function.update_self, List.filter_cons]
                simp
                omega
              · rw [Function.update_of_ne hk, List.filter_cons]
                have hk' : ¬ rule.key = k := fun heq => hk heq.symm
                simp [hk']

/-- No key has more rules than its signal has slots. -/
def RulesFit (signals : Signals) (rules : List PolicyRule) : Prop :=
  ∀ k signal, signals.get k = some signal →
    (rules.filter (fun r => r.key = k)).length ≤ signal.size

/-- Rules that fit write only inside the span of the signal they name. -/
theorem ruleWrites_span {signals : Signals} {rules : List PolicyRule}
    (hfit : RulesFit signals rules) {w : SlotWrite}
    (hw : w ∈ ruleWrites signals rules) :
    ∃ rule ∈ rules, ∃ signal, signals.get rule.key = some signal ∧
      signal.index ≤ w.1 ∧ w.1 < signal.index + signal.size := by
  obtain ⟨rule, hr, signal, hget, h1, h2⟩ :=
    ruleWritesFrom_span signals rules (fun _ => 0) w hw
  have hlen := hfit rule.key signal hget
  exact ⟨rule, hr, signal, hget, by omega, by omega⟩

end Albus.Program
