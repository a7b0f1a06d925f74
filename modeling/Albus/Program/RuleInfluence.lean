import Albus.Program.RuleSpans

/-! # What the owner decides about policy signals

    Two runs that differ in the submitted public inputs only, up to and with a call
    that carries a proof.  The call writes the same words in both, the issuer's key
    and the rules' values, and touches no other slot: a slot it does not write is
    the owner's, and so is the question whether a slot is there at all.  A policy
    signal with more slots than rules is therefore in part the owner's to fill. -/

namespace Albus.Program

open Albus.Lib

/-- The same call, but for the public inputs it brings. -/
inductive Call.SameButInputs : Call → Call → Prop where
  | prove (ctx : ProveProofRequest) (data : ProveProofRequestData)
      (publicInputs : List (Bytes 32)) (now : Int) :
      SameButInputs (.prove ctx data now) (.prove ctx { data with publicInputs } now)
  | other (c : Call) : SameButInputs c c

/-- The two runs made the same calls, but for the public inputs. -/
def SameRuns (h₁ h₂ : History) : Prop :=
  List.Forall₂ (fun t₁ t₂ => t₁.call.SameButInputs t₂.call) h₁ h₂

/-- The slots of the signals that the rules name. -/
def namedSlots (signals : Signals) (rules : List PolicyRule) : List Nat :=
  rules.flatMap fun rule =>
    match signals.get rule.key with
    | none => []
    | some signal => List.range' signal.index signal.size

theorem mem_namedSlots {signals : Signals} {rules : List PolicyRule} {slot : Nat} :
    slot ∈ namedSlots signals rules ↔ NamedSlot signals rules slot := by
  rw [namedSlots, List.mem_flatMap]
  constructor
  · rintro ⟨rule, hrule, hslot⟩
    refine ⟨rule, hrule, ?_⟩
    cases hget : signals.get rule.key with
    | none =>
        rw [hget] at hslot
        exact nomatch hslot
    | some signal =>
        rw [hget] at hslot
        obtain ⟨hlo, hhi⟩ := List.mem_range'_1.mp hslot
        exact ⟨signal, hget, hlo, hhi⟩
  · rintro ⟨rule, hrule, signal, hget, hlo, hhi⟩
    refine ⟨rule, hrule, ?_⟩
    rw [Option.mem_def.mp hget]
    exact List.mem_range'_1.mpr ⟨hlo, hhi⟩

/-- What a request holds in a slot. -/
def heldAt (acc : Option ProofRequestAccount) (slot : Nat) : Option (Bytes 32) :=
  acc.bind fun a => a.request.publicInputs[slot]?

/-- The inputs submitted since the last reset, up to and with the call. -/
def received (t : Transition (Option ProofRequestAccount) Call) : List (Bytes 32) :=
  match t.call, t.pre with
  | .prove _ data _, some a => (receiveInputs data a.request).publicInputs
  | _, _ => []

/-- After the two calls the slots of every signal a rule names hold the same. -/
def NoInfluence (t₁ t₂ : Transition (Option ProofRequestAccount) Call) : Prop :=
  match t₁.call with
  | .prove ctx _ _ =>
      ∀ signals ∈ ctx.circuit.data.signals, ∀ slot ∈ namedSlots signals ctx.policy.data.rules,
        heldAt t₁.post slot = heldAt t₂.post slot
  | _ => True

/-- Of the slots of those signals, the written ones are there in both runs or in
    neither, and the others were submitted alike. -/
def SuppliedAlike (t₁ t₂ : Transition (Option ProofRequestAccount) Call) : Prop :=
  match t₁.call with
  | .prove ctx _ _ =>
      ∀ signals ∈ ctx.circuit.data.signals, ∀ slot ∈ namedSlots signals ctx.policy.data.rules,
        if ∃ w ∈ proveWrites signals ctx.issuer ctx.policy.data.rules, w.1 = slot then
          (slot < (received t₁).length ↔ slot < (received t₂).length)
        else (received t₁)[slot]? = (received t₂)[slot]?
  | _ => True

instance (t₁ t₂ : Transition (Option ProofRequestAccount) Call) :
    Decidable (SuppliedAlike t₁ t₂) :=
  match t₁ with
  | ⟨pre, .prove ctx data now, post⟩ =>
      inferInstanceAs (Decidable (∀ signals ∈ ctx.circuit.data.signals,
        ∀ slot ∈ namedSlots signals ctx.policy.data.rules,
          if ∃ w ∈ proveWrites signals ctx.issuer ctx.policy.data.rules, w.1 = slot then
            (slot < (received ⟨pre, .prove ctx data now, post⟩).length
              ↔ slot < (received t₂).length)
          else (received ⟨pre, .prove ctx data now, post⟩)[slot]? = (received t₂)[slot]?))
  | ⟨_, .create _ _ _, _⟩ => isTrue trivial
  | ⟨_, .verify _ _, _⟩ => isTrue trivial
  | ⟨_, .update _ _ _, _⟩ => isTrue trivial
  | ⟨_, .delete _ _, _⟩ => isTrue trivial

/-! ## The same writes on two arrays -/

/-- A slot that is written holds the same afterwards when it is there in both arrays
    or in neither. -/
theorem writeAll_getElem?_eq_iff_of_written {ws : List SlotWrite} {slot : Nat}
    (hw : ∃ w ∈ ws, w.1 = slot) (inputs₁ inputs₂ : List (Bytes 32)) :
    (writeAll inputs₁ ws)[slot]? = (writeAll inputs₂ ws)[slot]? ↔
      (slot < inputs₁.length ↔ slot < inputs₂.length) := by
  obtain ⟨w, hmem, rfl⟩ := hw
  obtain ⟨v, hv⟩ := lastWrite_isSome hmem
  -- written to an array that reaches the slot, or not there at all
  have hheld : ∀ inputs : List (Bytes 32),
      (writeAll inputs ws)[w.1]? = if w.1 < inputs.length then some v else none := by
    intro inputs
    by_cases hlt : w.1 < inputs.length
    · rw [if_pos hlt, writeAll_getElem? _ _ hlt, hv, Option.some_or]
    · rw [if_neg hlt, List.getElem?_eq_none]
      rw [writeAll_length]
      exact Nat.not_lt.mp hlt
  rw [hheld, hheld]
  by_cases h₁ : w.1 < inputs₁.length <;> by_cases h₂ : w.1 < inputs₂.length <;>
    simp [h₁, h₂]

/-- A slot that is not written holds what it held. -/
theorem writeAll_getElem?_of_not_written {ws : List SlotWrite} {slot : Nat}
    (hw : ¬ ∃ w ∈ ws, w.1 = slot) (inputs : List (Bytes 32)) :
    (writeAll inputs ws)[slot]? = inputs[slot]? := by
  by_cases hlt : slot < inputs.length
  · rw [writeAll_getElem? _ _ hlt, lastWrite_eq_none, Option.none_or]
    intro w hmem heq
    exact hw ⟨w, hmem, heq⟩
  · rw [List.getElem?_eq_none (Nat.not_lt.mp hlt), List.getElem?_eq_none]
    rw [writeAll_length]
    exact Nat.not_lt.mp hlt

/-- What a proof-carrying step leaves in a slot. -/
theorem heldAt_of_step {rt : Runtime} {seeds : ProofRequestSeeds}
    {t : Transition (Option ProofRequestAccount) Call} {ctx : ProveProofRequest}
    {data : ProveProofRequestData} {now : Int}
    (hstep : step rt seeds t.pre t.call = .ok t.post) (hcall : t.call = .prove ctx data now)
    (hproof : data.proof.isSome) :
    ∃ signals, ctx.circuit.data.signals = some signals ∧
      ∀ slot, heldAt t.post slot
        = (writeAll (received t)
            (proveWrites signals ctx.issuer ctx.policy.data.rules))[slot]? := by
  have hstep' := hstep
  rw [hcall] at hstep'
  obtain ⟨a, b, signals, hpre, hpost, -, hacc⟩ := acceptedProof_of_step hstep' hproof
  refine ⟨signals, hacc.layout, ?_⟩
  intro slot
  have hreceived : received t = (receiveInputs data a.request).publicInputs := by
    rw [received, hcall, hpre]
  rw [hpost, hreceived, ← hacc.inputs]
  rfl

/-- **THE OWNER HAS NO INFLUENCE, EXACTLY WHEN …**  Two runs that differ in the
    submitted public inputs only and end with a proof-carrying call leave the same in
    all slots of the signals that the rules name, if and only if those slots that no
    write reaches were submitted alike, and the others exist in both or in neither. -/
theorem no_influence_iff (rt : Runtime) (seeds : ProofRequestSeeds) (h₁ h₂ : History)
    (t₁ t₂ : Transition (Option ProofRequestAccount) Call)
    (s₁ s₂ : Option ProofRequestAccount)
    (r₁ : Run (step rt seeds) none (t₁ :: h₁) s₁)
    (r₂ : Run (step rt seeds) none (t₂ :: h₂) s₂)
    (hsame : SameRuns (t₁ :: h₁) (t₂ :: h₂)) (hproof : t₁.call.CarriesProof) :
    NoInfluence t₁ t₂ ↔ SuppliedAlike t₁ t₂ := by
  obtain ⟨ctx, data, now, hcall, hsome⟩ := hproof
  have hcalls := (List.forall₂_cons.mp hsame).1
  -- the second call brings the same accounts, and a proof as well
  obtain ⟨data', hcall', hsome'⟩ : ∃ data', t₂.call = .prove ctx data' now ∧
      data'.proof.isSome := by
    rw [hcall] at hcalls
    generalize t₂.call = c at hcalls
    cases hcalls with
    | prove _ _ publicInputs _ => exact ⟨{ data with publicInputs }, rfl, hsome⟩
    | other _ => exact ⟨data, rfl, hsome⟩
  obtain ⟨signals, hsig, hheld₁⟩ := heldAt_of_step r₁.tail.2 hcall hsome
  obtain ⟨signals', hsig', hheld₂⟩ := heldAt_of_step r₂.tail.2 hcall' hsome'
  rw [hsig] at hsig'
  obtain rfl := Option.some.inj hsig'
  have hslot : ∀ slot, heldAt t₁.post slot = heldAt t₂.post slot ↔
      if ∃ w ∈ proveWrites signals ctx.issuer ctx.policy.data.rules, w.1 = slot then
        (slot < (received t₁).length ↔ slot < (received t₂).length)
      else (received t₁)[slot]? = (received t₂)[slot]? := by
    intro slot
    rw [hheld₁, hheld₂]
    by_cases hw : ∃ w ∈ proveWrites signals ctx.issuer ctx.policy.data.rules, w.1 = slot
    · rw [if_pos hw]
      exact writeAll_getElem?_eq_iff_of_written hw _ _
    · rw [if_neg hw, writeAll_getElem?_of_not_written hw,
        writeAll_getElem?_of_not_written hw]
  rw [NoInfluence, SuppliedAlike, hcall]
  constructor
  · intro hno signals' hs slot hnamed
    rw [hsig] at hs
    obtain rfl := Option.some.inj hs
    exact (hslot slot).mp (hno signals hsig slot hnamed)
  · intro halike signals' hs slot hnamed
    rw [hsig] at hs
    obtain rfl := Option.some.inj hs
    exact (hslot slot).mpr (halike signals hsig slot hnamed)

/-! ### The second word of a lookup -/

namespace SecondWord

/-- `countryLookup` is two words, and the policy lists one. -/
def circuit : Account Circuit := Sample.circuit ["countryLookup[2]"] 2

def rules : List PolicyRule := [⟨"countryLookup", Bytes.ofNum 32 0x4445⟩]

/-- The request before the inputs come. -/
def created : History × Option ProofRequestAccount :=
  exec (step Sample.runtime Sample.seeds) none [Sample.create rules]

/-- All inputs, and the proof with them. -/
def prove (inputs : List (Bytes 32)) : Call :=
  Sample.prove rules circuit none (some Sample.proof) inputs

/-- The transition of the call, as far as it succeeds. -/
def transition (inputs : List (Bytes 32)) :
    Transition (Option ProofRequestAccount) Call where
  pre := created.2
  call := prove inputs
  post := (step Sample.runtime Sample.seeds created.2 (prove inputs)).toOption.join

theorem run_transition {inputs : List (Bytes 32)}
    (h : (step Sample.runtime Sample.seeds created.2 (prove inputs)).isOk) :
    Run (step Sample.runtime Sample.seeds) none (transition inputs :: created.1)
      (transition inputs).post := by
  obtain ⟨s', hok⟩ := exists_ok h
  have hpost : (transition inputs).post = s' := by
    show (step Sample.runtime Sample.seeds created.2 (prove inputs)).toOption.join = s'
    rw [hok]
    rfl
  have hstep : step Sample.runtime Sample.seeds created.2 (prove inputs)
      = .ok (transition inputs).post := by
    rw [hpost]
    exact hok
  exact Run.step (run_exec _ _ _) hstep

theorem sameRuns (inputs inputs' : List (Bytes 32)) :
    SameRuns (transition inputs :: created.1) (transition inputs' :: created.1) := by
  refine List.Forall₂.cons ?_ ?_
  · exact Call.SameButInputs.prove _ _ inputs' _
  · exact List.forall₂_same.mpr fun t _ => Call.SameButInputs.other t.call

/-- What the SDK sends. -/
def padded : List (Bytes 32) := [Bytes.ofNum 32 0x4445, Bytes.ofNum 32 0]

/-- Another first word: the rule is written over it. -/
def overwritten : List (Bytes 32) := [Bytes.ofNum 32 0x5255, Bytes.ofNum 32 0]

/-- Another second word. -/
def chosen : List (Bytes 32) := [Bytes.ofNum 32 0x4445, Bytes.ofNum 32 0x5255]

end SecondWord

/-- The first word is not the owner's to choose. -/
theorem no_influence_sample :
    NoInfluence (SecondWord.transition SecondWord.padded)
      (SecondWord.transition SecondWord.overwritten) :=
  (no_influence_iff Sample.runtime Sample.seeds _ _ _ _ _ _
    (SecondWord.run_transition (by decide +kernel))
    (SecondWord.run_transition (by decide +kernel))
    (SecondWord.sameRuns _ _)
    ((carriesProof_prove _ _ _).mpr rfl)).mpr (by decide +kernel)

/-- **THE OWNER FILLS A POLICY SIGNAL**: two runs that differ in the submitted inputs
    end with different words in the second slot of `countryLookup`. -/
theorem no_influence_fails :
    ∃ (h₁ h₂ : History) (t₁ t₂ : Transition (Option ProofRequestAccount) Call)
      (s₁ s₂ : Option ProofRequestAccount),
      Run (step Sample.runtime Sample.seeds) none (t₁ :: h₁) s₁ ∧
      Run (step Sample.runtime Sample.seeds) none (t₂ :: h₂) s₂ ∧
      SameRuns (t₁ :: h₁) (t₂ :: h₂) ∧ t₁.call.CarriesProof ∧
      ¬ NoInfluence t₁ t₂ ∧
      heldAt t₁.post 1 = some (Bytes.ofNum 32 0) ∧
      heldAt t₂.post 1 = some (Bytes.ofNum 32 0x5255) := by
  have hheld : heldAt (SecondWord.transition SecondWord.padded).post 1
      = some (Bytes.ofNum 32 0) := by decide +kernel
  have hheld' : heldAt (SecondWord.transition SecondWord.chosen).post 1
      = some (Bytes.ofNum 32 0x5255) := by decide +kernel
  refine ⟨_, _, _, _, _, _, SecondWord.run_transition (by decide +kernel),
    SecondWord.run_transition (by decide +kernel),
    SecondWord.sameRuns SecondWord.padded SecondWord.chosen,
    (carriesProof_prove _ _ _).mpr rfl, ?_, hheld, hheld'⟩
  intro hno
  have hsame := hno { data := [("countryLookup", ⟨0, 2⟩)], count := 2 } (by decide) 1
    (by decide)
  rw [hheld, hheld'] at hsame
  exact absurd hsame (by decide)

end Albus.Program
