import Albus.Program.StoredProof

/-! # Verification and the latest creation

    `create_proof_request` is `init_if_needed`: called again on a live request it
    sets the status back to `Pending` and `proved_at` to zero, and leaves the
    proof where it is.  `verify_proof_request` asks for a stored proof and for
    nothing else, so a re-created request is verified with the proof of its
    previous life.  The field that tells the two apart is `proved_at`, which the
    verification does not read. -/

namespace Albus.Program

open Albus.Lib

/-- A creation, a prove call with `reset`, or a close. -/
def Call.Clears : Call → Prop
  | .create _ _ _ => True
  | .prove _ data _ => data.reset = true
  | .verify _ _ => False
  | .update _ _ _ => False
  | .delete _ _ => True

instance : (c : Call) → Decidable c.Clears
  | .create _ _ _ => isTrue trivial
  | .prove _ data _ => inferInstanceAs (Decidable (data.reset = true))
  | .verify _ _ => isFalse id
  | .update _ _ _ => isFalse id
  | .delete _ _ => isTrue trivial

/-- A proof-carrying call has succeeded since the latest creation or reset; a
    call that resets and carries a proof counts. -/
def FreshProve (h : History) : Prop :=
  ∃ later t earlier, h = later ++ t :: earlier ∧ t.call.CarriesProof ∧
    ∀ t' ∈ later, ¬ t'.call.Clears

theorem not_freshProve_nil : ¬ FreshProve [] := by
  rintro ⟨later, t, earlier, heq, -⟩
  cases later <;> exact nomatch heq

theorem freshProve_cons_iff {t : Transition (Option ProofRequestAccount) Call}
    {h : History} :
    FreshProve (t :: h) ↔
      t.call.CarriesProof ∨ (¬ t.call.Clears ∧ FreshProve h) := by
  constructor
  · rintro ⟨later, u, earlier, heq, hu, hlater⟩
    cases later with
    | nil =>
        obtain ⟨rfl, -⟩ := List.cons.inj heq
        exact Or.inl hu
    | cons t' later =>
        obtain ⟨rfl, rfl⟩ := List.cons.inj heq
        exact Or.inr ⟨hlater t List.mem_cons_self, later, u, earlier, rfl, hu,
          fun t' ht' => hlater t' (List.mem_cons_of_mem _ ht')⟩
  · rintro (hc | ⟨hn, later, u, earlier, rfl, hu, hlater⟩)
    · exact ⟨[], t, h, rfl, hc, fun _ ht' => nomatch ht'⟩
    · refine ⟨t :: later, u, earlier, rfl, hu, ?_⟩
      intro t' ht'
      rcases List.mem_cons.mp ht' with heq | hmem
      · exact heq ▸ hn
      · exact hlater t' hmem

instance decidableFreshProve : (h : History) → Decidable (FreshProve h)
  | [] => isFalse not_freshProve_nil
  | t :: h =>
      have : Decidable (FreshProve h) := decidableFreshProve h
      decidable_of_iff (t.call.CarriesProof ∨ (¬ t.call.Clears ∧ FreshProve h))
        freshProve_cons_iff.symm

/-- **WHAT A CALL DOES TO `proved_at`**: a proof-carrying call sets it to the
    clock, a clearing one to zero or the account is gone, any other keeps it. -/
theorem provedAt_of_step {rt : Runtime} {seeds : ProofRequestSeeds}
    {acc acc' : Option ProofRequestAccount} {c : Call}
    (h : step rt seeds acc c = .ok acc') :
    (∃ ctx data now b, c = .prove ctx data now ∧ data.proof.isSome ∧
      acc' = some b ∧ b.request.provedAt = now) ∨
    (¬ c.CarriesProof ∧ c.Clears ∧ ∀ b, acc' = some b → b.request.provedAt = 0) ∨
    (¬ c.CarriesProof ∧ ¬ c.Clears ∧ ∃ a b, acc = some a ∧ acc' = some b ∧
      b.request.provedAt = a.request.provedAt) := by
  rcases step_cases h with
    ⟨ctx, data, now, req, sp, pol, req', rfl, -, -, hcreate, hacc'⟩ |
    ⟨ctx, data, now, a, req', rfl, hacc, hf, hacc'⟩ |
    ⟨ctx, now, a, req', rfl, hacc, hf, hacc'⟩ |
    ⟨authority, data, now, a, req', rfl, hacc, hf, hacc'⟩ |
    ⟨authority, now, a, rfl, -, -, hacc'⟩
  · -- a creation sets the time back, whatever the account held
    refine Or.inr (Or.inl ⟨not_carriesProof_create _ _ _, trivial, ?_⟩)
    intro b hb
    rw [hacc'] at hb
    obtain rfl := Option.some.inj hb
    obtain ⟨-, -, -, -, hzero, -⟩ := createProofRequest_ok hcreate
    exact hzero
  · obtain ⟨-, -, -, hcase⟩ := proveProofRequest_ok hf
    rcases hcase with ⟨hnone, rfl⟩ | ⟨proof, hsome, haccept⟩
    · -- a call without a proof: it resets, or sends a chunk of inputs
      have hcar : ¬ (Call.prove ctx data now).CarriesProof := by
        simp [hnone]
      cases hreset : data.reset with
      | true =>
          refine Or.inr (Or.inl ⟨hcar, hreset, ?_⟩)
          intro b hb
          rw [hacc', receiveInputs_reset hreset] at hb
          obtain rfl := Option.some.inj hb
          rfl
      | false =>
          refine Or.inr (Or.inr ⟨hcar, ?_, a, _, hacc, hacc', ?_⟩)
          · intro hclear
            have htrue : data.reset = true := hclear
            rw [hreset] at htrue
            exact nomatch htrue
          · rw [receiveInputs_append hreset]
    · obtain ⟨_, -, -, -, -, -, hat, -⟩ := acceptProof_ok haccept
      exact Or.inl ⟨ctx, data, now, _, rfl, by simp [hsome], hacc', hat⟩
  · obtain ⟨-, -, rfl⟩ := verifyProofRequest_ok hf
    exact Or.inr (Or.inr ⟨not_carriesProof_verify _ _, id, a, _, hacc, hacc', rfl⟩)
  · obtain ⟨-, rfl⟩ := updateProofRequest_ok hf
    exact Or.inr (Or.inr ⟨not_carriesProof_update _ _ _, id, a, _, hacc, hacc',
      rfl⟩)
  · refine Or.inr (Or.inl ⟨not_carriesProof_delete _ _, trivial, ?_⟩)
    intro b hb
    rw [hacc'] at hb
    exact nomatch hb

/-- A non-zero `proved_at` was set since the latest creation or reset. -/
theorem freshProve_of_provedAt {rt : Runtime} {seeds : ProofRequestSeeds}
    {h : History} {s : Option ProofRequestAccount}
    (r : Run (step rt seeds) none h s) :
    ∀ a, s = some a → a.request.provedAt ≠ 0 → FreshProve h := by
  refine r.always
    (I := fun h acc => ∀ a, acc = some a → a.request.provedAt ≠ 0 → FreshProve h) ?_ ?_
  · intro a ha
    exact nomatch ha
  · intro h acc c acc' ih hstep b hb hne
    rw [freshProve_cons_iff]
    rcases provedAt_of_step hstep with ⟨ctx, data, now, b', hc, hsome, -, -⟩ |
      ⟨-, -, hzero⟩ | ⟨-, hclear, a, b', ha, hb', heq⟩
    · exact Or.inl ⟨ctx, data, now, hc, hsome⟩
    · exact absurd (hzero b hb) hne
    · rw [hb] at hb'
      obtain rfl := Option.some.inj hb'
      exact Or.inr ⟨hclear, ih a ha (heq ▸ hne)⟩

/-- The clock of a proof-carrying call is past the epoch. -/
def Call.ClockSet (c : Call) : Prop :=
  ∀ ctx data now, c = .prove ctx data now → data.proof.isSome → now ≠ 0

/-- A proof since the latest creation or reset shows in `proved_at`. -/
theorem provedAt_of_freshProve {rt : Runtime} {seeds : ProofRequestSeeds}
    {h : History} {s : Option ProofRequestAccount}
    (r : Run (step rt seeds) none h s) (hclock : ∀ t ∈ h, t.call.ClockSet) :
    FreshProve h → ∃ a, s = some a ∧ a.request.provedAt ≠ 0 := by
  refine r.invariant (G := fun t => t.call.ClockSet)
    (I := fun h acc => FreshProve h → ∃ a, acc = some a ∧ a.request.provedAt ≠ 0)
    ?_ ?_ hclock
  · intro hf
    exact absurd hf not_freshProve_nil
  · intro h acc c acc' ih hstep hG hf
    rw [freshProve_cons_iff] at hf
    rcases provedAt_of_step hstep with ⟨ctx, data, now, b, hc, hsome, hb, hat⟩ |
      ⟨hcar, hclear, -⟩ | ⟨hcar, -, a, b, ha, hb, heq⟩
    · exact ⟨b, hb, hat ▸ hG ctx data now hc hsome⟩
    · rcases hf with hc | ⟨hn, -⟩
      · exact absurd hc hcar
      · exact absurd hclear hn
    · rcases hf with hc | ⟨-, hf⟩
      · exact absurd hc hcar
      · obtain ⟨a', ha', hne⟩ := ih hf
        rw [ha] at ha'
        obtain rfl := Option.some.inj ha'
        exact ⟨b, hb, heq ▸ hne⟩

/-- **VERIFICATION IS FRESH EXACTLY WHEN `proved_at` IS SET.**  In every run of
    all instructions, at every verification that succeeds: if the request's
    `proved_at` is non-zero, a proof-carrying call has succeeded since the latest
    creation or reset; and, clocks being past the epoch, only then. -/
theorem verify_fresh_iff (rt : Runtime) (seeds : ProofRequestSeeds) (h : History)
    (s : Option ProofRequestAccount) (r : Run (step rt seeds) none h s)
    (later earlier : History) (pre post : Option ProofRequestAccount)
    (ctx : VerifyProofRequest) (now : Int)
    (hh : h = later ++ ⟨pre, .verify ctx now, post⟩ :: earlier) :
    ∃ a, pre = some a ∧ (a.request.provedAt ≠ 0 → FreshProve earlier) ∧
      ((∀ t ∈ h, t.call.ClockSet) → FreshProve earlier →
        a.request.provedAt ≠ 0) := by
  obtain ⟨r', hstep⟩ := r.split hh
  obtain ⟨a, req', hpre, -, -⟩ := onAccount_ok hstep
  refine ⟨a, hpre, freshProve_of_provedAt r' a hpre, ?_⟩
  intro hclock hfresh
  have hclock' : ∀ t ∈ earlier, t.call.ClockSet := by
    intro t ht
    exact hclock t (hh ▸ List.mem_append_right later (List.mem_cons_of_mem _ ht))
  obtain ⟨a', ha', hne⟩ := provedAt_of_freshProve r' hclock' hfresh
  have hpre' : pre = some a := hpre
  have ha'' : pre = some a' := ha'
  rw [hpre'] at ha''
  obtain rfl := Option.some.inj ha''
  exact hne

namespace ReCreation

def circuit : Account Circuit := Sample.circuit ["timestamp"] 1

def inputs : List (Bytes 32) := [Bytes.ofNum 32 1700000000]

/-- A proved request. -/
def proved : List Call :=
  [Sample.create [], Sample.prove [] circuit none (some Sample.proof) inputs]

/-- The same, created again. -/
def reCreated : List Call := proved ++ [Sample.create []]

def run (calls : List Call) : History × Option ProofRequestAccount :=
  exec (step Sample.runtime Sample.seeds) none calls

end ReCreation

/-- A verification right after the proof is fresh. -/
theorem verify_fresh_proved :
    FreshProve (exec (step Sample.runtime Sample.seeds) none ReCreation.proved).1 := by
  obtain ⟨s', hok⟩ := exists_ok (x := step Sample.runtime Sample.seeds
    (exec (step Sample.runtime Sample.seeds) none ReCreation.proved).2
    (Sample.verify ReCreation.circuit)) (by decide +kernel)
  obtain ⟨a, hpre, hfresh, -⟩ := verify_fresh_iff Sample.runtime Sample.seeds _ _
    (run_exec_then hok) [] _ _ _ _ _ rfl
  refine hfresh ?_
  have hat : (exec (step Sample.runtime Sample.seeds) none
      ReCreation.proved).2.map (fun a => a.request.provedAt)
      = some 1700000000 := by decide +kernel
  rw [hpre] at hat
  have h0 : a.request.provedAt = 1700000000 := Option.some.inj hat
  rw [h0]
  decide

/-- **A RE-CREATED REQUEST IS VERIFIED WITHOUT A NEW PROOF.** -/
theorem verify_fresh_fails :
    ∃ (h : History) (s : Option ProofRequestAccount) (earlier : History)
      (pre post : Option ProofRequestAccount) (ctx : VerifyProofRequest),
      Run (step Sample.runtime Sample.seeds) none h s ∧
      h = ⟨pre, .verify ctx Sample.now, post⟩ :: earlier ∧
      (∃ a, pre = some a ∧ a.request.status = .pending) ∧
      (∃ b, post = some b ∧ b.request.status = .verified) ∧
      ¬ FreshProve earlier := by
  obtain ⟨s', hok⟩ := exists_ok (x := step Sample.runtime Sample.seeds
    (ReCreation.run ReCreation.reCreated).2 (Sample.verify ReCreation.circuit))
    (by decide +kernel)
  refine ⟨_, s', (ReCreation.run ReCreation.reCreated).1,
    (ReCreation.run ReCreation.reCreated).2, s',
    ⟨ReCreation.circuit, Sample.owner⟩, run_exec_then hok, ?_, ?_, ?_, ?_⟩
  · rfl
  · decide +kernel
  · exact verify_ok hok
  · decide +kernel

end Albus.Program
