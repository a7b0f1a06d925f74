import Albus.Lib.Run

/-! # Two machines in lockstep

    A relation on the states of two partial machines that every call keeps, the
    failures included: then whatever is called, both do the same calls and stay
    related.  Where the calls return something, both return the same. -/

namespace Albus.Lib

universe u v w x y

variable {σ : Type u} {τ : Type v} {α : Type w} {ε : Type x}

/-- Both fail alike, or both succeed in related states. -/
def Matches (R : σ → τ → Prop) : Except ε σ → Except ε τ → Prop
  | .ok s, .ok t => R s t
  | .error e, .error e' => e = e'
  | _, _ => False

variable {R : σ → τ → Prop} {step : σ → α → Except ε σ} {step' : τ → α → Except ε τ}

/-- One call after two histories of the same calls. -/
theorem Matches.advance {p : List (Transition σ α) × σ} {q : List (Transition τ α) × τ} {a : α}
    (hcalls : p.1.map Transition.call = q.1.map Transition.call) (hR : R p.2 q.2)
    (h : Matches R (step p.2 a) (step' q.2 a)) :
    (advance step p a).1.map Transition.call = (advance step' q a).1.map Transition.call ∧
      R (advance step p a).2 (advance step' q a).2 := by
  rw [Lib.advance, Lib.advance]
  cases hs : step p.2 a with
  | ok s =>
      rw [hs] at h
      cases ht : step' q.2 a with
      | ok t =>
          rw [ht] at h
          exact ⟨congrArg (List.cons a) hcalls, h⟩
      | error e =>
          rw [ht] at h
          exact h.elim
  | error e =>
      rw [hs] at h
      cases ht : step' q.2 a with
      | ok t =>
          rw [ht] at h
          exact h.elim
      | error e' => exact ⟨hcalls, hR⟩

/-- **LOCKSTEP.** From related states every list of calls leads to related states, by the same
    successful calls. -/
theorem exec_matches (hstep : ∀ s t a, R s t → Matches R (step s a) (step' t a))
    (calls : List α) {s : σ} {t : τ} (h : R s t) :
    (exec step s calls).1.map Transition.call = (exec step' t calls).1.map Transition.call ∧
      R (exec step s calls).2 (exec step' t calls).2 := by
  have hfold : ∀ (p : List (Transition σ α) × σ) (q : List (Transition τ α) × τ),
      p.1.map Transition.call = q.1.map Transition.call → R p.2 q.2 →
      (calls.foldl (advance step) p).1.map Transition.call
          = (calls.foldl (advance step') q).1.map Transition.call ∧
        R (calls.foldl (advance step) p).2 (calls.foldl (advance step') q).2 := by
    induction calls with
    | nil => exact fun p q hcalls hR => ⟨hcalls, hR⟩
    | cons a calls ih =>
        intro p q hcalls hR
        obtain ⟨hcalls', hR'⟩ := Matches.advance hcalls hR (hstep p.2 q.2 a hR)
        exact ih _ _ hcalls' hR'
  exact hfold ([], s) ([], t) rfl h

/-! ## Calls that return something -/

section Serve

variable {β : Type y}

/-- A call in a transaction: one that fails leaves the state as it was. -/
def transact (step : σ → α → Except ε (σ × β)) (s : σ) (a : α) : σ × Except ε β :=
  match step s a with
  | .ok (s', b) => (s', .ok b)
  | .error e => (s, .error e)

/-- The state after calls one behind another, and what each of them returned. -/
def serve (step : σ → α → Except ε (σ × β)) (s : σ) : List α → σ × List (Except ε β)
  | [] => (s, [])
  | a :: calls =>
      let after := serve step (transact step s a).1 calls
      (after.1, (transact step s a).2 :: after.2)

/-- One call: related states again, and one answer. -/
theorem transact_matches {step : σ → α → Except ε (σ × β)} {step' : τ → α → Except ε (τ × β)}
    {s : σ} {t : τ} {a : α} (h : R s t)
    (hstep : Matches (fun p q => R p.1 q.1 ∧ p.2 = q.2) (step s a) (step' t a)) :
    (transact step s a).2 = (transact step' t a).2 ∧
      R (transact step s a).1 (transact step' t a).1 := by
  rw [transact, transact]
  cases hs : step s a with
  | ok p =>
      rw [hs] at hstep
      cases ht : step' t a with
      | ok q =>
          rw [ht] at hstep
          exact ⟨congrArg Except.ok hstep.2, hstep.1⟩
      | error e =>
          rw [ht] at hstep
          exact hstep.elim
  | error e =>
      rw [hs] at hstep
      cases ht : step' t a with
      | ok q =>
          rw [ht] at hstep
          exact hstep.elim
      | error e' =>
          rw [ht] at hstep
          exact ⟨congrArg Except.error hstep, h⟩

/-- **LOCKSTEP WITH ANSWERS.** From related states every list of calls is answered alike, and
    leads to related states. -/
theorem serve_matches {step : σ → α → Except ε (σ × β)} {step' : τ → α → Except ε (τ × β)}
    (hstep : ∀ s t a, R s t →
      Matches (fun p q => R p.1 q.1 ∧ p.2 = q.2) (step s a) (step' t a))
    (calls : List α) {s : σ} {t : τ} (h : R s t) :
    (serve step s calls).2 = (serve step' t calls).2 ∧
      R (serve step s calls).1 (serve step' t calls).1 := by
  induction calls generalizing s t with
  | nil => exact ⟨rfl, h⟩
  | cons a calls ih =>
      obtain ⟨hanswer, hnext⟩ := transact_matches h (hstep s t a h)
      obtain ⟨hanswers, hend⟩ := ih hnext
      refine ⟨?_, hend⟩
      rw [serve, serve]
      exact congrArg₂ List.cons hanswer hanswers

end Serve

end Albus.Lib
