import Mathlib.Algebra.Ring.Nat
import Mathlib.Data.List.Basic

/-! # Runs of a partial machine

    A machine is a partial step function `step : σ → α → Except ε σ`: a call
    either fails, and the state stays as it was, or succeeds with a new state.
    A run is recorded by its history of successful steps, LATEST FIRST, so that
    "the latest step such that …" is a `find?` and "since the latest …" is a
    prefix of the list. -/

namespace Albus.Lib

universe u v w

variable {σ : Type u} {α : Type v} {ε : Type w}

/-- One successful step, with the states around it. -/
structure Transition (σ : Type u) (α : Type v) where
  pre : σ
  call : α
  post : σ

/-- `Run step s₀ h s`: the machine goes from `s₀` to `s` by the successful steps
    recorded in `h`, latest first. -/
inductive Run (step : σ → α → Except ε σ) (s₀ : σ) :
    List (Transition σ α) → σ → Prop where
  | init : Run step s₀ [] s₀
  | step {h : List (Transition σ α)} {s s' : σ} {a : α} :
      Run step s₀ h s → step s a = .ok s' → Run step s₀ (⟨s, a, s'⟩ :: h) s'

variable {step : σ → α → Except ε σ} {s₀ : σ}

/-- A run without steps ends where it starts. -/
theorem Run.eq_start {s : σ} (r : Run step s₀ [] s) : s = s₀ := by
  cases r
  rfl

/-- A run ends where its latest step does. -/
theorem Run.post_eq {t : Transition σ α} {h : List (Transition σ α)} {s : σ}
    (r : Run step s₀ (t :: h) s) : t.post = s := by
  cases r
  rfl

/-- Taking the latest step off a run leaves a run up to its start. -/
theorem Run.tail {t : Transition σ α} {h : List (Transition σ α)} {s : σ}
    (r : Run step s₀ (t :: h) s) :
    Run step s₀ h t.pre ∧ step t.pre t.call = .ok t.post := by
  cases r with
  | step r' hs => exact ⟨r', hs⟩

/-- Every recorded step is a step of the machine, taken at the end of a run of
    the steps recorded before it. -/
theorem Run.split {h : List (Transition σ α)} {s : σ} (r : Run step s₀ h s)
    {later earlier : List (Transition σ α)} {t : Transition σ α}
    (hh : h = later ++ t :: earlier) :
    Run step s₀ earlier t.pre ∧ step t.pre t.call = .ok t.post := by
  induction later generalizing h s with
  | nil =>
      subst hh
      exact r.tail
  | cons t' later ih =>
      subst hh
      exact ih r.tail.1 rfl

theorem Run.run_of_mem {h : List (Transition σ α)} {s : σ} (r : Run step s₀ h s)
    {t : Transition σ α} (ht : t ∈ h) :
    ∃ earlier, Run step s₀ earlier t.pre ∧ step t.pre t.call = .ok t.post := by
  obtain ⟨later, earlier, hh⟩ := List.append_of_mem ht
  exact ⟨earlier, r.split hh⟩

theorem Run.step_of_mem {h : List (Transition σ α)} {s : σ} (r : Run step s₀ h s)
    {t : Transition σ α} (ht : t ∈ h) : step t.pre t.call = .ok t.post := by
  obtain ⟨_, -, hs⟩ := r.run_of_mem ht
  exact hs

/-- A property of the start and of what every step left holds at the end. -/
theorem Run.at_end {P : σ → Prop} (h0 : P s₀) {h : List (Transition σ α)} {s : σ}
    (r : Run step s₀ h s) (hall : ∀ t ∈ h, P t.post) : P s := by
  cases r with
  | init => exact h0
  | step _ _ => exact hall _ List.mem_cons_self

/-- **INVARIANT RULE.** A property of the history and the state that holds at the
    start, and that every successful step meeting the guard `G` preserves, holds
    at the end of every run whose steps all meet `G`. -/
theorem Run.invariant {G : Transition σ α → Prop}
    {I : List (Transition σ α) → σ → Prop} (h0 : I [] s₀)
    (hstep : ∀ h s a s', I h s → step s a = .ok s' → G ⟨s, a, s'⟩ →
      I (⟨s, a, s'⟩ :: h) s')
    {h : List (Transition σ α)} {s : σ} (r : Run step s₀ h s)
    (hG : ∀ t ∈ h, G t) : I h s := by
  induction r with
  | init => exact h0
  | @step h s s' a r' hs ih =>
      have hpre : I h s := ih (fun t ht => hG t (List.mem_cons_of_mem _ ht))
      exact hstep h s a s' hpre hs (hG _ List.mem_cons_self)

/-- The invariant rule without a guard: every successful step preserves `I`. -/
theorem Run.always {I : List (Transition σ α) → σ → Prop} (h0 : I [] s₀)
    (hstep : ∀ h s a s', I h s → step s a = .ok s' → I (⟨s, a, s'⟩ :: h) s')
    {h : List (Transition σ α)} {s : σ} (r : Run step s₀ h s) : I h s :=
  r.invariant (G := fun _ => True) h0 (fun h s a s' hi hs _ => hstep h s a s' hi hs)
    (fun _ _ => trivial)

/-- The same rule for a property of the state alone. -/
theorem Run.preserves {P : σ → Prop} (h0 : P s₀)
    (hstep : ∀ s a s', P s → step s a = .ok s' → P s')
    {h : List (Transition σ α)} {s : σ} (r : Run step s₀ h s) : P s :=
  r.always (I := fun _ s => P s) h0 (fun _ s a s' hp hs => hstep s a s' hp hs)

/-- The invariant rule at a recorded step: it holds before and after it. -/
theorem Run.invariant_at {G : Transition σ α → Prop}
    {I : List (Transition σ α) → σ → Prop} (h0 : I [] s₀)
    (hstep : ∀ h s a s', I h s → step s a = .ok s' → G ⟨s, a, s'⟩ →
      I (⟨s, a, s'⟩ :: h) s')
    {h : List (Transition σ α)} {s : σ} (r : Run step s₀ h s)
    (hG : ∀ t ∈ h, G t) {later earlier : List (Transition σ α)}
    {t : Transition σ α} (hh : h = later ++ t :: earlier) :
    I earlier t.pre ∧ I (t :: earlier) t.post := by
  obtain ⟨r', hs⟩ := r.split hh
  have hG' : ∀ t' ∈ t :: earlier, G t' := by
    intro t' ht'
    exact hG t' (hh ▸ List.mem_append_right later ht')
  exact ⟨r'.invariant h0 hstep (fun t' ht' => hG' t' (List.mem_cons_of_mem _ ht')),
    (Run.step r' hs).invariant h0 hstep hG'⟩

/-- The invariant rule for the states a run goes through. -/
theorem Run.forall_post {G : Transition σ α → Prop} {P : σ → Prop} (h0 : P s₀)
    (hstep : ∀ s a s', P s → step s a = .ok s' → G ⟨s, a, s'⟩ → P s')
    {h : List (Transition σ α)} {s : σ} (r : Run step s₀ h s) (hG : ∀ t ∈ h, G t) :
    ∀ t ∈ h, P t.post := by
  intro t ht
  obtain ⟨later, earlier, hh⟩ := List.append_of_mem ht
  exact (r.invariant_at (I := fun _ s => P s) h0
    (fun _ s a s' hp hs hg => hstep s a s' hp hs hg) hG hh).2

/-! ## Quantities along a run -/

/-- What a step adds to a quantity. -/
def Transition.gain (f : σ → ℕ) (t : Transition σ α) : ℕ := f t.post - f t.pre

/-- What it takes away. -/
def Transition.loss (f : σ → ℕ) (t : Transition σ α) : ℕ := f t.pre - f t.post

/-- What a run adds and takes away is the difference of its ends. -/
theorem Run.sum_gain (f : σ → ℕ) {h : List (Transition σ α)} {s : σ} (r : Run step s₀ h s) :
    f s₀ + (h.map (Transition.gain f)).sum = f s + (h.map (Transition.loss f)).sum := by
  induction r with
  | init => rfl
  | @step h s s' a r' hs ih =>
      rw [List.map_cons, List.map_cons, List.sum_cons, List.sum_cons]
      show f s₀ + (f s' - f s + _) = f s' + (f s - f s' + _)
      omega

/-! ## The latest step such that … -/

/-- `t` is the latest step of the history that satisfies `P`. -/
def Latest (P : Transition σ α → Prop) (h : List (Transition σ α))
    (t : Transition σ α) : Prop :=
  ∃ later earlier, h = later ++ t :: earlier ∧ P t ∧ ∀ t' ∈ later, ¬ P t'

theorem Latest.head {P : Transition σ α → Prop} {h : List (Transition σ α)}
    {t : Transition σ α} (ht : P t) : Latest P (t :: h) t :=
  ⟨[], h, rfl, ht, fun _ ht' => nomatch ht'⟩

/-- A step without `P` leaves the latest one with `P` as it was. -/
theorem Latest.cons {P : Transition σ α → Prop} {h : List (Transition σ α)}
    {t t' : Transition σ α} (hl : Latest P h t) (ht' : ¬ P t') :
    Latest P (t' :: h) t := by
  obtain ⟨later, earlier, rfl, ht, hlater⟩ := hl
  refine ⟨t' :: later, earlier, rfl, ht, ?_⟩
  intro u hu
  rcases List.mem_cons.mp hu with rfl | hmem
  · exact ht'
  · exact hlater u hmem

/-! ## Executing a list of calls -/

/-- One more call after a history: a failing call leaves no trace. -/
def advance (step : σ → α → Except ε σ) (p : List (Transition σ α) × σ) (a : α) :
    List (Transition σ α) × σ :=
  match step p.2 a with
  | .ok s' => (⟨p.2, a, s'⟩ :: p.1, s')
  | .error _ => p

/-- The history and the final state of a list of calls. -/
def exec (step : σ → α → Except ε σ) (s₀ : σ) (calls : List α) :
    List (Transition σ α) × σ :=
  calls.foldl (advance step) ([], s₀)

private theorem run_foldl_advance (calls : List α) {p : List (Transition σ α) × σ}
    (hp : Run step s₀ p.1 p.2) :
    Run step s₀ (calls.foldl (advance step) p).1
      (calls.foldl (advance step) p).2 := by
  induction calls generalizing p with
  | nil => exact hp
  | cons a calls ih =>
      rw [List.foldl_cons]
      refine ih ?_
      rw [advance]
      cases hs : step p.2 a with
      | ok s' => exact Run.step hp hs
      | error e => exact hp

/-- Whatever is called, in whatever order, the successful calls form a run. -/
theorem run_exec (step : σ → α → Except ε σ) (s₀ : σ) (calls : List α) :
    Run step s₀ (exec step s₀ calls).1 (exec step s₀ calls).2 :=
  run_foldl_advance calls Run.init

private theorem calls_foldl_advance (step : σ → α → Except ε σ) (calls : List α)
    (p : List (Transition σ α) × σ) :
    ((calls.foldl (advance step) p).1.map fun t => t.call).Sublist
      (calls.reverse ++ p.1.map fun t => t.call) := by
  induction calls generalizing p with
  | nil => exact List.Sublist.refl _
  | cons a calls ih =>
      rw [List.foldl_cons, List.reverse_cons, List.append_assoc, List.singleton_append]
      refine (ih (advance step p a)).trans (List.Sublist.append_left ?_ _)
      rw [advance]
      cases step p.2 a with
      | ok s' => exact List.Sublist.refl _
      | error e => exact List.sublist_cons_self _ _

/-- The recorded calls are some of those made, latest first. -/
theorem exec_calls_sublist (step : σ → α → Except ε σ) (s₀ : σ) (calls : List α) :
    ((exec step s₀ calls).1.map fun t => t.call).Sublist calls.reverse := by
  have hsub := calls_foldl_advance step calls ([], s₀)
  rw [List.map_nil, List.append_nil] at hsub
  exact hsub

/-- Nothing is recorded that was not called. -/
theorem call_mem_of_mem_exec {calls : List α} {t : Transition σ α}
    (ht : t ∈ (exec step s₀ calls).1) : t.call ∈ calls :=
  List.mem_reverse.mp ((exec_calls_sublist step s₀ calls).subset (List.mem_map_of_mem ht))

/-- What holds of every call that is made holds of every recorded one. -/
theorem forall_exec {P : α → Prop} {calls : List α} (h : ∀ a ∈ calls, P a) :
    ∀ t ∈ (exec step s₀ calls).1, P t.call :=
  fun _ ht => h _ (call_mem_of_mem_exec ht)

/-- If none of the calls fails, the history is made of them. -/
theorem exec_calls {calls : List α}
    (h : (exec step s₀ calls).1.length = calls.length) :
    ((exec step s₀ calls).1.map fun t => t.call) = calls.reverse := by
  refine (exec_calls_sublist step s₀ calls).eq_of_length ?_
  rw [List.length_map, List.length_reverse]
  exact h

theorem exists_ok {β : Type u} {x : Except ε β} (h : x.isOk = true) :
    ∃ b, x = .ok b := by
  cases x with
  | ok b => exact ⟨b, rfl⟩
  | error e => exact nomatch h

theorem ok_of_isOk {β : Type u} {x : Except ε β} (h : x.isOk = true) (default : β) :
    x = .ok (match x with | .ok b => b | .error _ => default) := by
  cases x with
  | ok b => rfl
  | error e => exact nomatch h

/-- The state after a call; the old one where it fails. -/
@[irreducible] def afterCall (step : σ → α → Except ε σ) (s : σ) (a : α) : σ :=
  match step s a with
  | .ok s' => s'
  | .error _ => s

theorem step_afterCall {s : σ} {a : α} (h : (step s a).isOk = true) :
    step s a = .ok (afterCall step s a) := by
  unfold afterCall
  cases hs : step s a with
  | ok s' => rfl
  | error e =>
      rw [hs] at h
      exact nomatch h

/-- One more call that succeeds, after a list of calls. -/
theorem run_exec_then {calls : List α} {a : α} {s' : σ}
    (h : step (exec step s₀ calls).2 a = .ok s') :
    Run step s₀ (⟨(exec step s₀ calls).2, a, s'⟩ :: (exec step s₀ calls).1) s' :=
  Run.step (run_exec step s₀ calls) h

end Albus.Lib
