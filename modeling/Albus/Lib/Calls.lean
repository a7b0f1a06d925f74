import Mathlib.Data.List.Basic

/-! # Calls that fail

    A machine answers every call, with a result or an error, and stands in some state
    afterwards whatever the answer was.  An error may say that the call hangs: then
    nothing is called after it.

    Two states are alike when no later calls tell them apart.  A call FAILS CLEANLY when
    it ends in an error and leaves a state that is like the one it found. -/

namespace Albus.Lib

universe u v w x y

structure Machine (σ : Type u) (κ : Type v) (ε : Type w) (ρ : Type x) where
  call : σ → κ → Except ε ρ × σ
  /-- The call does not end. -/
  hangs : ε → Bool

namespace Machine

variable {σ : Type u} {κ : Type v} {ε : Type w} {ρ : Type x} (M : Machine σ κ ε ρ)

/-! ## Runs -/

/-- The state after a call. -/
def after (s : σ) (c : κ) : σ := (M.call s c).2

/-- The state after a list of calls. -/
def run (s : σ) (calls : List κ) : σ := calls.foldl M.after s

/-- Every call meets the guard in the state it is made in. -/
def Admits (guard : σ → κ → Prop) : σ → List κ → Prop
  | _, [] => True
  | s, c :: calls => guard s c ∧ Admits guard (M.after s c) calls

instance decidableAdmits (guard : σ → κ → Prop) [∀ s c, Decidable (guard s c)] :
    ∀ s calls, Decidable (M.Admits guard s calls)
  | _, [] => inferInstanceAs (Decidable True)
  | s, c :: calls =>
    have := decidableAdmits guard (M.after s c) calls
    inferInstanceAs (Decidable (_ ∧ _))

/-- What the calls of a run contribute, each in the state it is made in. -/
def collect {α : Type y} (f : σ → κ → List α) : σ → List κ → List α
  | _, [] => []
  | s, c :: calls => f s c ++ collect f (M.after s c) calls

variable {M}

/-- **RUN RULE.**  What every call meeting the guard preserves, on contributions from
    `items`, holds at the end of a run. -/
theorem Admits.run_invariant {α : Type y} {guard : σ → κ → Prop} {f : σ → κ → List α}
    {items : List α} {P : σ → Prop}
    (hstep : ∀ s c, P s → guard s c → (∀ x ∈ f s c, x ∈ items) → P (M.after s c)) :
    ∀ {calls : List κ} {s : σ}, M.Admits guard s calls → P s →
      (∀ x ∈ M.collect f s calls, x ∈ items) → P (M.run s calls)
  | [], _, _, h, _ => h
  | c :: calls, s, hadm, h, hitems => by
      obtain ⟨hguard, hrest⟩ := hadm
      have hhead : ∀ x ∈ f s c, x ∈ items := fun x hx => hitems x (List.mem_append_left _ hx)
      exact hrest.run_invariant hstep (hstep s c h hguard hhead)
        fun x hx => hitems x (List.mem_append_right _ hx)

/-! ## What a caller sees -/

variable (M)

/-- The answers to a list of calls; the last one may be that a call hangs. -/
def answers : σ → List κ → List (Except ε ρ)
  | _, [] => []
  | s, c :: calls =>
    match M.call s c with
    | (.error e, s') => .error e :: if M.hangs e then [] else answers s' calls
    | (.ok r, s') => .ok r :: answers s' calls

/-- No later calls tell the states apart. -/
def Alike (s s' : σ) : Prop := ∀ later, M.answers s later = M.answers s' later

/-- The call ends in an error, and afterwards all is as if it had not been made. -/
def FailsCleanly (s : σ) (c : κ) : Prop :=
  ∃ e s', M.call s c = (.error e, s') ∧ M.hangs e = false ∧ M.Alike s' s

variable {M} {s s' : σ} {c : κ} {e : ε} {r : ρ}

theorem answers_head? (calls : List κ) :
    (M.answers s (c :: calls)).head? = some (M.call s c).1 := by
  rw [answers]
  split <;> simp_all

theorem answers_of_error (h : M.call s c = (.error e, s')) (hend : M.hangs e = false)
    (calls : List κ) : M.answers s (c :: calls) = .error e :: M.answers s' calls := by
  rw [answers, h]
  simp [hend]

/-- States that are alike answer alike. -/
theorem Alike.answer (h : M.Alike s s') (c : κ) : (M.call s c).1 = (M.call s' c).1 := by
  have hhead := congrArg List.head? (h [c])
  rw [answers_head?, answers_head?] at hhead
  exact Option.some.inj hhead

/-- They stay alike when a call fails. -/
theorem Alike.after_error {t t' : σ} (h : M.Alike s s') (hc : M.call s c = (.error e, t))
    (hc' : M.call s' c = (.error e, t')) (hend : M.hangs e = false) : M.Alike t t' := by
  intro later
  have hall := h (c :: later)
  rw [answers_of_error hc hend, answers_of_error hc' hend] at hall
  exact (List.cons.inj hall).2

theorem failsCleanly_of_unchanged (h : M.call s c = (.error e, s))
    (hend : M.hangs e = false) : M.FailsCleanly s c :=
  ⟨e, s, h, hend, fun _ => rfl⟩

theorem not_failsCleanly_of_ok (h : M.call s c = (.ok r, s')) : ¬ M.FailsCleanly s c := by
  rintro ⟨e, t, ht, -⟩
  rw [h] at ht
  exact nomatch (Prod.mk.inj ht).1

theorem not_failsCleanly_of_hangs (h : M.call s c = (.error e, s'))
    (hhangs : M.hangs e = true) : ¬ M.FailsCleanly s c := by
  rintro ⟨e', t, ht, hend, -⟩
  rw [h] at ht
  obtain rfl := Except.error.inj (Prod.mk.inj ht).1
  exact Bool.false_ne_true (hend.symm.trans hhangs)

end Machine

end Albus.Lib
