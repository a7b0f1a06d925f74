import Mathlib.Data.Nat.Notation

/-! # While loops

    A loop is a test and a body on states.  `Ends` is its big-step meaning with the
    number of times the body runs: a derivation is a finite run, so to prove that
    there is one is to prove termination.

    `runWhile` runs a loop whose body may itself not come out; `fuel` bounds the rounds,
    and `none` is a run that has not ended within them. -/

namespace Albus.Lib

universe u

variable {σ : Type u}

/-- `Ends test body k s e`: from `s` the loop stops at `e` after `k` rounds. -/
inductive Ends (test : σ → Prop) (body : σ → σ) : ℕ → σ → σ → Prop where
  | stop {s : σ} : ¬ test s → Ends test body 0 s s
  | round {k : ℕ} {s e : σ} : test s → Ends test body k (body s) e →
      Ends test body (k + 1) s e

namespace Ends

variable {test : σ → Prop} {body : σ → σ}

/-- A loop stops only where its test fails. -/
theorem not_test {k : ℕ} {s e : σ} (h : Ends test body k s e) : ¬ test e := by
  induction h with
  | stop hs => exact hs
  | round _ _ ih => exact ih

/-- It stops at one place only. -/
theorem unique {k k' : ℕ} {s e e' : σ} (h : Ends test body k s e) (h' : Ends test body k' s e') :
    e = e' := by
  induction h generalizing k' with
  | stop hs =>
      cases h' with
      | stop _ => rfl
      | round ht _ => exact absurd ht hs
  | round ht _ ih =>
      cases h' with
      | stop hs => exact absurd ht hs
      | round _ h' => exact ih h'

/-- **THE INVARIANT RULE.** -/
theorem invariant {inv : σ → Prop} (hbody : ∀ s, test s → inv s → inv (body s))
    {k : ℕ} {s e : σ} (h : Ends test body k s e) (hs : inv s) : inv e := by
  induction h with
  | stop _ => exact hs
  | round ht _ ih => exact ih (hbody _ ht hs)

end Ends

section Fuel

variable (test : σ → Prop) [DecidablePred test] (body : σ → Option σ)

def runWhile : ℕ → σ → Option σ
  | 0, s => if test s then none else some s
  | fuel + 1, s => if test s then (body s).bind (runWhile fuel) else some s

variable {test body}

theorem runWhile_of_not_test {s : σ} (h : ¬ test s) (fuel : ℕ) :
    runWhile test body fuel s = some s := by
  cases fuel with
  | zero => rw [runWhile, if_neg h]
  | succ fuel => rw [runWhile, if_neg h]

/-- **THE RULE FOR TOTAL CORRECTNESS.**  A body that comes out, keeps the invariant and
    makes the measure smaller ends the loop, with any fuel that the measure allows. -/
theorem runWhile_total {inv : σ → Prop} {measure : σ → ℕ}
    (hbody : ∀ s, inv s → test s →
      ∃ s', body s = some s' ∧ inv s' ∧ measure s' < measure s)
    {fuel : ℕ} {s : σ} (hs : inv s) (hfuel : measure s ≤ fuel) :
    ∃ e, runWhile test body fuel s = some e ∧ inv e ∧ ¬ test e := by
  induction fuel generalizing s with
  | zero =>
      have hstop : ¬ test s := by
        intro ht
        obtain ⟨_, _, _, hlt⟩ := hbody s hs ht
        omega
      exact ⟨s, runWhile_of_not_test hstop 0, hs, hstop⟩
  | succ fuel ih =>
      by_cases ht : test s
      · obtain ⟨s', hs', hinv, hlt⟩ := hbody s hs ht
        obtain ⟨e, he, hend⟩ := ih hinv (by omega)
        refine ⟨e, ?_, hend⟩
        rw [runWhile, if_pos ht, hs']
        exact he
      · exact ⟨s, runWhile_of_not_test ht _, hs, ht⟩

end Fuel

end Albus.Lib
