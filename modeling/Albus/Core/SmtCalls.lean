import Albus.Core.Smt
import Albus.Lib.Calls

/-! # Calls of the sparse Merkle tree

    A key is any bigint.  `get` searches with its residue, the mutators go on with the
    key itself, and the bits of a negative one never end (`SMT.updateAny`).

    The mutators throw before their first write or not at all.  `delete` throws on a
    key that is not found; `update` has no such check, and answers as if it had been
    (`SMT.invalid_failsCleanly_iff`). -/

namespace Albus.Core

open Albus.Lib

inductive SmtCall where
  | add (key : ℤ) (value : ℕ)
  | update (key : ℤ) (newValue : ℕ)
  | delete (key : ℤ)
  | get (key : ℤ)
  | root

inductive SmtResponse where
  | added (res : AddIntoSmtResponse)
  | updated (res : UpdateSmtResponse)
  | deleted (res : DeleteFromSmtResponse)
  | found (res : FindFromSmtResponse)
  | root (root : ℕ)

namespace SMT

section Hash

variable (permute : List ℕ → ℕ)

/-- `add`: the bits of the key are asked for first. -/
def addAny (smt : SMT) : ℤ → ℕ → Except SmtError (SMT × AddIntoSmtResponse)
  | .ofNat key, value => add permute smt key value
  | .negSucc _, _ => .error .diverges

/-- `update`: the bits of the key are asked for after the search. -/
def updateAny (smt : SMT) : ℤ → ℕ → Except SmtError (SMT × UpdateSmtResponse)
  | .ofNat key, newValue => update permute smt key newValue
  | .negSucc n, _ => do
    let _ ← smt.get (.negSucc n)
    throw .diverges

/-- `delete`: they are asked for when the key is found and the last sibling is read. -/
def deleteAny (smt : SMT) : ℤ → Except SmtError (SMT × DeleteFromSmtResponse)
  | .ofNat key => delete permute smt key
  | .negSucc n => do
    let resFind ← smt.get (.negSucc n)
    if ¬ resFind.found then
      throw (.error "Key does not exists")
    let _ ← lastSibling smt 0 resFind.siblings
    throw .diverges

/-- What a mutator that threw has left is what it found. -/
def settle {ρ : Type} (smt : SMT) (response : ρ → SmtResponse) :
    Except SmtError (SMT × ρ) → Except SmtError SmtResponse × SMT
  | .ok (smt', res) => (.ok (response res), smt')
  | .error e => (.error e, smt)

def call (smt : SMT) : SmtCall → Except SmtError SmtResponse × SMT
  | .add key value => smt.settle .added (addAny permute smt key value)
  | .update key newValue => smt.settle .updated (updateAny permute smt key newValue)
  | .delete key => smt.settle .deleted (deleteAny permute smt key)
  | .get key => ((smt.get key).map .found, smt)
  | .root => (.ok (.root smt.root), smt)

def machine : Machine SMT SmtCall SmtError SmtResponse where
  call := call permute
  hangs e := e = .diverges

end Hash

/-- The search ends without the key. -/
def Absent (smt : SMT) (key : ℤ) : Prop :=
  ∃ res, smt.get key = .ok res ∧ res.found = false

/-- The search ends with the key. -/
def Present (smt : SMT) (key : ℤ) : Prop :=
  ∃ res, smt.get key = .ok res ∧ res.found = true

/-- A key is added that is there, or updated or deleted when it is not. -/
def Invalid (smt : SMT) : SmtCall → Prop
  | .add key _ => smt.Present key
  | .update key _ => smt.Absent key
  | .delete key => smt.Absent key
  | _ => False

variable {permute : List ℕ → ℕ} {smt : SMT} {key : ℤ}

/-- **DELETING AN ABSENT KEY THROWS**, in any state. -/
theorem deleteAny_absent (h : smt.Absent key) :
    deleteAny permute smt key = .error (.error "Key does not exists") := by
  obtain ⟨res, hget, hfound⟩ := h
  cases key with
  | ofNat key =>
      rw [deleteAny, delete, deletePlan]
      have hget' : smt.get key = .ok res := hget
      simp only [hget', bind, Except.bind, hfound]
      rfl
  | negSucc n =>
      rw [deleteAny, hget]
      simp only [bind, Except.bind, hfound]
      rfl

/-- **ADDING A PRESENT KEY THROWS**, in any state. -/
theorem addAny_present {key : ℕ} (h : smt.Present key) (value : ℕ) :
    addAny permute smt key value = .error (.error "Key already exists") := by
  obtain ⟨res, hget, hfound⟩ := h
  show add permute smt key value = _
  rw [add, addPlan, hget]
  simp only [bind, Except.bind, hfound]
  rfl

/-- **UPDATING DOES NOT ASK WHETHER THE KEY IS THERE.** -/
theorem exists_update (permute : List ℕ → ℕ) (newValue : ℕ) {key : ℕ} {res : FindFromSmtResponse}
    (hget : smt.get key = .ok res) :
    ∃ smt' res', update permute smt key newValue = .ok (smt', res') ∧
      res'.newKey = key := by
  rw [update, updatePlan, hget]
  exact ⟨_, _, rfl, rfl⟩

theorem updateAny_negSucc {n newValue : ℕ} {res : FindFromSmtResponse}
    (hget : smt.get (.negSucc n) = .ok res) :
    updateAny permute smt (.negSucc n) newValue = .error .diverges := by
  rw [updateAny, hget]
  rfl

/-- **WHICH INVALID CALLS FAIL CLEANLY**: the deletions, and the additions of a key that
    has bits, in any state. -/
theorem invalid_failsCleanly_iff {c : SmtCall} (h : smt.Invalid c) :
    (machine permute).FailsCleanly smt c ↔
      (∃ key, c = .delete key) ∨ ∃ (key : ℕ) (value : ℕ), c = .add key value := by
  cases c with
  | get key => exact h.elim
  | root => exact h.elim
  | add key value =>
      cases key with
      | ofNat key =>
          refine iff_of_true ?_ (.inr ⟨key, value, rfl⟩)
          refine Machine.failsCleanly_of_unchanged (e := .error "Key already exists") ?_ rfl
          show settle smt .added (addAny permute smt key value) = _
          rw [addAny_present h]
          rfl
      | negSucc n =>
          refine iff_of_false (Machine.not_failsCleanly_of_hangs (e := .diverges) rfl rfl) ?_
          rintro (⟨key, hkey⟩ | ⟨key, value', hkey⟩)
          · exact nomatch hkey
          · exact nomatch (SmtCall.add.inj hkey).1
  | delete key =>
      refine iff_of_true ?_ (.inl ⟨key, rfl⟩)
      refine Machine.failsCleanly_of_unchanged (e := .error "Key does not exists") ?_ rfl
      show settle smt .deleted (deleteAny permute smt key) = _
      rw [deleteAny_absent h]
      rfl
  | update key newValue =>
      refine iff_of_false ?_ (by rintro (⟨_, hkey⟩ | ⟨_, _, hkey⟩) <;> cases hkey)
      obtain ⟨res, hget, -⟩ := h
      cases key with
      | ofNat key =>
          obtain ⟨smt', res', hupdate, -⟩ := exists_update permute newValue hget
          have hcall : settle smt .updated (update permute smt key newValue)
              = (.ok (.updated res'), smt') := by
            rw [hupdate]
            rfl
          exact Machine.not_failsCleanly_of_ok hcall
      | negSucc n =>
          have hcall : settle smt .updated (updateAny permute smt (.negSucc n) newValue)
              = (.error .diverges, smt) := by
            rw [updateAny_negSucc hget]
            rfl
          exact Machine.not_failsCleanly_of_hangs hcall rfl

end SMT

end Albus.Core
