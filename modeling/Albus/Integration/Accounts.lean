import Albus.Program.State

/-! # Accounts and errors of the integrating programs

    What `solana_program` hands to a program, and the checked arithmetic its
    handlers are written in. -/

namespace Albus.Integration

open Albus.Lib Albus.Program

/-- `AccountInfo`, as the integrating programs read it. -/
structure AccountInfo where
  key : Pubkey
  isSigner : Bool
  lamports : Nat
  /-- The program that owns the account. -/
  owner : Pubkey
  data : List UInt8
  deriving DecidableEq

/-- `ProgramError`, and the panics. -/
inductive ProgramError where
  | custom (code : Nat)
  | illegalOwner
  | uninitializedAccount
  | invalidAccountData
  | incorrectProgramId
  | notEnoughAccountKeys
  | invalidSeeds
  | panicked
  deriving DecidableEq, Repr

/-- A check of a handler. -/
def require (cond : Prop) [Decidable cond] (e : ProgramError) : Except ProgramError Unit :=
  if cond then .ok () else .error e

/-- `ok_or` -/
def okOr {α : Type} (o : Option α) (e : ProgramError) : Except ProgramError α :=
  match o with
  | some a => .ok a
  | none => .error e

/-! ## Checked arithmetic on words of `w` bits -/

def checkedAdd (w a b : Nat) : Option Nat := if a + b < 2 ^ w then some (a + b) else none

def checkedSub (a b : Nat) : Option Nat := if b ≤ a then some (a - b) else none

def checkedMul (w a b : Nat) : Option Nat := if a * b < 2 ^ w then some (a * b) else none

def checkedDiv (a b : Nat) : Option Nat := if b = 0 then none else some (a / b)

/-- `saturating_add` -/
def saturatingAdd (w a b : Nat) : Nat := min (a + b) (2 ^ w - 1)

/-- `u64::try_from(..).ok()` -/
def tryU64 (n : Nat) : Option Nat := if n < 2 ^ 64 then some n else none

theorem checkedAdd_eq_some {w a b c : Nat} (h : checkedAdd w a b = some c) : c = a + b := by
  unfold checkedAdd at h
  split at h
  · exact (Option.some.inj h).symm
  · exact nomatch h

theorem checkedSub_eq_some {a b c : Nat} (h : checkedSub a b = some c) : b ≤ a ∧ c = a - b := by
  unfold checkedSub at h
  split at h
  · rename_i hle
    exact ⟨hle, (Option.some.inj h).symm⟩
  · exact nomatch h

theorem checkedMul_eq_some {w a b c : Nat} (h : checkedMul w a b = some c) : c = a * b := by
  unfold checkedMul at h
  split at h
  · exact (Option.some.inj h).symm
  · exact nomatch h

theorem checkedDiv_eq_some {a b c : Nat} (h : checkedDiv a b = some c) : 0 < b ∧ c = a / b := by
  unfold checkedDiv at h
  split at h
  · exact nomatch h
  · rename_i hne
    exact ⟨Nat.pos_of_ne_zero hne, (Option.some.inj h).symm⟩

theorem okOr_ok {α : Type} {o : Option α} {e : ProgramError} {a : α} (h : okOr o e = .ok a) :
    o = some a := by
  cases o with
  | none => exact nomatch h
  | some b => rw [Except.ok.inj h]

theorem require_ok {cond : Prop} [Decidable cond] {e : ProgramError} {u : Unit}
    (h : require cond e = .ok u) : cond := by
  rw [require] at h
  split at h
  · assumption
  · exact nomatch h

/-- A check, and what follows it. -/
theorem require_bind_ok {cond : Prop} [Decidable cond] {e : ProgramError} {β : Type}
    {f : Unit → Except ProgramError β} {b : β} (h : (require cond e >>= f) = .ok b) :
    cond ∧ f () = .ok b := by
  by_cases hcond : cond
  · rw [require, if_pos hcond] at h
    exact ⟨hcond, h⟩
  · rw [require, if_neg hcond] at h
    exact nomatch h

end Albus.Integration
