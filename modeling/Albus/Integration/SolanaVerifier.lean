import Albus.Integration.Accounts
import Albus.Program.AccountData
import Albus.Program.ProofRequest

/-! # The standalone verifier

    `crates/solana-verifier`: what another program asks about a proof request.
    It reads a prefix of the account at fixed offsets; a slice that does not fit
    panics.  The clock is a parameter. -/

namespace Albus.Integration

open Albus.Lib Albus.Program

/-- `VerificationError`, by its code. -/
def VerificationError.notVerified : Nat := 0

def VerificationError.expired : Nat := 1

def VerificationError.pending : Nat := 2

def VerificationError.rejected : Nat := 3

def albusProgramId : Pubkey := pubkey "ALBUSbdydS2qoQXXeFfr4mqc9LFw5xWmUMdB4tcscHhi"

def albusDevProgramId : Pubkey := pubkey "ALBSoqJrZeZZ423xWme5nozNcozCtMvDWTZZmQLMT3fp"

def proofRequestDiscriminator : List UInt8 := [78, 10, 176, 254, 231, 33, 111, 224]

/-- `array_ref!`. -/
def arrayRef (data : List UInt8) (offset len : Nat) : Except ProgramError (List UInt8) :=
  if data.length < offset + len then .error .panicked else .ok ((data.drop offset).take len)

/-- `array_refs!`: consecutive pieces of the given sizes. -/
def arrayRefs : List Nat → List UInt8 → List (List UInt8)
  | [], _ => []
  | n :: ns, bytes => bytes.take n :: arrayRefs ns (bytes.drop n)

/-- `cmp_pubkeys` -/
def cmpPubkeys (a b : List UInt8) : Bool := a.take 32 = b.take 32

/-- `ProofRequestStatus::try_from`; the crate repeats the enumeration of the program. -/
def tryFromStatus (value : UInt8) : Except ProgramError ProofRequestStatus :=
  if value = 0 then .ok .pending
  else if value = 1 then .ok .proved
  else if value = 2 then .ok .verified
  else if value = 3 then .ok .rejected
  else .error .invalidAccountData

structure AlbusVerifier where
  proofRequest : AccountInfo
  proofRequestOwner : Option Pubkey
  policy : Option Pubkey

namespace AlbusVerifier

def new (proofRequest : AccountInfo) : AlbusVerifier where
  proofRequest := proofRequest
  policy := none
  proofRequestOwner := none

def checkPolicy (v : AlbusVerifier) (addr : Pubkey) : AlbusVerifier :=
  { v with policy := some addr }

def checkOwner (v : AlbusVerifier) (addr : Pubkey) : AlbusVerifier :=
  { v with proofRequestOwner := some addr }

/-- `check_program_account` -/
def checkProgramAccount (acc : AccountInfo) : Except ProgramError Unit :=
  if !cmpPubkeys acc.owner.toList albusProgramId.toList
      && !cmpPubkeys acc.owner.toList albusDevProgramId.toList then
    .error .illegalOwner
  else if acc.data.isEmpty then .error .uninitializedAccount
  else .ok ()

/-- An optional filter against the stored key. -/
def checkFilter (filter : Option Pubkey) (stored : List UInt8) : Except ProgramError Unit :=
  match filter with
  | none => .ok ()
  | some key => if !cmpPubkeys key.toList stored then .error .invalidAccountData else .ok ()

/-- The verdict on the status. -/
def checkStatus : ProofRequestStatus → Except ProgramError Unit
  | .pending => .error (.custom VerificationError.pending)
  | .proved => .error (.custom VerificationError.notVerified)
  | .rejected => .error (.custom VerificationError.rejected)
  | .verified => .ok ()

/-- The pieces of the prefix that `check_proof_request` uses. -/
structure Prefix where
  discriminator : List UInt8
  policy : List UInt8
  owner : List UInt8
  expiredAt : Int
  status : UInt8

/-- The split of the prefix. -/
def readPrefix (data : List UInt8) : Except ProgramError Prefix := do
  let data ← arrayRef data 0 218
  match arrayRefs [8, 32, 32, 32, 32, 32, 8, 8, 8, 8, 8, 8, 1, 1] data with
  | [discriminator, _service, policy, _circuit, _issuer, owner, _identifier, _createdAt,
      expiredAt, _verifiedAt, _provedAt, _retentionEndDate, [status], _bump] =>
      .ok { discriminator, policy, owner, expiredAt := i64FromLeBytes expiredAt, status }
  | _ => .error .panicked

/-- `check_proof_request`, at the time `timestamp` of the clock. -/
def checkProofRequest (v : AlbusVerifier) (timestamp : Int) : Except ProgramError Unit := do
  let read ← readPrefix v.proofRequest.data
  if read.discriminator ≠ proofRequestDiscriminator then .error .invalidAccountData
  else
    checkFilter v.policy read.policy
    checkFilter v.proofRequestOwner read.owner
    let status ← tryFromStatus read.status
    -- an expiry of zero is none
    if read.expiredAt > 0 ∧ read.expiredAt < timestamp then
      .error (.custom VerificationError.expired)
    else checkStatus status

def run (v : AlbusVerifier) (timestamp : Int) : Except ProgramError Unit := do
  checkProgramAccount v.proofRequest
  checkProofRequest v timestamp

/-! ## Each check -/

/-- A stored key of full length is compared as it is. -/
theorem cmpPubkeys_stored {key : Pubkey} {stored : List UInt8} (hlen : stored.length = 32) :
    cmpPubkeys key.toList stored = true ↔ stored = key.toList := by
  have hkey : key.toList.take 32 = key.toList :=
    List.take_of_length_le (by rw [Vector.length_toList])
  rw [cmpPubkeys, hkey, List.take_of_length_le hlen.le, decide_eq_true_iff]
  exact eq_comm

theorem cmpPubkeys_iff (a b : Pubkey) : cmpPubkeys a.toList b.toList = true ↔ a = b := by
  rw [cmpPubkeys_stored Vector.length_toList, Vector.toList_inj]
  exact eq_comm

/-- An account of one of the two programs. -/
def ProgramOwned (acc : AccountInfo) : Prop :=
  acc.owner = albusProgramId ∨ acc.owner = albusDevProgramId

theorem checkProgramAccount_ok_iff (acc : AccountInfo) :
    checkProgramAccount acc = .ok () ↔ ProgramOwned acc ∧ acc.data ≠ [] := by
  rw [checkProgramAccount, ProgramOwned, ← cmpPubkeys_iff, ← cmpPubkeys_iff]
  cases cmpPubkeys acc.owner.toList albusProgramId.toList <;>
    cases cmpPubkeys acc.owner.toList albusDevProgramId.toList <;>
    cases acc.data <;> simp

theorem checkFilter_ok_iff (filter : Option Pubkey) (stored : List UInt8) :
    checkFilter filter stored = .ok () ↔
      ∀ key, filter = some key → cmpPubkeys key.toList stored = true := by
  cases filter with
  | none => simp [checkFilter]
  | some key => cases hcmp : cmpPubkeys key.toList stored <;> simp [checkFilter, hcmp]

theorem checkStatus_ok_iff (s : ProofRequestStatus) :
    checkStatus s = .ok () ↔ s = .verified := by
  cases s <;> simp [checkStatus]

theorem tryFromStatus_toByte (s : ProofRequestStatus) : tryFromStatus s.toByte = .ok s := by
  cases s <;> rfl

theorem tryFromStatus_ok {b : UInt8} {s : ProofRequestStatus} (h : tryFromStatus b = .ok s) :
    b = s.toByte := by
  unfold tryFromStatus at h
  split_ifs at h with h0 h1 h2 h3 <;> obtain rfl := Except.ok.inj h <;> assumption

theorem toByte_injective : Function.Injective ProofRequestStatus.toByte := by
  intro s s' h
  cases s <;> cases s' <;> first | rfl | exact nomatch h

/-- What the prefix has to say for the verifier to accept. -/
structure Prefix.Accepted (read : Prefix) (v : AlbusVerifier) (timestamp : Int) : Prop where
  discriminator : read.discriminator = proofRequestDiscriminator
  policy : ∀ key, v.policy = some key → cmpPubkeys key.toList read.policy = true
  owner : ∀ key, v.proofRequestOwner = some key → cmpPubkeys key.toList read.owner = true
  status : read.status = ProofRequestStatus.verified.toByte
  unexpired : ¬ (read.expiredAt > 0 ∧ read.expiredAt < timestamp)

/-- The checks of the prefix, one after the other. -/
theorem checkProofRequest_ok_iff (v : AlbusVerifier) (timestamp : Int) :
    checkProofRequest v timestamp = .ok () ↔
      ∃ read, readPrefix v.proofRequest.data = .ok read ∧ read.Accepted v timestamp := by
  constructor
  · intro h
    obtain ⟨read, hread, h⟩ := bind_ok h
    by_cases hdisc : read.discriminator ≠ proofRequestDiscriminator
    · rw [if_pos hdisc] at h
      exact nomatch h
    · rw [if_neg hdisc] at h
      obtain ⟨_, hpolicy, h⟩ := bind_ok h
      obtain ⟨_, howner, h⟩ := bind_ok h
      obtain ⟨s, hs, h⟩ := bind_ok h
      by_cases hexp : read.expiredAt > 0 ∧ read.expiredAt < timestamp
      · rw [if_pos hexp] at h
        exact nomatch h
      · rw [if_neg hexp] at h
        obtain rfl := (checkStatus_ok_iff s).mp h
        exact ⟨read, hread, not_not.mp hdisc, (checkFilter_ok_iff _ _).mp hpolicy,
          (checkFilter_ok_iff _ _).mp howner, tryFromStatus_ok hs, hexp⟩
  · rintro ⟨read, hread, haccepted⟩
    have hpolicy := (checkFilter_ok_iff v.policy read.policy).mpr haccepted.policy
    have howner := (checkFilter_ok_iff v.proofRequestOwner read.owner).mpr haccepted.owner
    simp only [checkProofRequest, hread, bind, Except.bind,
      if_neg (not_not.mpr haccepted.discriminator), hpolicy, howner, haccepted.status,
      tryFromStatus_toByte, if_neg haccepted.unexpired, checkStatus]

/-- A prefix that can be read is not empty. -/
theorem ne_nil_of_readPrefix {data : List UInt8} {read : Prefix}
    (h : readPrefix data = .ok read) : data ≠ [] := by
  rintro rfl
  exact nomatch h

/-- **WHAT THE VERIFIER ASKS**, of any account and at any time. -/
theorem run_ok_iff (v : AlbusVerifier) (timestamp : Int) :
    run v timestamp = .ok () ↔ ProgramOwned v.proofRequest ∧
      ∃ read, readPrefix v.proofRequest.data = .ok read ∧ read.Accepted v timestamp := by
  constructor
  · intro h
    obtain ⟨_, hacc, h⟩ := bind_ok h
    exact ⟨((checkProgramAccount_ok_iff _).mp hacc).1, (checkProofRequest_ok_iff v _).mp h⟩
  · rintro ⟨howned, read, hread, haccepted⟩
    have hacc := (checkProgramAccount_ok_iff v.proofRequest).mpr
      ⟨howned, ne_nil_of_readPrefix hread⟩
    rw [run, hacc]
    exact (checkProofRequest_ok_iff v timestamp).mpr ⟨read, hread, haccepted⟩

/-! ## Reading the prefix -/

theorem arrayRefs_append {a : List UInt8} {n : Nat} (h : a.length = n) (ns : List Nat)
    (rest : List UInt8) : arrayRefs (n :: ns) (a ++ rest) = a :: arrayRefs ns rest := by
  rw [arrayRefs, List.take_left' h, List.drop_left' h]

/-- The two sides agree on the discriminator. -/
theorem proofRequestDiscriminator_eq :
    accountDiscriminator "ProofRequest" = proofRequestDiscriminator := by
  decide +kernel

/-- The prefix of a request. -/
def Prefix.ofRequest (r : ProofRequest) : Prefix where
  discriminator := proofRequestDiscriminator
  policy := r.policy.toList
  owner := r.owner.toList
  expiredAt := r.expiredAt
  status := r.status.toByte

/-- **THE OFFSETS ARE THOSE OF THE FIELDS**: behind the program's serialization, whatever
    follows it, the verifier reads the fields back. -/
theorem readPrefix_serialize (r : ProofRequest) (h : InI64 r.expiredAt) (tail : List UInt8) :
    readPrefix (r.serialize ++ tail) = .ok (.ofRequest r) := by
  have hprefix : arrayRef (r.serialize ++ tail) 0 218 = .ok r.header := by
    rw [arrayRef, if_neg, ProofRequest.serialize, List.append_assoc, List.append_assoc,
      List.drop_zero, List.take_left' r.length_header]
    simp only [ProofRequest.serialize, List.length_append, r.length_header]
    omega
  have hsplit : arrayRefs [8, 32, 32, 32, 32, 32, 8, 8, 8, 8, 8, 8, 1, 1] r.header =
      [accountDiscriminator "ProofRequest", r.serviceProvider.toList, r.policy.toList,
        r.circuit.toList, r.issuer.toList, r.owner.toList, u64ToLeBytes r.identifier,
        i64ToLeBytes r.createdAt, i64ToLeBytes r.expiredAt, i64ToLeBytes r.verifiedAt,
        i64ToLeBytes r.provedAt, i64ToLeBytes r.retentionEndDate, [r.status.toByte],
        [r.bump]] := by
    simp only [ProofRequest.header, List.append_assoc]
    -- each field but the last is followed by the rest of the header
    iterate 13
      rw [arrayRefs_append
        (by simp [length_accountDiscriminator, u64ToLeBytes, i64ToLeBytes])]
    rfl
  simp only [readPrefix, hprefix, hsplit, bind, Except.bind, i64FromLeBytes_toLeBytes h,
    proofRequestDiscriminator_eq, Prefix.ofRequest]

theorem accepted_ofRequest_iff (r : ProofRequest) (v : AlbusVerifier) (timestamp : Int) :
    (Prefix.ofRequest r).Accepted v timestamp ↔
      r.status = .verified ∧
      ¬ (r.expiredAt > 0 ∧ r.expiredAt < timestamp) ∧
      (∀ policy, v.policy = some policy → policy = r.policy) ∧
      (∀ owner, v.proofRequestOwner = some owner → owner = r.owner) := by
  constructor
  · intro h
    refine ⟨toByte_injective h.status, h.unexpired, ?_, ?_⟩
    · intro policy hpolicy
      exact (cmpPubkeys_iff _ _).mp (h.policy policy hpolicy)
    · intro owner howner
      exact (cmpPubkeys_iff _ _).mp (h.owner owner howner)
  · rintro ⟨hst, hunexpired, hpolicy, howner⟩
    refine ⟨rfl, ?_, ?_, congrArg ProofRequestStatus.toByte hst, hunexpired⟩
    · intro key hkey
      exact (cmpPubkeys_iff _ _).mpr (hpolicy key hkey)
    · intro key hkey
      exact (cmpPubkeys_iff _ _).mpr (howner key hkey)

/-- The verifier on an account that holds a request. -/
theorem run_iff_accepted (v : AlbusVerifier) {r : ProofRequest} {tail : List UInt8}
    (timestamp : Int) (hdata : v.proofRequest.data = r.serialize ++ tail)
    (hexp : InI64 r.expiredAt) :
    run v timestamp = .ok () ↔
      ProgramOwned v.proofRequest ∧ (Prefix.ofRequest r).Accepted v timestamp := by
  have hread := readPrefix_serialize r hexp tail
  rw [← hdata] at hread
  rw [run_ok_iff, hread]
  refine and_congr_right fun _ => ?_
  constructor
  · rintro ⟨read, heq, haccepted⟩
    exact Except.ok.inj heq ▸ haccepted
  · intro haccepted
    exact ⟨_, rfl, haccepted⟩

/-- **THE VERIFIER READS WHAT THE PROGRAM WROTE.**  On an account that holds a request's
    serialization, behind which anything may stand, every choice of filters and every
    clock value: it accepts exactly the accounts of the two programs whose request is
    verified, not expired, and passes the filters. -/
theorem run_serialized_iff (v : AlbusVerifier) (r : ProofRequest) (tail : List UInt8)
    (timestamp : Int) (hdata : v.proofRequest.data = r.serialize ++ tail)
    (hexp : InI64 r.expiredAt) :
    run v timestamp = .ok () ↔
      ProgramOwned v.proofRequest ∧
      r.status = .verified ∧
      ¬ (r.expiredAt > 0 ∧ r.expiredAt < timestamp) ∧
      (∀ policy, v.policy = some policy → policy = r.policy) ∧
      (∀ owner, v.proofRequestOwner = some owner → owner = r.owner) := by
  rw [run_iff_accepted v timestamp hdata hexp, accepted_ofRequest_iff]

namespace Sample

/-- A verified request whose time is running. -/
def request : ProofRequest :=
  { ProofRequest.zeroed with
    policy := Vector.replicate 32 2
    owner := Vector.replicate 32 5
    expiredAt := 1700000000
    verifiedAt := 1690000000
    status := .verified }

/-- The account is longer than what is written in it. -/
def account : AccountInfo where
  key := Vector.replicate 32 9
  isSigner := false
  lamports := 0
  owner := albusProgramId
  data := request.serialize ++ [7, 7, 7]

def verifier : AlbusVerifier :=
  ((AlbusVerifier.new account).checkPolicy request.policy).checkOwner request.owner

end Sample

theorem run_serialized_sample : run Sample.verifier 1700000000 = .ok () :=
  (run_serialized_iff Sample.verifier Sample.request [7, 7, 7] 1700000000 rfl (by decide)).mpr
    ⟨Or.inl rfl, rfl, by decide, fun _ h => (Option.some.inj h).symm,
      fun _ h => (Option.some.inj h).symm⟩

end AlbusVerifier

end Albus.Integration
