import Albus.Lib.JsNumber
import Albus.Integration.SolanaVerifier
import Albus.Program.StoredProof

/-! # Validation off chain and on chain

    `ProofRequestManager.validate` decides from the time of the verification, the
    standalone verifier from the status.  The two agree on a request exactly when
    that time is set if and only if the status is verified (`agrees_iff`), and the
    instructions keep this in step only while no call moves one field and not the
    other. -/

namespace Albus.Sdk

open Albus.Lib Albus.Program Albus.Integration

/-- `ProofRequestManager.validate`, at what `getBlockTime` returned. -/
def validate (blockTime : Option ℤ) (req : ProofRequest) : Except String Unit :=
  match blockTime with
  | none => .error "Failed to get solana block time"
  | some timestamp =>
      -- `!timestamp`
      if timestamp = 0 then .error "Failed to get solana block time"
      else if JsNumber.ofInt req.expiredAt > 0 ∧ JsNumber.ofInt req.expiredAt < timestamp then
        .error "Proof request is expired"
      else if JsNumber.ofInt req.verifiedAt ≤ 0 then .error "Proof request is not verified"
      else .ok ()

/-- A block time as the client holds it; a zero reads as a missing one. -/
def IsBlockTime (t : ℤ) : Prop := t ≠ 0 ∧ JsNumber.IsSafe t

instance (t : ℤ) : Decidable (IsBlockTime t) :=
  inferInstanceAs (Decidable (t ≠ 0 ∧ JsNumber.IsSafe t))

theorem validate_ok_iff {t : ℤ} (ht : IsBlockTime t) (req : ProofRequest) :
    validate (some t) req = .ok () ↔
      ¬ (req.expiredAt > 0 ∧ req.expiredAt < t) ∧ 0 < req.verifiedAt := by
  obtain ⟨hne, hsafe⟩ := ht
  have hverified : JsNumber.ofInt req.verifiedAt ≤ 0 ↔ ¬ 0 < req.verifiedAt := by
    rw [← JsNumber.ofInt_pos_iff, not_lt]
  simp only [validate, if_neg hne, gt_iff_lt, JsNumber.ofInt_pos_iff,
    JsNumber.ofInt_lt_iff hsafe, hverified]
  by_cases hexp : 0 < req.expiredAt ∧ req.expiredAt < t
  · simp only [if_pos hexp, reduceCtorEq, false_iff]
    exact fun h => h.1 hexp
  · by_cases hpos : 0 < req.verifiedAt <;> simp [hexp, hpos]

/-! ## One request -/

/-- At every block time, on every account that holds the request, both accept or both
    refuse. -/
def Agrees (req : ProofRequest) : Prop :=
  ∀ t, IsBlockTime t → ∀ (acc : AccountInfo) (tail : List UInt8),
    AlbusVerifier.ProgramOwned acc → acc.data = req.serialize ++ tail →
      (validate (some t) req = .ok () ↔ (AlbusVerifier.new acc).run t = .ok ())

/-- The time of the verification is set exactly on a verified request. -/
def TimeFollowsStatus (req : ProofRequest) : Prop :=
  0 < req.verifiedAt ↔ req.status = .verified

theorem run_new_iff {req : ProofRequest} (hexp : InI64 req.expiredAt) {acc : AccountInfo}
    {tail : List UInt8} (howned : AlbusVerifier.ProgramOwned acc)
    (hdata : acc.data = req.serialize ++ tail) (t : ℤ) :
    (AlbusVerifier.new acc).run t = .ok () ↔
      ¬ (req.expiredAt > 0 ∧ req.expiredAt < t) ∧ req.status = .verified := by
  rw [AlbusVerifier.run_iff_accepted _ t hdata hexp, AlbusVerifier.accepted_ofRequest_iff]
  constructor
  · rintro ⟨-, hst, hunexpired, -, -⟩
    exact ⟨hunexpired, hst⟩
  · rintro ⟨hunexpired, hst⟩
    exact ⟨howned, hst, hunexpired, (fun _ h => nomatch h), fun _ h => nomatch h⟩

/-- **ONE REQUEST**: the two sides agree exactly when the time follows the status. -/
theorem agrees_iff {req : ProofRequest} (hexp : InI64 req.expiredAt) :
    Agrees req ↔ TimeFollowsStatus req := by
  constructor
  · -- at the first second nothing has expired
    intro h
    have hone : IsBlockTime 1 := by decide
    have hunexpired : ¬ (req.expiredAt > 0 ∧ req.expiredAt < 1) := by omega
    obtain ⟨acc, howned, hdata⟩ : ∃ acc : AccountInfo, AlbusVerifier.ProgramOwned acc ∧
        acc.data = req.serialize ++ [] :=
      ⟨⟨.default, false, 0, albusProgramId, req.serialize⟩, Or.inl rfl,
        (List.append_nil _).symm⟩
    have hagree := h 1 hone acc [] howned hdata
    rw [validate_ok_iff hone, run_new_iff hexp howned hdata] at hagree
    exact (and_iff_right hunexpired).symm.trans (hagree.trans (and_iff_right hunexpired))
  · intro h t ht acc tail howned hdata
    rw [validate_ok_iff ht, run_new_iff hexp howned hdata]
    exact and_congr_right fun _ => h

/-! ## Over a run -/

def AgreesAt (acc : Option ProofRequestAccount) : Prop := ∀ a, acc = some a → Agrees a.request

/-- The expiry is a machine integer. -/
def ExpiryInRange (acc : Option ProofRequestAccount) : Prop :=
  ∀ a, acc = some a → InI64 a.request.expiredAt

theorem inI64_saturatingAdd (a b : ℤ) : InI64 (saturatingAddI64 a b) := by
  simp only [InI64, saturatingAddI64, i64Min, i64Max]
  omega

theorem inI64_requestExpiry (policy : Policy) (data : CreateProofRequestData) (now : ℤ)
    {current : ℤ} (h : InI64 current) : InI64 (requestExpiry policy data now current) := by
  rw [requestExpiry]
  split
  · exact inI64_saturatingAdd _ _
  · split
    · exact inI64_saturatingAdd _ _
    · exact h

theorem expiryInRange_of_step {rt : Runtime} {seeds : ProofRequestSeeds}
    {acc acc' : Option ProofRequestAccount} {c : Call} (ih : ExpiryInRange acc)
    (h : step rt seeds acc c = .ok acc') : ExpiryInRange acc' := by
  rcases step_cases h with
    ⟨ctx, data, now, req, sp, pol, req', -, -, hinit, hcreate, rfl⟩ |
    ⟨ctx, data, now, a, req', -, hacc, hf, rfl⟩ |
    ⟨ctx, now, a, req', -, hacc, hf, rfl⟩ |
    ⟨authority, data, now, a, req', -, hacc, hf, rfl⟩ |
    ⟨authority, now, a, -, -, -, rfl⟩ <;> intro b hb
  · obtain rfl := Option.some.inj hb
    have hreq : InI64 req.expiredAt := by
      rcases hinit with ⟨-, rfl⟩ | ⟨a, hacc, rfl⟩
      · decide
      · exact ih a hacc
    obtain ⟨-, -, hexp⟩ := createProofRequest_times hcreate
    exact hexp ▸ inI64_requestExpiry pol data now hreq
  · obtain rfl := Option.some.inj hb
    obtain ⟨-, -, -, hcase⟩ := proveProofRequest_ok hf
    obtain ⟨-, -, hsame⟩ := receiveInputs_times data a.request
    rcases hcase with ⟨-, rfl⟩ | ⟨proof, -, haccept⟩
    · exact hsame ▸ ih a hacc
    · -- the circuit's own expiry, or the one of the creation
      obtain ⟨-, -, hkept | ⟨hmin, hmax⟩⟩ := acceptProof_times haccept
      · exact (hkept.trans hsame) ▸ ih a hacc
      · exact ⟨le_trans (by decide) hmin, hmax⟩
  · obtain rfl := Option.some.inj hb
    obtain ⟨-, -, rfl⟩ := verifyProofRequest_ok hf
    exact ih a hacc
  · obtain rfl := Option.some.inj hb
    obtain ⟨-, rfl⟩ := updateProofRequest_ok hf
    exact ih a hacc
  · exact nomatch hb

theorem expiryInRange_run {rt : Runtime} {seeds : ProofRequestSeeds} {h : History}
    {s : Option ProofRequestAccount} (r : Run (step rt seeds) none h s) : ExpiryInRange s :=
  r.preserves (P := ExpiryInRange) (by intro a ha; exact nomatch ha)
    (fun _ _ _ ih hs => expiryInRange_of_step ih hs)

/-- The call does not move the status or the time of the verification alone: an update
    rejects only at a clock that is not positive and otherwise verifies, and nothing is
    proved anew or reset on a request whose time is set. -/
def MovesTogether (t : Transition (Option ProofRequestAccount) Call) : Prop :=
  match t.call with
  | .create _ _ _ => True
  | .prove _ data _ =>
      data.proof.isSome ∨ data.reset = true → ∀ a ∈ t.pre, a.request.verifiedAt ≤ 0
  | .verify _ now => 0 < now
  | .update _ data now => 0 < now ↔ data.status = .verified
  | .delete _ _ => True

instance : (t : Transition (Option ProofRequestAccount) Call) → Decidable (MovesTogether t)
  | ⟨_, .create _ _ _, _⟩ => isTrue trivial
  | ⟨pre, .prove _ data _, _⟩ =>
      inferInstanceAs (Decidable
        (data.proof.isSome ∨ data.reset = true → ∀ a ∈ pre, a.request.verifiedAt ≤ 0))
  | ⟨_, .verify _ now, _⟩ => inferInstanceAs (Decidable (0 < now))
  | ⟨_, .update _ data now, _⟩ =>
      inferInstanceAs (Decidable (0 < now ↔ data.status = .verified))
  | ⟨_, .delete _ _, _⟩ => isTrue trivial

/-- **ONE STEP**: from a request on which the two agree, they agree after the call exactly
    when it moves both fields or none. -/
theorem agreesAt_step {rt : Runtime} {seeds : ProofRequestSeeds}
    {acc acc' : Option ProofRequestAccount} {c : Call} (hexp : ExpiryInRange acc)
    (ih : AgreesAt acc) (h : step rt seeds acc c = .ok acc') :
    AgreesAt acc' ↔ MovesTogether ⟨acc, c, acc'⟩ := by
  have hexp' := expiryInRange_of_step hexp h
  have hafter : ∀ b, acc' = some b → (AgreesAt acc' ↔ TimeFollowsStatus b.request) := by
    rintro b rfl
    rw [← agrees_iff (hexp' b rfl)]
    exact ⟨fun hall => hall b rfl, fun hb b' hb' => Option.some.inj hb' ▸ hb⟩
  have hbefore : ∀ a, acc = some a → TimeFollowsStatus a.request :=
    fun a ha => (agrees_iff (hexp a ha)).mp (ih a ha)
  rcases step_cases h with
    ⟨ctx, data, now, req, sp, pol, req', rfl, -, -, hcreate, rfl⟩ |
    ⟨ctx, data, now, a, req', rfl, rfl, hf, rfl⟩ |
    ⟨ctx, now, a, req', rfl, rfl, hf, rfl⟩ |
    ⟨authority, data, now, a, req', rfl, rfl, hf, rfl⟩ |
    ⟨authority, now, a, rfl, -, -, rfl⟩
  · rw [hafter _ rfl]
    obtain ⟨-, -, -, hst, -⟩ := createProofRequest_ok hcreate
    obtain ⟨hat, -, -⟩ := createProofRequest_times hcreate
    simp [TimeFollowsStatus, MovesTogether, hat, hst]
  · -- a proof or a reset sets the status back and leaves the time
    rw [hafter _ rfl]
    have hfollows := hbefore a rfl
    obtain ⟨-, -, -, hcase⟩ := proveProofRequest_ok hf
    obtain ⟨hat, -, -⟩ := receiveInputs_times data a.request
    rcases hcase with ⟨hnone, rfl⟩ | ⟨proof, hsome, haccept⟩
    · cases hreset : data.reset with
      | true => simp [TimeFollowsStatus, MovesTogether, receiveInputs_reset, hreset]
      | false =>
          simpa [TimeFollowsStatus, MovesTogether, receiveInputs_append, hreset, hnone]
            using hfollows
    · obtain ⟨_, -, -, -, -, hst, -⟩ := acceptProof_ok haccept
      obtain ⟨hat', -, -⟩ := acceptProof_times haccept
      simp [TimeFollowsStatus, MovesTogether, hst, hat', hat, hsome]
  · rw [hafter _ rfl]
    obtain ⟨-, -, rfl⟩ := verifyProofRequest_ok hf
    simp [TimeFollowsStatus, MovesTogether]
  · -- an update sets the time for a rejection as well
    rw [hafter _ rfl]
    obtain ⟨-, rfl⟩ := updateProofRequest_ok hf
    rfl
  · exact iff_of_true (fun b hb => nomatch hb) trivial

/-- **AGREEMENT OVER A RUN.**  In every run of the calls on a request, off-chain and
    on-chain validation agree after every step, at every block time, exactly when every
    step moves the status and the time of the verification together. -/
theorem validation_agrees_iff {rt : Runtime} {seeds : ProofRequestSeeds} {h : History}
    {s : Option ProofRequestAccount} (r : Run (step rt seeds) none h s) :
    (∀ t ∈ h, AgreesAt t.post) ↔ ∀ t ∈ h, MovesTogether t := by
  induction r with
  | init => exact iff_of_true (fun t ht => nomatch ht) fun t ht => nomatch ht
  | @step h s s' c r hs ih =>
      rw [List.forall_mem_cons, List.forall_mem_cons, ← ih]
      refine and_congr_left fun hall => ?_
      have hpre : AgreesAt s := r.at_end (fun a ha => nomatch ha) hall
      exact agreesAt_step (expiryInRange_run r) hpre hs

namespace Rejected

def circuit : Account Circuit := Sample.circuit ["timestamp"] 1

def timestamp : Bytes 32 := Bytes.ofNum 32 1700000000

/-- A root authority rejects the request. -/
def calls : List Call :=
  [Sample.create [], .update (Sample.key 9) ⟨.rejected⟩ Sample.now]

/-- The request is proved and verified. -/
def honestCalls : List Call :=
  [Sample.create [], Sample.prove [] circuit none (some Sample.proof) [timestamp],
    Sample.verify circuit]

def account (req : ProofRequest) : AccountInfo where
  key := .default
  isSigner := false
  lamports := 0
  owner := albusProgramId
  data := req.serialize

end Rejected

theorem validation_agrees_honest :
    (∃ a ∈ (exec (step Sample.runtime Sample.seeds) none Rejected.honestCalls).2,
      a.request.status = .verified) ∧
    ∀ t ∈ (exec (step Sample.runtime Sample.seeds) none Rejected.honestCalls).1,
      AgreesAt t.post := by
  constructor
  · decide +kernel
  · exact (validation_agrees_iff (run_exec (step Sample.runtime Sample.seeds) none
      Rejected.honestCalls)).mpr (by decide +kernel)

/-- **THE TWO SIDES DISAGREE**: the client accepts a rejected request. -/
theorem validation_disagrees :
    ∃ (h : History) (s : Option ProofRequestAccount),
      Run (step Sample.runtime Sample.seeds) none h s ∧
      ∃ a ∈ s, a.request.status = .rejected ∧ IsBlockTime Sample.now ∧
        validate (some Sample.now) a.request = .ok () ∧
        (AlbusVerifier.new (Rejected.account a.request)).run Sample.now
          = .error (.custom VerificationError.rejected) := by
  refine ⟨_, _, run_exec (step Sample.runtime Sample.seeds) none Rejected.calls, ?_⟩
  decide +kernel

end Albus.Sdk
