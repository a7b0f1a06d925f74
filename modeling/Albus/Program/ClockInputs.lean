import Albus.Program.StoredProof
import Mathlib.Tactic.NormNum.GCD

/-! # The clock and the inputs it is compared with

    `prove_proof_request` reads the `timestamp` and `meta_validUntil` words with
    `bytes_to_num`, the last eight of 32 bytes, and compares the number with the
    cluster clock.  The verifier reads the same words as scalars: all 32 bytes,
    modulo the group order.  No range check stands between the two, and nothing
    bounds the timestamp from above. -/

namespace Albus.Program

open Albus.Lib

/-! ## Two readings of one word -/

/-- **THE TWO READINGS AGREE** exactly on words below `2 ^ 64`. -/
theorem scalarOf_eq_bytesToNum_iff (input : Bytes 32) :
    scalarOf input = bytesToNum input ↔ input.toNum < 2 ^ 64 := by
  rw [bytesToNum_eq]
  have hmod : ∀ N M : Nat, M < N → N < 2 ^ 64 * M → (2 ^ 64).Coprime M →
      N % M = N % 2 ^ 64 → N < 2 ^ 64 := by
    intro N M hlt hbig hco heq
    -- `N` less the common remainder is a multiple of both moduli
    have h1 : M ∣ N - N % 2 ^ 64 := by
      rw [← heq]
      exact Nat.dvd_sub_mod N
    have h2 : 2 ^ 64 ∣ N - N % 2 ^ 64 := Nat.dvd_sub_mod N
    obtain ⟨c, hc⟩ := hco.mul_dvd_of_dvd_of_dvd h2 h1
    have hle : N % 2 ^ 64 ≤ N := Nat.mod_le _ _
    have hrem : N % 2 ^ 64 < 2 ^ 64 := Nat.mod_lt _ (by norm_num)
    rcases Nat.eq_zero_or_pos c with rfl | hpos
    · omega
    · have hge : 2 ^ 64 * M ≤ 2 ^ 64 * M * c := Nat.le_mul_of_pos_right _ hpos
      omega
  have hlt := input.toNum_lt
  constructor
  · intro heq
    by_cases hr : bn254r < input.toNum
    · refine hmod _ bn254r hr ?_ ?_ heq
      · unfold bn254r
        omega
      · unfold bn254r
        norm_num
    · have hrem : input.toNum % 2 ^ 64 < 2 ^ 64 := Nat.mod_lt _ (by norm_num)
      rw [scalarOf] at heq
      rcases Nat.lt_or_eq_of_le (Nat.not_lt.mp hr) with h | h
      · rw [Nat.mod_eq_of_lt h] at heq
        omega
      · rw [h] at heq
        rw [bn254r] at heq
        norm_num at heq
  · intro h
    rw [scalarOf, bn254r]
    omega

/-- `u64 as i64` never gains. -/
theorem asI64_le (n : Nat) : asI64 n ≤ n := by
  rw [asI64]
  split <;> omega

theorem bytesToNum_le (input : Bytes 32) : bytesToNum input ≤ input.toNum := by
  rw [bytesToNum_eq]
  exact Nat.mod_le _ _

/-! ## The slot an accepted proof leaves -/

/-- What a submitted word has become after the writes of an accepted proof. -/
theorem AcceptedProof.slot {ctx : ProveProofRequest} {data : ProveProofRequestData}
    {now : Int} {before after : ProofRequest} {signals : Signals}
    (hacc : AcceptedProof ctx data now before after signals) {slot : Nat}
    {input : Bytes 32}
    (hin : (receiveInputs data before).publicInputs[slot]? = some input) :
    after.publicInputs[slot]?
      = some ((lastWrite (proveWrites signals ctx.issuer ctx.policy.data.rules)
          slot).getD input) := by
  rw [hacc.inputs, writeAll_getElem? _ _ (List.getElem?_eq_some_iff.mp hin).1, hin]
  cases lastWrite (proveWrites signals ctx.issuer ctx.policy.data.rules) slot <;> rfl

/-! ## One number for the program and for the verifier -/

/-- The submitted word is below `2 ^ 64`; if a rule or the issuer's key is written
    over it, what is written has the scalar the program read. -/
def ReadsAlike (input : Bytes 32) : Option (Bytes 32) → Prop
  | none => input.toNum < 2 ^ 64
  | some written => scalarOf written = bytesToNum input

instance (input : Bytes 32) : (w : Option (Bytes 32)) → Decidable (ReadsAlike input w)
  | none => inferInstanceAs (Decidable (input.toNum < 2 ^ 64))
  | some written => inferInstanceAs (Decidable (scalarOf written = bytesToNum input))

theorem readsAlike_iff (input : Bytes 32) (w : Option (Bytes 32)) :
    scalarOf (w.getD input) = bytesToNum input ↔ ReadsAlike input w := by
  cases w with
  | none => exact scalarOf_eq_bytesToNum_iff input
  | some written => exact Iff.rfl

/-- **THE PROGRAM AND THE VERIFIER READ THE SAME NUMBER, EXACTLY WHEN …**  At
    every verification of every run, for `timestamp` and for `meta_validUntil`:
    the scalar of the verified input is the integer the latest proof-carrying
    call compared with the clock if and only if the submitted word reads alike;
    and then the proved timestamp is no older than the threshold. -/
theorem verified_reads_alike_iff (rt : Runtime) (seeds : ProofRequestSeeds)
    (h : History) (s : Option ProofRequestAccount)
    (r : Run (step rt seeds) none h s) (later earlier : History)
    (pre post : Option ProofRequestAccount) (vctx : VerifyProofRequest) (vnow : Int)
    (hh : h = later ++ ⟨pre, .verify vctx vnow, post⟩ :: earlier) :
    ∃ t before ctx data now a signals v proof,
      LatestProof earlier t before ∧ t.call = .prove ctx data now ∧
      t.pre = some a ∧ ctx.circuit.data.signals = some signals ∧
      post = some v ∧ v.request.status = .verified ∧
      runVerifier rt.altBn128 vctx.circuit.data.vk proof v.request.publicInputs
        = .ok () ∧
      ∀ k, k = timestampSignal ∨ k = metaValidUntilSignal →
        ∀ span, signals.get k = some span →
        ∃ input used,
          (receiveInputs data a.request).publicInputs[span.index]? = some input ∧
          v.request.publicInputs[span.index]? = some used ∧
          (scalarOf used = bytesToNum input ↔
            ReadsAlike input (lastWrite
              (proveWrites signals ctx.issuer ctx.policy.data.rules) span.index)) ∧
          (k = timestampSignal →
            ReadsAlike input (lastWrite
              (proveWrites signals ctx.issuer ctx.policy.data.rules) span.index) →
            now - timestampThreshold ≤ (scalarOf used : Int)) := by
  obtain ⟨a, t, before, ctx, data, now, pa, pb, signals, hpre, hlatest, hcall,
    hbefore, -, hacc, -, hprefix, hpost⟩ := verify_traced r hh
  obtain ⟨-, hstep⟩ := r.split hh
  obtain ⟨a', req', hpre', hf, -⟩ := onAccount_ok hstep
  have hpre'' : pre = some a' := hpre'
  rw [hpre] at hpre''
  obtain rfl := Option.some.inj hpre''
  obtain ⟨-, ⟨proof, -, hverifier⟩, -⟩ := verifyProofRequest_ok hf
  refine ⟨t, before, ctx, data, now, pa, signals, _, proof, hlatest, hcall, hbefore,
    hacc.layout, hpost, rfl, hverifier, ?_⟩
  intro k hk span hspan
  have hinput : ∃ input,
      (receiveInputs data pa.request).publicInputs[span.index]? = some input ∧
      (k = timestampSignal → now - timestampThreshold ≤ asI64 (bytesToNum input)) := by
    rcases hk with rfl | rfl
    · obtain ⟨input, hin, hle⟩ := hacc.checked.timestamp span hspan
      exact ⟨input, hin, fun _ => hle⟩
    · obtain ⟨input, hin, -⟩ := hacc.checked.validUntil span hspan
      exact ⟨input, hin, fun heq => nomatch heq⟩
  obtain ⟨input, hin, hclock⟩ := hinput
  refine ⟨input, _, hin, getElem?_of_prefix hprefix (hacc.slot hin),
    readsAlike_iff _ _, ?_⟩
  intro hts halike
  rw [(readsAlike_iff _ _).mpr halike]
  exact le_trans (hclock hts) (asI64_le _)

namespace ClockSample

def circuit : Account Circuit := Sample.circuit ["timestamp"] 1

def signals : Signals := { data := [("timestamp", ⟨0, 1⟩)], count := 1 }

/-- One proof with the given timestamp word, at `Sample.now`. -/
def calls (timestamp : Bytes 32) : List Call :=
  [Sample.create [], Sample.prove [] circuit none (some Sample.proof) [timestamp]]

def run (timestamp : Bytes 32) : History × Option ProofRequestAccount :=
  exec (step Sample.runtime Sample.seeds) none (calls timestamp)

/-- The cluster time. -/
def onTime : Bytes 32 := Bytes.ofNum 32 1700000000

/-- A time in 2001 plus the group order. -/
def wrapped : Bytes 32 := Bytes.ofNum 32 (1000000000 + bn254r)

/-- A time in 2096. -/
def ahead : Bytes 32 := Bytes.ofNum 32 4000000000

/-- The one proof of such a run. -/
theorem proof_of_mem {timestamp : Bytes 32}
    {t : Transition (Option ProofRequestAccount) Call}
    (ht : t ∈ (run timestamp).1) {ctx : ProveProofRequest}
    {data : ProveProofRequestData} {now : Int} (hcall : t.call = .prove ctx data now) :
    ctx = { circuit, policy := Sample.policy [], issuer := none,
            authority := Sample.owner } ∧
      data = { proof := some Sample.proof, publicInputs := [timestamp],
               reset := false } ∧ now = Sample.now := by
  have hmem : t.call ∈ calls timestamp := call_mem_of_mem_exec ht
  rw [hcall] at hmem
  rcases List.mem_cons.mp hmem with heq | hmem
  · exact nomatch heq
  · obtain ⟨h1, h2, h3⟩ := Call.prove.inj (List.mem_singleton.mp hmem)
    exact ⟨h1, h2, h3⟩

end ClockSample

/-- A timestamp of eight bytes is proved as it was compared. -/
theorem verified_reads_alike_sample :
    ∃ (v : ProofRequestAccount) (used : Bytes 32),
      step Sample.runtime Sample.seeds (ClockSample.run ClockSample.onTime).2
        (Sample.verify ClockSample.circuit) = .ok (some v) ∧
      v.request.publicInputs[0]? = some used ∧
      scalarOf used = bytesToNum ClockSample.onTime := by
  obtain ⟨s', hok⟩ := exists_ok (x := step Sample.runtime Sample.seeds
    (ClockSample.run ClockSample.onTime).2 (Sample.verify ClockSample.circuit))
    (by decide +kernel)
  obtain ⟨t, before, ctx, data, now, a, signals, v, proof, hlatest, hcall, hpre,
    hlayout, hpost, -, -, hall⟩ :=
    verified_reads_alike_iff Sample.runtime Sample.seeds _ _ (run_exec_then hok) []
      _ _ _ _ _ rfl
  obtain ⟨rfl, rfl, -⟩ := ClockSample.proof_of_mem hlatest.mem hcall
  have hsignals : ClockSample.circuit.data.signals = some ClockSample.signals := by
    decide
  obtain rfl := Option.some.inj (hlayout.symm.trans hsignals)
  obtain ⟨input, used, hin, hused, hiff, -⟩ :=
    hall timestampSignal (Or.inl rfl) ⟨0, 1⟩ (by decide)
  have hempty : ∀ t ∈ (ClockSample.run ClockSample.onTime).1, ∀ a ∈ t.pre,
      a.request.publicInputs = [] := by decide +kernel
  rw [receiveInputs_append rfl] at hin
  simp only [hempty t hlatest.mem a hpre] at hin
  obtain rfl := Option.some.inj hin
  exact ⟨v, used, hpost ▸ hok, hused, hiff.mpr (by decide +kernel)⟩

/-- **THE PROGRAM AND THE VERIFIER READ DIFFERENT NUMBERS**: a timestamp of 2001,
    raised by the group order, passes the clock of 2023 and is verified. -/
theorem verified_reads_alike_fails :
    ∃ (h : History) (s : Option ProofRequestAccount) (timestamp : Bytes 32),
      Run (step Sample.runtime Sample.seeds) none h s ∧
      h.map (fun t => t.call) = [Sample.verify ClockSample.circuit,
        Sample.prove [] ClockSample.circuit none (some Sample.proof) [timestamp],
        Sample.create []] ∧
      ClockSample.circuit.data.signals = some ClockSample.signals ∧
      ClockSample.signals.get timestampSignal = some ⟨0, 1⟩ ∧
      (∃ v, s = some v ∧ v.request.status = .verified ∧
        v.request.publicInputs[0]? = some timestamp) ∧
      scalarOf timestamp ≠ bytesToNum timestamp ∧
      (scalarOf timestamp : Int) < Sample.now - timestampThreshold := by
  refine ⟨_, _, ClockSample.wrapped, run_exec (step Sample.runtime Sample.seeds) none
    (ClockSample.calls ClockSample.wrapped ++ [Sample.verify ClockSample.circuit]),
    exec_calls (by decide +kernel), by decide, by decide, by decide +kernel, by decide +kernel,
    by decide +kernel⟩

/-! ## The window around the clock -/

/-- Within the threshold of the clock, on both sides. -/
def InWindow (now : Int) (n : Nat) : Prop :=
  now - timestampThreshold ≤ n ∧ (n : Int) ≤ now + timestampThreshold

instance (now : Int) (n : Nat) : Decidable (InWindow now n) :=
  inferInstanceAs (Decidable (_ ∧ _))

/-- The submitted timestamp is no later than the threshold allows; one that a
    rule or the issuer's key is written over, is written in the window. -/
def NotAhead (now : Int) (input : Bytes 32) : Option (Bytes 32) → Prop
  | none => (input.toNum : Int) ≤ now + timestampThreshold
  | some written => InWindow now written.toNum

instance (now : Int) (input : Bytes 32) :
    (w : Option (Bytes 32)) → Decidable (NotAhead now input w)
  | none => inferInstanceAs (Decidable ((input.toNum : Int) ≤ _))
  | some written => inferInstanceAs (Decidable (InWindow now written.toNum))

/-- A word in the window of a 64-bit clock is its own scalar. -/
theorem InWindow.scalarOf {now : Int} {input : Bytes 32} (hnow : now ≤ i64Max)
    (hw : InWindow now input.toNum) : InWindow now (scalarOf input) := by
  have hlt : input.toNum < bn254r := by
    have hle := hw.2
    rw [i64Max] at hnow
    rw [timestampThreshold] at hle
    rw [bn254r]
    omega
  rw [Program.scalarOf]
  rw [Nat.mod_eq_of_lt hlt]
  exact hw

/-- **THE TIMESTAMP OF AN ACCEPTED PROOF**: the word left in the slot is in the
    window exactly when the submitted one is not ahead. -/
theorem AcceptedProof.window_iff {ctx : ProveProofRequest}
    {data : ProveProofRequestData} {now : Int} {before after : ProofRequest}
    {signals : Signals} (hacc : AcceptedProof ctx data now before after signals)
    {span : SignalValue} (hspan : signals.get timestampSignal = some span) :
    ∃ input stored,
      (receiveInputs data before).publicInputs[span.index]? = some input ∧
      after.publicInputs[span.index]? = some stored ∧
      (InWindow now stored.toNum ↔
        NotAhead now input (lastWrite
          (proveWrites signals ctx.issuer ctx.policy.data.rules) span.index)) := by
  obtain ⟨input, hin, hclock⟩ := hacc.checked.timestamp span hspan
  refine ⟨input, _, hin, hacc.slot hin, ?_⟩
  cases lastWrite (proveWrites signals ctx.issuer ctx.policy.data.rules) span.index with
  | some written => exact Iff.rfl
  | none =>
      -- the check of the handler is the lower bound
      have hlow : now - timestampThreshold ≤ (input.toNum : Int) := by
        refine le_trans hclock (le_trans (asI64_le _) ?_)
        exact Int.ofNat_le.mpr (bytesToNum_le input)
      exact ⟨fun hw => hw.2, fun hle => ⟨hlow, hle⟩⟩

/-- **THE PROVE-TIME WINDOW HOLDS EXACTLY WHEN THE TIMESTAMP IS NOT AHEAD.**  In
    every run, for every accepted proof-carrying call of a layout with a
    timestamp: the word in the slot is within the threshold of the clock if and
    only if the submitted one is not ahead; then every verification of that proof
    uses a timestamp within the threshold of that call's clock. -/
theorem prove_window_iff (rt : Runtime) (seeds : ProofRequestSeeds) (h : History)
    (s : Option ProofRequestAccount) (r : Run (step rt seeds) none h s)
    (later earlier : History) (pre post : Option ProofRequestAccount)
    (ctx : ProveProofRequest) (data : ProveProofRequestData) (now : Int)
    (hnow : now ≤ i64Max) (hproof : data.proof.isSome)
    (hh : h = later ++ ⟨pre, .prove ctx data now, post⟩ :: earlier) :
    ∃ a b signals, pre = some a ∧ post = some b ∧
      ctx.circuit.data.signals = some signals ∧
      ∀ span, signals.get timestampSignal = some span →
        ∃ input stored,
          (receiveInputs data a.request).publicInputs[span.index]? = some input ∧
          b.request.publicInputs[span.index]? = some stored ∧
          (InWindow now stored.toNum ↔
            NotAhead now input (lastWrite
              (proveWrites signals ctx.issuer ctx.policy.data.rules) span.index)) ∧
          ∀ rest mid vpre vctx vnow vpost,
            later = rest ++ ⟨vpre, .verify vctx vnow, vpost⟩ :: mid →
            (∀ t ∈ mid, ¬ t.call.CarriesProof) →
            ∃ v used, vpost = some v ∧ v.request.status = .verified ∧
              v.request.publicInputs[span.index]? = some used ∧
              (NotAhead now input (lastWrite
                (proveWrites signals ctx.issuer ctx.policy.data.rules)
                span.index) → InWindow now (scalarOf used)) := by
  obtain ⟨-, hstep⟩ := r.split hh
  obtain ⟨a, b, signals, hpre, hpost, -, hacc⟩ := acceptedProof_of_step hstep hproof
  refine ⟨a, b, signals, hpre, hpost, hacc.layout, ?_⟩
  intro span hspan
  obtain ⟨input, stored, hin, hstored, hiff⟩ := hacc.window_iff hspan
  refine ⟨input, stored, hin, hstored, hiff, ?_⟩
  intro rest mid vpre vctx vnow vpost hlater hmid
  -- the verification's proof is the one of this call
  have hv : h = rest ++ ⟨vpre, .verify vctx vnow, vpost⟩ ::
      (mid ++ ⟨pre, .prove ctx data now, post⟩ :: earlier) := by
    rw [hh, hlater, List.append_assoc]
    rfl
  obtain ⟨a', t, before, ctx', data', now', pa, pb, signals', -, hlatest, -, -, hpb, -,
    -, hprefix, hvpost⟩ := verify_traced r hv
  have hthis : LatestProof (mid ++ ⟨pre, .prove ctx data now, post⟩ :: earlier)
      ⟨pre, .prove ctx data now, post⟩ earlier :=
    ⟨mid, rfl, ⟨ctx, data, now, rfl, hproof⟩, hmid⟩
  obtain ⟨rfl, -⟩ := hlatest.unique hthis
  have hpb' : post = some pb := hpb
  have hpost' : post = some b := hpost
  rw [hpost'] at hpb'
  obtain rfl := Option.some.inj hpb'
  refine ⟨_, stored, hvpost, rfl, getElem?_of_prefix hprefix hstored, ?_⟩
  intro hahead
  exact (hiff.mpr hahead).scalarOf hnow

/-- A timestamp equal to the clock is in the window. -/
theorem prove_window_sample :
    ∃ (b : ProofRequestAccount) (stored : Bytes 32),
      step Sample.runtime Sample.seeds
        (exec (step Sample.runtime Sample.seeds) none [Sample.create []]).2
        (Sample.prove [] ClockSample.circuit none (some Sample.proof)
          [ClockSample.onTime]) = .ok (some b) ∧
      b.request.publicInputs[0]? = some stored ∧
      InWindow Sample.now stored.toNum := by
  obtain ⟨s', hok⟩ := exists_ok (x := step Sample.runtime Sample.seeds
    (exec (step Sample.runtime Sample.seeds) none [Sample.create []]).2
    (Sample.prove [] ClockSample.circuit none (some Sample.proof)
      [ClockSample.onTime])) (by decide +kernel)
  obtain ⟨a, b, signals, hpre, hpost, hlayout, hall⟩ :=
    prove_window_iff Sample.runtime Sample.seeds _ _ (run_exec_then hok) [] _ _ _ _ _ _
      (by decide) rfl rfl
  have hsignals : ClockSample.circuit.data.signals = some ClockSample.signals := by
    decide
  obtain rfl := Option.some.inj (hlayout.symm.trans hsignals)
  obtain ⟨input, stored, hin, hstored, hiff, -⟩ := hall ⟨0, 1⟩ (by decide)
  have hempty : ∀ a ∈ (exec (step Sample.runtime Sample.seeds) none
      [Sample.create []]).2, a.request.publicInputs = [] := by decide +kernel
  rw [receiveInputs_append rfl] at hin
  simp only [hempty a hpre] at hin
  obtain rfl := Option.some.inj hin
  exact ⟨b, stored, hpost ▸ hok, hstored, hiff.mpr (by decide +kernel)⟩

/-- **THE WINDOW IS OPEN ABOVE**: a timestamp of 2096 is accepted, and verified,
    at a clock of 2023. -/
theorem prove_window_fails :
    ∃ (h : History) (s : Option ProofRequestAccount),
      Run (step Sample.runtime Sample.seeds) none h s ∧
      h.map (fun t => t.call) = [Sample.verify ClockSample.circuit,
        Sample.prove [] ClockSample.circuit none (some Sample.proof)
          [ClockSample.ahead],
        Sample.create []] ∧
      ClockSample.circuit.data.signals = some ClockSample.signals ∧
      ClockSample.signals.get timestampSignal = some ⟨0, 1⟩ ∧
      (∃ v, s = some v ∧ v.request.status = .verified ∧
        v.request.publicInputs[0]? = some ClockSample.ahead) ∧
      ¬ InWindow Sample.now ClockSample.ahead.toNum ∧
      ¬ InWindow Sample.now (scalarOf ClockSample.ahead) := by
  refine ⟨_, _, run_exec (step Sample.runtime Sample.seeds) none
    (ClockSample.calls ClockSample.ahead ++ [Sample.verify ClockSample.circuit]),
    exec_calls (by decide +kernel), by decide, by decide, by decide +kernel, by decide +kernel,
    by decide +kernel⟩

end Albus.Program
