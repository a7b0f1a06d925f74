import Albus.Program.StoredProof

/-! # The issuer of a verified request

    `validate issuer` overwrites the two `issuerPk` slots with the halves of the
    issuer's zk key and records the issuer's address.  Signals with distinct
    names occupy disjoint spans, so rules that stay inside the signals they name
    leave the two slots alone, and whatever the owner appends later comes after
    them. -/

namespace Albus.Program

open Albus.Lib

/-- Rules about other signals, inside their signals' spans, write no slot of
    `issuerPk`. -/
theorem ruleWrites_avoid {signalList : List String} {signals : Signals}
    (hnew : Signals.new signalList = some signals) {rules : List PolicyRule}
    (hfit : RulesFit signals rules) {k : String}
    (hkey : ∀ rule ∈ rules, rule.key ≠ k) {span : SignalValue}
    (hspan : signals.get k = some span) {slot : Nat} (hlo : span.index ≤ slot)
    (hhi : slot < span.index + span.size) :
    ∀ w ∈ ruleWrites signals rules, w.1 ≠ slot := by
  intro w hw
  obtain ⟨rule, hrule, signal, hget, h1, h2⟩ := ruleWrites_span hfit hw
  have hdis := Signals.get_disjoint hnew (hkey rule hrule) hget hspan
  omega

/-- **THE ISSUER SLOTS OF AN ACCEPTED PROOF**: both halves of the key of the
    issuer account the call was given. -/
theorem issuer_slots_of_accepted {ctx : ProveProofRequest}
    {data : ProveProofRequestData} {now : Int} {before after : ProofRequest}
    {signals : Signals} (hacc : AcceptedProof ctx data now before after signals)
    {span : SignalValue} (hspan : signals.get issuerPkSignal = some span)
    (havoid : ∀ slot, span.index ≤ slot → slot < span.index + 2 →
      ∀ w ∈ ruleWrites signals ctx.policy.data.rules, w.1 ≠ slot) :
    ∃ iss, ctx.issuer = some iss ∧ iss.data.isDisabled = false ∧
      after.issuer = iss.key ∧
      after.publicInputs[span.index]? = some iss.data.zkPubkeyHalves.1 ∧
      after.publicInputs[span.index + 1]? = some iss.data.zkPubkeyHalves.2 := by
  obtain ⟨iss, hiss, hdis, hlen⟩ := hacc.checked.issuer span hspan
  obtain ⟨iss', hiss', hkey⟩ := hacc.issuer span hspan
  rw [hiss] at hiss'
  obtain rfl := Option.some.inj hiss'
  have hwrites : issuerWrites signals ctx.issuer
      = [(span.index, iss.data.zkPubkeyHalves.1)]
        ++ [(span.index + 1, iss.data.zkPubkeyHalves.2)] := by
    simp [issuerWrites, hspan, hiss]
  have hslot : ∀ slot, span.index ≤ slot → slot < span.index + 2 →
      after.publicInputs[slot]?
        = (lastWrite (issuerWrites signals ctx.issuer) slot).or
            (receiveInputs data before).publicInputs[slot]? := by
    intro slot hlo hhi
    rw [hacc.inputs, writeAll_getElem? _ _ (by omega), proveWrites,
      lastWrite_append_of_ne (havoid slot hlo hhi)]
  refine ⟨iss, hiss, hdis, hkey, ?_, ?_⟩
  · rw [hslot _ le_rfl (by omega), hwrites, lastWrite_concat, if_neg (by omega)]
    simp [lastWrite]
  · rw [hslot _ (by omega) (by omega), hwrites, lastWrite_concat, if_pos rfl]
    rfl

/-- **ISSUER BINDING**, at every verification of every run that leaves policy and
    circuit unchanged. -/
theorem verified_issuer_bound (rt : Runtime) (circuit : Account Circuit)
    (policy : Account Policy) (owner : Pubkey)
    (hcirc : policy.data.circuit = circuit.key)
    (hnames : (signalNames
      (circuit.data.outputs ++ circuit.data.publicSignals)).Nodup)
    (signal : String)
    (hsignal : signal ∈ circuit.data.outputs ++ circuit.data.publicSignals)
    (hparse : parseSignal signal = some (issuerPkSignal, 2))
    (hkey : ∀ rule ∈ policy.data.rules, rule.key ≠ issuerPkSignal)
    (hfit : ∀ signals, circuit.data.signals = some signals →
      RulesFit signals policy.data.rules)
    (h : History) (s : Option ProofRequestAccount)
    (r : Run (step rt ⟨policy.key, owner⟩) none h s)
    (hcalls : ∀ t ∈ h, t.call.Unchanged circuit policy)
    (later earlier : History) (pre post : Option ProofRequestAccount)
    (vctx : VerifyProofRequest) (vnow : Int)
    (hh : h = later ++ ⟨pre, .verify vctx vnow, post⟩ :: earlier) :
    ∃ signals slot t before ctx data now iss b,
      circuit.data.signals = some signals ∧
      signals.get issuerPkSignal = some ⟨slot, 2⟩ ∧
      LatestProof earlier t before ∧ t.call = .prove ctx data now ∧
      ctx.issuer = some iss ∧ iss.data.isDisabled = false ∧
      post = some b ∧ b.request.status = .verified ∧
      b.request.issuer = iss.key ∧
      b.request.publicInputs[slot]? = some iss.data.zkPubkeyHalves.1 ∧
      b.request.publicInputs[slot + 1]? = some iss.data.zkPubkeyHalves.2 := by
  obtain ⟨a, t, before, ctx, data, now, pa, pb, signals, hpre, hlatest, hcall,
    hbefore, -, hacc, hissuer, hprefix, hpost⟩ := verify_traced r hh
  -- the accepted proof was checked under this policy and this layout
  obtain ⟨mid, hmid, -, -⟩ := id hlatest
  have hh' : h = (later ++ ⟨pre, .verify vctx vnow, post⟩ :: mid) ++ t :: before := by
    rw [hh, hmid, List.append_assoc]
    rfl
  obtain ⟨hrules, hsig⟩ := accepted_under hcirc r hcalls hh' hcall hbefore hacc
  obtain ⟨span, hspan, hsize⟩ := Signals.get_of_mem hsig hnames hsignal hparse
  -- the issuer slots belong to no rule
  have havoid : ∀ slot, span.index ≤ slot → slot < span.index + 2 →
      ∀ w ∈ ruleWrites signals ctx.policy.data.rules, w.1 ≠ slot := by
    intro slot hlo hhi
    rw [hrules]
    exact ruleWrites_avoid hsig (hfit signals hsig) hkey hspan hlo (by omega)
  obtain ⟨iss, hiss, hdis, hkey', h0, h1⟩ :=
    issuer_slots_of_accepted hacc hspan havoid
  refine ⟨signals, span.index, t, before, ctx, data, now, iss, _, hsig, ?_, hlatest,
    hcall, hiss, hdis, hpost, rfl, ?_, ?_, ?_⟩
  · rw [hspan, ← hsize]
  · exact hissuer.symm.trans hkey'
  · exact getElem?_of_prefix hprefix h0
  · exact getElem?_of_prefix hprefix h1

namespace IssuerSample

def circuit : Account Circuit := Sample.circuit ["timestamp", "issuerPk[2]"] 4

/-- The owner supplies an issuer key of its own, then one more input. -/
def calls : List Call :=
  [Sample.create [],
    Sample.prove [] circuit (some Sample.issuer) (some Sample.proof)
      [Bytes.ofNum 32 1700000000, Bytes.ofNum 32 1, Bytes.ofNum 32 2],
    Sample.prove [] circuit none none [Bytes.ofNum 32 3]]

def run : History × Option ProofRequestAccount :=
  exec (step Sample.runtime Sample.seeds) none calls

end IssuerSample

/-- The verified request holds the issuer's halves, not the owner's. -/
theorem verified_issuer_bound_sample :
    ∃ (iss : Account Issuer) (b : ProofRequestAccount),
      iss.data.isDisabled = false ∧
      step Sample.runtime Sample.seeds IssuerSample.run.2
        (Sample.verify IssuerSample.circuit) = .ok (some b) ∧
      b.request.issuer = iss.key ∧
      ∃ slot, b.request.publicInputs[slot]? = some iss.data.zkPubkeyHalves.1 ∧
        b.request.publicInputs[slot + 1]? = some iss.data.zkPubkeyHalves.2 := by
  obtain ⟨s', hok⟩ := exists_ok (x := step Sample.runtime Sample.seeds
    IssuerSample.run.2 (Sample.verify IssuerSample.circuit)) (by decide +kernel)
  have hfit : ∀ signals, IssuerSample.circuit.data.signals = some signals →
      RulesFit signals (Sample.policy []).data.rules := by
    intro signals _ k signal _
    exact Nat.zero_le _
  have hcalls : ∀ t ∈ IssuerSample.run.1,
      t.call.Unchanged IssuerSample.circuit (Sample.policy []) := by
    refine forall_exec (P := Call.Unchanged IssuerSample.circuit (Sample.policy [])) ?_
    simp only [IssuerSample.calls, List.forall_mem_cons, Sample.unchanged_create,
      Sample.unchanged_prove, List.not_mem_nil, false_imp_iff, implies_true, and_self]
  obtain ⟨signals, slot, t, before, ctx, data, now, iss, b, -, -, -, -, -, hdis,
    hpost, -, hiss, h0, h1⟩ :=
    verified_issuer_bound Sample.runtime IssuerSample.circuit (Sample.policy [])
      Sample.owner rfl (by decide) "issuerPk[2]" (by decide) (by decide)
      (fun _ hr => nomatch hr) hfit _ _ (run_exec_then hok) (by
        intro t ht
        rcases List.mem_cons.mp ht with rfl | hmem
        · exact Sample.unchanged_verify [] _
        · exact hcalls t hmem) [] _ _ _ _ _ rfl
  exact ⟨iss, b, hdis, hpost ▸ hok, hiss, slot, h0, h1⟩

end Albus.Program
