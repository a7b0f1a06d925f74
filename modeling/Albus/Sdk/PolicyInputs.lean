import Albus.Program.RuleInfluence
import Albus.Sdk.ProofInputBuilder

/-! # The inputs the client makes of a policy

    `ProofInputBuilder` fills a public signal from the rules of its name, one value a
    rule, padded with zeros to the FIRST dimension of the signal; the program lays the
    signal out with the product of all dimensions, and writes the rules from its first
    slot on.  The claims of the private signals go to the same data, with their keys
    and proofs under derived names.  The two sides agree exactly where the numbers of
    values do, no claim takes the signal's place, the rules' words are field elements,
    and no rule of another signal runs on into this one. -/

namespace Albus.Sdk

open Albus.Lib Albus.Core Albus.Program

/-! ## Agreement -/

/-- The public input that a value given to the circuit ends up as. -/
def publicWord (value : ℕ) : Bytes 32 := Bytes.ofNum 32 (value % bn254r)

/-- Whatever the builder has for known signals, the policy feeds the signal, and the
    circuit is given what the policy fed. -/
def FedBy (circuit : Circuit) (rules : List PolicyRule) (signal : String)
    (value : SignalInput) : Prop :=
  (∀ known, applyPublicSignal known rules (parseSignal signal) = .ok (some value)) ∧
  ∀ data, Build circuit rules data →
    ∃ given ∈ property data (parseSignal signal).name, given.flatten = value.flatten

/-- A public signal that some rule names. -/
def PolicyNamed (circuit : Circuit) (rules : List PolicyRule) (signal : String) : Prop :=
  signal ∈ circuit.publicSignals ∧ ∃ rule ∈ rules, rule.key = (parseSignal signal).name

/-- Public inputs that come from the fed values, wherever a policy signal lies. -/
def Carries (circuit : Circuit) (rules : List PolicyRule) (signals : Signals)
    (inputs : List (Bytes 32)) : Prop :=
  inputs.length = signals.count ∧
  ∀ signal, PolicyNamed circuit rules signal → ∀ value, FedBy circuit rules signal value →
    ∀ span ∈ signals.get (parseSignal signal).name, ∀ j < span.size,
      ∀ x ∈ value.flatten[j]?, inputs[span.index + j]? = some (publicWord x)

/-- Client and chain agree on the policy's inputs: every public signal that the policy
    names is fed as many values as it has slots, and `apply_rules` changes nothing in
    public inputs that carry these values. -/
def PolicyInputsAgree (circuit : Circuit) (rules : List PolicyRule) : Prop :=
  ∀ signals ∈ circuit.signals,
    (∀ signal, PolicyNamed circuit rules signal → ∃ value, FedBy circuit rules signal value ∧
      ∀ span ∈ signals.get (parseSignal signal).name, value.flatten.length = span.size) ∧
    ∀ inputs, Carries circuit rules signals inputs → applyRules rules inputs signals = inputs

/-! ## When they agree -/

/-- How many values the policy feeds: one to what the client takes for a scalar, else
    as many as the first dimension or the rules, whichever is more. -/
def fedSize (rules : List PolicyRule) (signal : ParseSignalResult) : ℕ :=
  if signal.size = 0 then 1
  else max signal.size.toNat (rulesOf rules signal.name).length

/-- The value at position `j` of a signal. -/
def fedValue (rules : List PolicyRule) (name : String) (j : ℕ) : ℕ :=
  match (rulesOf rules name)[j]? with
  | some rule => rule.value.toNum
  | none => 0

/-- What makes a signal fed as it is laid out. -/
structure FedFull (circuit : Circuit) (rules : List PolicyRule) (signals : Signals)
    (signal : String) : Prop where
  /-- The builder does not fill the signal otherwise. -/
  unknown : (parseSignal signal).name ∉ knownSignals
  unclaimed : ∀ p ∈ circuit.privateSignals, (parseSignal p).name ∉ knownSignals →
    (parseSignal signal).name ∉ claimNames (parseSignal p).name
  ownProperty : (parseSignal signal).name ≠ "__proto__"
  length : (parseSignal signal).size.toNat ≤ maxArrayLength
  size : ∀ span ∈ signals.get (parseSignal signal).name,
    fedSize rules (parseSignal signal) = span.size

/-- The last rule aimed at a slot is aimed at a public signal that the policy names,
    and carries the word of the value fed there. -/
def AimsAtFed (circuit : Circuit) (rules : List PolicyRule) (signals : Signals) : Prop :=
  ∀ slot < signals.count, ∀ w ∈ lastWrite (ruleWrites signals rules) slot,
    ∃ signal, PolicyNamed circuit rules signal ∧
      ∃ span ∈ signals.get (parseSignal signal).name, ∃ j < span.size,
        span.index + j = slot ∧ w = publicWord (fedValue rules (parseSignal signal).name j)

theorem rulesOf_pos {rules : List PolicyRule} {name : String} :
    0 < (rulesOf rules name).length ↔ ∃ rule ∈ rules, rule.key = name := by
  rw [List.length_pos_iff_exists_mem]
  constructor
  · rintro ⟨rule, hmem⟩
    obtain ⟨hrule, hkey⟩ := List.mem_filter.mp hmem
    exact ⟨rule, hrule, of_decide_eq_true hkey⟩
  · rintro ⟨rule, hrule, hkey⟩
    exact ⟨rule, List.mem_filter.mpr ⟨hrule, decide_eq_true hkey⟩⟩

theorem assignOverZeros_length (length : ℕ) (values : List ℕ) :
    (assignOverZeros length values).length = max length values.length := by
  rw [assignOverZeros, List.length_append, List.length_replicate]
  omega

/-- The values of a policy signal: one for each rule, then zeros. -/
theorem assignOverZeros_getElem? (rules : List PolicyRule) (name : String) {length j : ℕ}
    {x : ℕ}
    (h : (assignOverZeros length ((rulesOf rules name).map fun r => r.value.toNum))[j]?
      = some x) :
    x = fedValue rules name j := by
  rw [fedValue]
  by_cases hj : j < (rulesOf rules name).length
  · rw [assignOverZeros, List.getElem?_append_left (by rwa [List.length_map]),
      List.getElem?_map, List.getElem?_eq_getElem hj] at h
    rw [List.getElem?_eq_getElem hj]
    exact (Option.some.inj h).symm
  · rw [assignOverZeros,
      List.getElem?_append_right (by rw [List.length_map]; omega)] at h
    rw [List.getElem?_eq_none (Nat.not_lt.mp hj)]
    exact List.eq_of_mem_replicate (List.mem_of_getElem? h)

/-- **WHAT THE POLICY FEEDS** to a signal it names. -/
theorem applyPolicySignal_ok {rules : List PolicyRule} {signal : ParseSignalResult}
    {value : SignalInput} (h : applyPolicySignal rules signal = .ok (some value)) :
    signal.size.toNat ≤ maxArrayLength ∧ value.flatten.length = fedSize rules signal ∧
      ∀ j, ∀ x ∈ value.flatten[j]?, x = fedValue rules signal.name j := by
  simp only [applyPolicySignal] at h
  by_cases hpos : 0 < (rulesOf rules signal.name).length
  · rw [if_pos hpos] at h
    by_cases hlen : maxArrayLength < signal.size.toNat
    · rw [if_pos hlen] at h
      exact nomatch h
    rw [if_neg hlen] at h
    obtain rfl := Option.some.inj (Except.ok.inj h)
    refine ⟨Nat.not_lt.mp hlen, ?_⟩
    simp only [fedSize, policyValue]
    by_cases hzero : signal.size = 0
    · rw [if_pos hzero, if_pos hzero]
      refine ⟨rfl, ?_⟩
      intro j x hx
      cases j with
      | succ j => exact nomatch hx
      | zero =>
          obtain ⟨rule, rest, hrules⟩ := List.exists_cons_of_length_pos hpos
          rw [fedValue, hrules]
          rw [hrules] at hx
          exact (Option.some.inj (Option.mem_def.mp hx)).symm
    · rw [if_neg hzero, if_neg hzero]
      refine ⟨?_, ?_⟩
      · show (assignOverZeros _ _).length = _
        rw [assignOverZeros_length, List.length_map]
      · intro j x hx
        exact assignOverZeros_getElem? rules signal.name hx
  · rw [if_neg hpos] at h
    exact nomatch h

theorem applyPolicySignal_isSome {rules : List PolicyRule} {signal : ParseSignalResult}
    (hnamed : ∃ rule ∈ rules, rule.key = signal.name)
    (hlen : signal.size.toNat ≤ maxArrayLength) :
    ∃ value, applyPolicySignal rules signal = .ok (some value) := by
  refine ⟨policyValue (rulesOf rules signal.name) signal, ?_⟩
  simp only [applyPolicySignal]
  rw [if_pos (rulesOf_pos.mpr hnamed), if_neg (Nat.not_lt.mpr hlen)]

/-- Signals of one name and one number of values are fed the same. -/
theorem applyPolicySignal_flatten {rules : List PolicyRule} {signal signal' : ParseSignalResult}
    {value value' : SignalInput} (h : applyPolicySignal rules signal = .ok (some value))
    (h' : applyPolicySignal rules signal' = .ok (some value'))
    (hname : signal'.name = signal.name)
    (hsize : fedSize rules signal' = fedSize rules signal) : value'.flatten = value.flatten := by
  obtain ⟨-, hlength, hvalues⟩ := applyPolicySignal_ok h
  obtain ⟨-, hlength', hvalues'⟩ := applyPolicySignal_ok h'
  refine List.ext_getElem (by rw [hlength, hlength', hsize]) ?_
  intro j hj hj'
  rw [hvalues j _ (List.getElem?_eq_getElem hj'), hvalues' j _ (List.getElem?_eq_getElem hj),
    hname]

/-! ### What is fed is given -/

/-- The two parsers split off the same name. -/
theorem parseSignal_name {signal name : String} {size : ℕ}
    (h : Albus.Program.parseSignal signal = some (name, size)) :
    (parseSignal signal).name = name := by
  rw [Albus.Program.parseSignal, Albus.Program.parseSignalAux] at h
  rw [parseSignal, parseSignalAux]
  obtain ⟨⟨cs, size'⟩, haux, heq⟩ := Option.map_eq_some_iff.mp h
  obtain ⟨rfl, rfl⟩ := Prod.mk.inj heq
  dsimp only at haux ⊢
  split at haux
  · rename_i hsplit
    rw [if_pos hsplit]
    have hname : cs = signal.toList.take (signal.toList.idxOf '[') := by
      split at haux
      · obtain ⟨rest, -, haux⟩ := Option.bind_eq_some_iff.mp haux
        obtain ⟨checked, -, haux⟩ := Option.bind_eq_some_iff.mp haux
        exact (Prod.mk.inj (Option.some.inj haux)).1.symm
      · exact (Prod.mk.inj (Option.some.inj haux)).1.symm
    rw [hname]
    split <;> rfl
  · rename_i hsplit
    rw [if_neg hsplit, ← (Prod.mk.inj (Option.some.inj haux)).1]
    rfl

/-- Every public signal has a span in the layout. -/
theorem exists_span {circuit : Circuit} {signals : Signals}
    (hsig : circuit.signals = some signals) {signal : String}
    (hmem : signal ∈ circuit.publicSignals) :
    ∃ span, signals.get (parseSignal signal).name = some span := by
  have hlisted := List.mem_append_right circuit.outputs hmem
  obtain ⟨name, size, hparse⟩ := parses_of_new hsig signal hlisted
  obtain ⟨span, hdata, -⟩ := (new_data hsig).2 signal hlisted name size hparse
  rw [parseSignal_name hparse]
  exact exists_lookup hdata

/-- **WHAT THE POLICY FEEDS IS GIVEN** to the circuit, where no claim takes its place and
    signals of one name are fed one number of values. -/
theorem fedBy_of_unclaimed {circuit : Circuit} {rules : List PolicyRule} {signal : String}
    (hnamed : PolicyNamed circuit rules signal)
    (hunknown : (parseSignal signal).name ∉ knownSignals)
    (hunclaimed : ∀ p ∈ circuit.privateSignals, (parseSignal p).name ∉ knownSignals →
      (parseSignal signal).name ∉ claimNames (parseSignal p).name)
    (hown : (parseSignal signal).name ≠ "__proto__")
    (hsizes : ∀ signal' ∈ circuit.publicSignals,
      (parseSignal signal').name = (parseSignal signal).name →
        fedSize rules (parseSignal signal') = fedSize rules (parseSignal signal))
    {value : SignalInput}
    (hvalue : applyPolicySignal rules (parseSignal signal) = .ok (some value)) :
    FedBy circuit rules signal value := by
  have hturns := applyPublicSignal_iff.mpr ⟨hunknown, hvalue⟩
  refine ⟨hturns, ?_⟩
  rintro data @⟨known, claimsTree, privates, publics, turns, hprivates, hpublics, horder⟩
  have hassigned : ∃ value, ((parseSignal signal).name, value) ∈ turns.flatten := by
    obtain ⟨turn, hturn, hok⟩ := exists_result hpublics (List.mem_map_of_mem hnamed.1)
    rw [hturns known] at hok
    refine ⟨value, List.mem_flatten.mpr ⟨turn, horder.mem_iff.mpr (.inr hturn), ?_⟩⟩
    rw [← Except.ok.inj hok]
    exact List.mem_singleton.mpr rfl
  obtain ⟨given, hgiven⟩ := property_isSome hown hassigned
  refine ⟨given, hgiven, ?_⟩
  obtain ⟨turn, hturn, hmem⟩ := List.mem_flatten.mp (mem_of_property hgiven).2
  rcases horder.mem_iff.mp hturn with hprivate | hpublic
  · -- no turn of the private loop assigns to the name
    obtain ⟨parsed, hparsed, hok⟩ := exists_turn hprivates hprivate
    obtain ⟨p, hp, rfl⟩ := List.mem_map.mp hparsed
    rcases applyPrivateSignal_ok hok with ⟨-, hknown⟩ | ⟨hpunknown, hclaim⟩
    · exact absurd (hknown _ hmem) hunknown
    · have hname := List.mem_map_of_mem (f := Prod.fst) hmem
      rw [applyCredentialSignal_names hclaim] at hname
      exact absurd hname (hunclaimed p hp hpunknown)
  · -- and any turn of the public loop that does feeds the same values
    obtain ⟨signal', hmem', hname, hvalue'⟩ := publicTurn_ok hpublics hpublic hmem hunknown
    exact applyPolicySignal_flatten hvalue hvalue' hname (hsizes signal' hmem' hname)

theorem fedBy_of_fedFull {circuit : Circuit} {rules : List PolicyRule} {signals : Signals}
    (hsig : circuit.signals = some signals)
    (hfull : ∀ signal, PolicyNamed circuit rules signal → FedFull circuit rules signals signal)
    {signal : String} (hnamed : PolicyNamed circuit rules signal) {value : SignalInput}
    (hvalue : applyPolicySignal rules (parseSignal signal) = .ok (some value)) :
    FedBy circuit rules signal value := by
  have hsignal := hfull signal hnamed
  obtain ⟨span, hspan⟩ := exists_span hsig hnamed.1
  refine fedBy_of_unclaimed hnamed hsignal.unknown hsignal.unclaimed hsignal.ownProperty ?_
    hvalue
  intro signal' hmem' hname
  have hsignal' := hfull signal' ⟨hmem', hname ▸ hnamed.2⟩
  rw [hsignal.size span hspan, hsignal'.size span (hname ▸ hspan)]

/-! ### A claim in its place -/

/-- The public loop ends, if what the policy names is fed. -/
theorem exists_publics {circuit : Circuit} {rules : List PolicyRule}
    (hfed : ∀ signal, PolicyNamed circuit rules signal →
      ∃ value, FedBy circuit rules signal value)
    {known : String → Except String SignalInput}
    (hknown : ∀ name, ∃ value, known name = .ok value) :
    ∃ publics, applyPublicSignals known rules (circuit.publicSignals.map parseSignal)
      = .ok publics := by
  refine exists_mapM_eq_ok ?_
  intro parsed hparsed
  obtain ⟨signal, hsignal, rfl⟩ := List.mem_map.mp hparsed
  by_cases hnamed : PolicyNamed circuit rules signal
  · obtain ⟨value, hturns, -⟩ := hfed signal hnamed
    rw [hturns known]
    exact ⟨_, rfl⟩
  · rw [applyPublicSignal, applySignal]
    by_cases hname : (parseSignal signal).name ∈ knownSignals
    · obtain ⟨value, hvalue⟩ := hknown (parseSignal signal).name
      rw [if_pos hname, hvalue]
      exact ⟨_, rfl⟩
    · have hnone : ¬ 0 < (rulesOf rules (parseSignal signal).name).length := fun hpos =>
        hnamed ⟨hsignal, rulesOf_pos.mp hpos⟩
      rw [if_neg hname]
      show ∃ y, (applyPolicySignal rules (parseSignal signal)).map _ = .ok y
      rw [applyPolicySignal, if_neg hnone]
      exact ⟨_, rfl⟩

/-- The private loop ends, if the tree has every claim. -/
theorem exists_privates {known : String → Except String SignalInput}
    (hknown : ∀ name, ∃ value, known name = .ok value) {claimsTree : ClaimsTree}
    (htree : ∀ signal, ∃ assigned,
      applyCredentialSignal (some claimsTree) signal true = .ok assigned)
    (privateSignals : List ParseSignalResult) :
    ∃ privates, applyPrivateSignals known (some claimsTree) privateSignals = .ok privates := by
  refine exists_mapM_eq_ok ?_
  intro signal _
  rw [applyPrivateSignal, applySignal]
  by_cases hname : signal.name ∈ knownSignals
  · obtain ⟨value, hvalue⟩ := hknown signal.name
    rw [if_pos hname, hvalue]
    exact ⟨_, rfl⟩
  · rw [if_neg hname]
    exact htree signal

/-- The names of a claim are assigned to. -/
theorem claim_assigned {known : String → Except String SignalInput}
    {claimsTree : Option ClaimsTree} {privateSignals : List String} {privates : List Assignments}
    (h : applyPrivateSignals known claimsTree (privateSignals.map parseSignal) = .ok privates)
    {p name : String} (hp : p ∈ privateSignals) (hunknown : (parseSignal p).name ∉ knownSignals)
    (hclaim : name ∈ claimNames (parseSignal p).name) :
    ∃ value, (name, value) ∈ privates.flatten := by
  cases claimsTree with
  | none => exact nomatch h
  | some claimsTree =>
      obtain ⟨turn, hturn, hok⟩ := exists_result h (List.mem_map_of_mem hp)
      rcases applyPrivateSignal_ok hok with ⟨hknown, -⟩ | ⟨-, hcredential⟩
      · exact absurd hknown hunknown
      · rw [← applyCredentialSignal_names hcredential] at hclaim
        obtain ⟨⟨_, value⟩, hmem, rfl⟩ := List.mem_map.mp hclaim
        exact ⟨value, List.mem_flatten.mpr ⟨turn, hturn, hmem⟩⟩

/-- A build in which the private loop comes last, and brings other values to the name. -/
theorem exists_build {circuit : Circuit} {rules : List PolicyRule}
    (hfed : ∀ signal, PolicyNamed circuit rules signal →
      ∃ value, FedBy circuit rules signal value)
    {name : String} (hunknown : name ∉ knownSignals) (values : List ℕ) :
    ∃ data, Build circuit rules data ∧
      ((∃ p ∈ circuit.privateSignals, (parseSignal p).name ∉ knownSignals ∧
        name ∈ claimNames (parseSignal p).name) →
        ∀ value ∈ property data name, value.flatten ≠ values) := by
  -- the builder has something for every known signal
  have hknown : ∀ name, ∃ value : SignalInput,
      (fun _ : String => (.ok (.scalar 0) : Except String SignalInput)) name = .ok value :=
    fun _ => ⟨_, rfl⟩
  obtain ⟨claimsTree, htree⟩ := exists_claimsTree name values
  obtain ⟨publics, hpublics⟩ := exists_publics hfed hknown
  obtain ⟨privates, hprivates⟩ := exists_privates hknown
    (fun signal => (htree signal).imp fun _ h => h.1) (circuit.privateSignals.map parseSignal)
  refine ⟨_, .mk hprivates hpublics (Interleaves.second_first privates publics), ?_⟩
  rintro ⟨p, hp, hpunknown, hclaim⟩ value hvalue
  -- the claim is assigned, so the property is one of the private loop
  rw [List.flatten_append, property_append (claim_assigned hprivates hp hpunknown hclaim)]
    at hvalue
  obtain ⟨turn, hturn, hmem⟩ := List.mem_flatten.mp (mem_of_property hvalue).2
  obtain ⟨parsed, -, hok⟩ := exists_turn hprivates hturn
  rcases applyPrivateSignal_ok hok with ⟨-, hnames⟩ | ⟨-, hcredential⟩
  · exact absurd (hnames _ hmem) hunknown
  · obtain ⟨assigned, hassigned, hvalues⟩ := htree parsed
    obtain rfl := Except.ok.inj (hassigned.symm.trans hcredential)
    exact hvalues value hmem

/-- **NOTHING ELSE IS GIVEN** where the policy feeds all it names. -/
theorem fedFull_of_fedBy {circuit : Circuit} {rules : List PolicyRule} {signals : Signals}
    (hfed : ∀ signal, PolicyNamed circuit rules signal →
      ∃ value, FedBy circuit rules signal value ∧
        ∀ span ∈ signals.get (parseSignal signal).name, value.flatten.length = span.size)
    {signal : String} (hnamed : PolicyNamed circuit rules signal) :
    FedFull circuit rules signals signal := by
  obtain ⟨value, ⟨hturns, hgiven⟩, hlength⟩ := hfed signal hnamed
  obtain ⟨hunknown, hok⟩ := applyPublicSignal_iff.mp hturns
  obtain ⟨hlen, hsize, -⟩ := applyPolicySignal_ok hok
  obtain ⟨data, hbuild, hother⟩ :=
    exists_build (fun s hs => (hfed s hs).imp fun _ h => h.1) hunknown value.flatten
  obtain ⟨given, hproperty, hsame⟩ := hgiven data hbuild
  exact
    { unknown := hunknown
      unclaimed := fun p hp hpunknown hclaim =>
        hother ⟨p, hp, hpunknown, hclaim⟩ given hproperty hsame
      ownProperty := (mem_of_property hproperty).1
      length := hlen
      size := fun span hspan => hsize.symm.trans (hlength span hspan) }

/-! ### The slots -/

/-- Two policy signals that share a slot are one signal, at one position. -/
theorem fedValue_of_slot {circuit : Circuit} {signals : Signals}
    (hsig : circuit.signals = some signals) (rules : List PolicyRule) {k k' : String}
    {span span' : SignalValue} (hk : signals.get k = some span)
    (hk' : signals.get k' = some span') {j j' : ℕ} (hj : j < span.size)
    (hj' : j' < span'.size) (hslot : span.index + j = span'.index + j') :
    fedValue rules k j = fedValue rules k' j' := by
  by_cases heq : k = k'
  · subst heq
    rw [hk] at hk'
    obtain rfl := Option.some.inj hk'
    have hjj : j = j' := by omega
    rw [hjj]
  · have hdisj := Signals.get_disjoint hsig heq hk hk'
    omega

theorem span_end_le {circuit : Circuit} {signals : Signals}
    (hsig : circuit.signals = some signals) {k : String} {span : SignalValue}
    (hspan : signals.get k = some span) : span.index + span.size ≤ signals.count :=
  (new_stacked hsig).end_le _ (mem_of_lookup hspan)

/-- There are public inputs that carry all fed values. -/
theorem exists_carries {circuit : Circuit} {signals : Signals}
    (hsig : circuit.signals = some signals) (rules : List PolicyRule) :
    ∃ inputs, Carries circuit rules signals inputs := by
  classical
  -- the word of a slot, read off any signal that has the slot
  let word (slot : ℕ) : Bytes 32 :=
    if h : ∃ k span j, signals.get k = some span ∧ j < span.size ∧ span.index + j = slot then
      publicWord (fedValue rules h.choose h.choose_spec.choose_spec.choose)
    else publicWord 0
  have hword : ∀ k span j, signals.get k = some span → j < span.size →
      word (span.index + j) = publicWord (fedValue rules k j) := by
    intro k span j hk hj
    have h : ∃ k' span' j', signals.get k' = some span' ∧ j' < span'.size ∧
        span'.index + j' = span.index + j := ⟨k, span, j, hk, hj, rfl⟩
    obtain ⟨hk', hj', hslot⟩ := h.choose_spec.choose_spec.choose_spec
    show (if h : _ then _ else _) = _
    rw [dif_pos h, fedValue_of_slot hsig rules hk' hk hj' hj hslot]
  refine ⟨(List.range signals.count).map word, ?_, ?_⟩
  · rw [List.length_map, List.length_range]
  · intro signal _ value hfed span hspan j hj x hx
    obtain ⟨-, -, hvalues⟩ := applyPolicySignal_ok (applyPublicSignal_iff.mp hfed.1).2
    have hend := span_end_le hsig hspan
    rw [List.getElem?_map, List.getElem?_range (by omega), Option.map_some,
      hword _ _ _ hspan hj, hvalues j x hx]

/-- In a slot of no policy signal any word may stand. -/
theorem Carries.set {circuit : Circuit} {rules : List PolicyRule} {signals : Signals}
    {inputs : List (Bytes 32)} (h : Carries circuit rules signals inputs) {slot : ℕ}
    (hslot : ∀ signal, PolicyNamed circuit rules signal →
      ∀ span ∈ signals.get (parseSignal signal).name, ∀ j < span.size, span.index + j ≠ slot)
    (w : Bytes 32) : Carries circuit rules signals (inputs.set slot w) := by
  refine ⟨?_, ?_⟩
  · rw [List.length_set]
    exact h.1
  · intro signal hnamed value hfed span hspan j hj x hx
    rw [List.getElem?_set_ne (fun heq => hslot signal hnamed span hspan j hj heq.symm)]
    exact h.2 signal hnamed value hfed span hspan j hj x hx

/-- What `apply_rules` keeps is what the last rule aimed at the slot carries. -/
theorem word_of_kept {rules : List PolicyRule} {signals : Signals}
    {inputs : List (Bytes 32)} {slot : ℕ} {w : Bytes 32}
    (hkeep : applyRules rules inputs signals = inputs) (hlt : slot < inputs.length)
    (hw : lastWrite (ruleWrites signals rules) slot = some w) : inputs[slot]? = some w := by
  have hslot := congrArg (fun l => l[slot]?) hkeep
  simp only [applyRules_eq_writeAll] at hslot
  rw [writeAll_getElem? _ _ hlt, hw, Option.some_or] at hslot
  exact hslot.symm

theorem exists_word_ne (w : Bytes 32) : ∃ w' : Bytes 32, w' ≠ w := by
  by_cases h : publicWord 0 = w
  · refine ⟨publicWord 1, ?_⟩
    rw [← h]
    decide
  · exact ⟨publicWord 0, h⟩

/-- If nothing is ever changed, every rule is aimed at a fed value. -/
theorem aimsAtFed_of_kept {circuit : Circuit} {rules : List PolicyRule} {signals : Signals}
    (hsig : circuit.signals = some signals)
    (hkeep : ∀ inputs, Carries circuit rules signals inputs →
      applyRules rules inputs signals = inputs)
    (hfed : ∀ signal, PolicyNamed circuit rules signal → ∃ value, FedBy circuit rules signal value ∧
      ∀ span ∈ signals.get (parseSignal signal).name, value.flatten.length = span.size) :
    AimsAtFed circuit rules signals := by
  intro slot hslot w hw
  obtain ⟨inputs, hcarries⟩ := exists_carries hsig rules
  by_cases hin : ∃ signal, PolicyNamed circuit rules signal ∧
      ∃ span ∈ signals.get (parseSignal signal).name, ∃ j < span.size, span.index + j = slot
  · -- a slot of a policy signal: it holds the word of the fed value
    obtain ⟨signal, hnamed, span, hspan, j, hj, rfl⟩ := hin
    obtain ⟨value, hvalue, hlength⟩ := hfed signal hnamed
    obtain ⟨-, -, hvalues⟩ := applyPolicySignal_ok (applyPublicSignal_iff.mp hvalue.1).2
    have hx := List.getElem?_eq_getElem (l := value.flatten) (i := j)
      (by rw [hlength span hspan]; exact hj)
    have hinput := hcarries.2 signal hnamed value hvalue span hspan j hj _ hx
    have hkept := word_of_kept (hkeep inputs hcarries) (by rw [hcarries.1]; exact hslot) hw
    rw [hinput, hvalues j _ hx] at hkept
    exact ⟨signal, hnamed, span, hspan, j, hj, rfl, (Option.some.inj hkept).symm⟩
  · -- any other slot may hold another word than the rule's
    obtain ⟨w', hne⟩ := exists_word_ne w
    have hset := hcarries.set (fun signal hnamed span hspan j hj (heq : _ = slot) =>
      hin ⟨signal, hnamed, span, hspan, j, hj, heq⟩) w'
    have hlt : slot < inputs.length := by
      rw [hcarries.1]
      exact hslot
    have hkept := word_of_kept (hkeep _ hset) (by rwa [List.length_set]) hw
    rw [List.getElem?_set_self hlt] at hkept
    exact absurd (Option.some.inj hkept) hne

/-- If every rule is aimed at a fed value, nothing is ever changed. -/
theorem kept_of_aimsAtFed {circuit : Circuit} {rules : List PolicyRule} {signals : Signals}
    (hsig : circuit.signals = some signals) (haims : AimsAtFed circuit rules signals)
    (hfull : ∀ signal, PolicyNamed circuit rules signal → FedFull circuit rules signals signal)
    {inputs : List (Bytes 32)} (hcarries : Carries circuit rules signals inputs) :
    applyRules rules inputs signals = inputs := by
  refine List.ext_getElem? ?_
  intro slot
  by_cases hlt : slot < inputs.length
  · rw [applyRules_eq_writeAll, writeAll_getElem? _ _ hlt]
    cases hw : lastWrite (ruleWrites signals rules) slot with
    | none => rw [Option.none_or]
    | some w =>
        obtain ⟨signal, hnamed, span, hspan, j, hj, rfl, rfl⟩ :=
          haims slot (by rw [← hcarries.1]; exact hlt) w hw
        have hsignal := hfull signal hnamed
        obtain ⟨value, hok⟩ := applyPolicySignal_isSome hnamed.2 hsignal.length
        obtain ⟨-, hlength, hvalues⟩ := applyPolicySignal_ok hok
        have hx := List.getElem?_eq_getElem (l := value.flatten) (i := j)
          (by rw [hlength, hsignal.size span hspan]; exact hj)
        rw [Option.some_or, hcarries.2 signal hnamed value
          (fedBy_of_fedFull hsig hfull hnamed hok) span hspan j hj _ hx, hvalues j _ hx]
  · rw [applyRules_getElem?_of_le (Nat.not_lt.mp hlt),
      List.getElem?_eq_none (Nat.not_lt.mp hlt)]

/-- **CLIENT AND CHAIN AGREE, EXACTLY WHEN** every public signal that the policy names
    is one the builder leaves to it, in no claim's place, and is fed as many values as it
    has slots, and the last rule aimed at a slot is aimed at such a signal, with the word
    fed there. -/
theorem policy_inputs_agree_iff (circuit : Circuit) (rules : List PolicyRule) :
    PolicyInputsAgree circuit rules ↔
      ∀ signals ∈ circuit.signals,
        (∀ signal, PolicyNamed circuit rules signal →
          FedFull circuit rules signals signal) ∧
        AimsAtFed circuit rules signals := by
  constructor
  · intro hagree signals hsig
    obtain ⟨hfed, hkeep⟩ := hagree signals hsig
    exact ⟨fun signal hnamed => fedFull_of_fedBy hfed hnamed,
      aimsAtFed_of_kept hsig hkeep hfed⟩
  · intro hall signals hsig
    obtain ⟨hfull, haims⟩ := hall signals hsig
    refine ⟨?_, fun inputs hcarries => kept_of_aimsAtFed hsig haims hfull hcarries⟩
    intro signal hnamed
    have hsignal := hfull signal hnamed
    obtain ⟨value, hok⟩ := applyPolicySignal_isSome hnamed.2 hsignal.length
    refine ⟨value, fedBy_of_fedFull hsig hfull hnamed hok, ?_⟩
    intro span hspan
    exact (applyPolicySignal_ok hok).2.1.trans (hsignal.size span hspan)

/-! ### Two dimensions -/

namespace TwoDimensions

/-- A signal of two rows of two words; the policy lists one word. -/
def circuit : Circuit := (Sample.circuit ["allowed[2][2]"] 4).data

def rules : List PolicyRule := [⟨"allowed", Bytes.ofNum 32 7⟩]

def signals : Signals := { data := [("allowed", ⟨0, 4⟩)], count := 4 }

end TwoDimensions

/-- **CLIENT AND CHAIN DISAGREE**: four slots are fed two values. -/
theorem policy_inputs_disagree :
    TwoDimensions.circuit.signals = some TwoDimensions.signals ∧
    PolicyNamed TwoDimensions.circuit TwoDimensions.rules "allowed[2][2]" ∧
    (∃ values, FedBy TwoDimensions.circuit TwoDimensions.rules "allowed[2][2]"
      (.array values) ∧ values = [7, 0]) ∧
    ¬ PolicyInputsAgree TwoDimensions.circuit TwoDimensions.rules := by
  have hlayout : TwoDimensions.circuit.signals = some TwoDimensions.signals := by decide
  have hnamed : PolicyNamed TwoDimensions.circuit TwoDimensions.rules "allowed[2][2]" := by
    refine ⟨List.mem_cons_self, _, List.mem_cons_self, ?_⟩
    decide
  have hsize : fedSize TwoDimensions.rules (parseSignal "allowed[2][2]") = 2 := by
    decide
  refine ⟨hlayout, hnamed, ⟨[7, 0], ?_, rfl⟩, ?_⟩
  · refine fedBy_of_unclaimed hnamed (by decide) (fun p hp => nomatch hp) (by decide) ?_ rfl
    intro signal' hmem' _
    rw [List.mem_singleton.mp hmem']
  · intro hagree
    obtain ⟨value, hfed, hspans⟩ := (hagree _ hlayout).1 _ hnamed
    obtain ⟨-, hlength, -⟩ := applyPolicySignal_ok (applyPublicSignal_iff.mp hfed.1).2
    have hfull := hspans ⟨0, 4⟩ (by decide)
    rw [hlength, hsize] at hfull
    exact absurd hfull (by decide)

end Albus.Sdk
