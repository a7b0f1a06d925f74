import Albus.Core.ClaimsTree
import Albus.Field
import Albus.Lib.Interleaving
import Albus.Lib.JsNumber
import Albus.Program.State

/-! # What the client gives the circuit

    `ProofInputBuilder` fills its data in two loops that do not wait for each other: a
    private signal is given a claim, with its key and its proof under derived names, a
    public one what the policy's rules of its name say, padded with zeros to the FIRST
    dimension.  The circuit is given what was assigned last. -/

namespace Albus.Sdk

open Albus.Lib Albus.Core Albus.Program

/-! ## utils/circuit.ts -/

/-- White space and line terminators. -/
def isSpace (c : Char) : Bool :=
  c.toNat ∈ [0x9, 0xA, 0xB, 0xC, 0xD, 0x20, 0xA0, 0x1680, 0x2028, 0x2029, 0x202F, 0x205F,
    0x3000, 0xFEFF] ∨ (0x2000 ≤ c.toNat ∧ c.toNat ≤ 0x200A)

/-- `Number.parseInt(s, 10)`: the digits at the front, `none` for `NaN`. -/
def parseInt (s : List Char) : Option ℤ :=
  let (negative, s) := match s.dropWhile isSpace with
    | '-' :: rest => (true, rest)
    | '+' :: rest => (false, rest)
    | s => (false, s)
  match parseDigits (s.takeWhile Char.isDigit) with
  | none => none
  | some n => some (JsNumber.ofInt (if negative then -n else n))

inductive ParseSignalResult where
  | mk (name : String) (size : ℤ) (next : Option ParseSignalResult)

namespace ParseSignalResult

def name : ParseSignalResult → String
  | mk name _ _ => name

def size : ParseSignalResult → ℤ
  | mk _ size _ => size

end ParseSignalResult

/-- `parseSignal` on the characters of the string.  The recursion is on a strictly
    shorter suffix, so `fuel` above the length is always enough. -/
def parseSignalAux : ℕ → List Char → ParseSignalResult
  | 0, s => .mk (String.ofList s) 0 none
  | fuel + 1, s =>
      let opn := s.idxOf '['
      let cls := s.idxOf ']'
      if opn < s.length ∧ cls < s.length ∧ opn < cls then
        let name := String.ofList (s.take opn)
        match parseInt ((s.take cls).drop (opn + 1)) with
        | some size => .mk name size (some (parseSignalAux fuel (s.drop (cls + 1))))
        | none => .mk name 0 none
      else .mk (String.ofList s) 0 none

def parseSignal (signal : String) : ParseSignalResult :=
  parseSignalAux (signal.toList.length + 1) signal.toList

/-! ## utils/proofInputBuilder.ts -/

/-- `KnownSignals` -/
def knownSignals : List String :=
  ["timestamp", "credentialRoot", "issuerPk", "issuerSignature", "userPrivateKey",
    "trusteePublicKey"]

/-- A value of the builder's `data`. -/
inductive SignalInput where
  | scalar (value : ℕ)
  | array (values : List ℕ)

/-- The values as the circuit takes them. -/
def SignalInput.flatten : SignalInput → List ℕ
  | scalar value => [value]
  | array values => values

/-- The longest array there is. -/
def maxArrayLength : ℕ := 2 ^ 32 - 1

/-- The rules of one name. -/
def rulesOf (rules : List PolicyRule) (name : String) : List PolicyRule :=
  rules.filter fun r => r.key = name

/-- `Object.assign(Array.from({ length }).fill(0n), values)` -/
def assignOverZeros (length : ℕ) (values : List ℕ) : List ℕ :=
  values ++ List.replicate (length - values.length) 0

/-- The value that the rules of its name give a signal. -/
def policyValue (rules : List PolicyRule) (signal : ParseSignalResult) : SignalInput :=
  let value := assignOverZeros signal.size.toNat (rules.map fun r => r.value.toNum)
  if signal.size = 0 then .scalar (value.headD 0) else .array value

/-- `applyPolicySignal`: what it assigns to the signal, if anything. -/
def applyPolicySignal (policyRules : List PolicyRule) (signal : ParseSignalResult) :
    Except String (Option SignalInput) :=
  let rules := rulesOf policyRules signal.name
  if 0 < rules.length then
    if maxArrayLength < signal.size.toNat then .error "RangeError: Invalid array length"
    else .ok (some (policyValue rules signal))
  else .ok none

/-- `applySignal`, with what the builder has for the known signals. -/
def applySignal (known : String → Except String SignalInput) (signal : ParseSignalResult) :
    Except String (Option SignalInput) :=
  if signal.name ∈ knownSignals then do
    let value ← known signal.name
    .ok (some value)
  else .ok none

/-- A turn of the loop of `applyPublicSignals`: what it assigns to the signal. -/
def applyPublicSignal (known : String → Except String SignalInput)
    (policyRules : List PolicyRule) (signal : ParseSignalResult) :
    Except String (Option SignalInput) := do
  match ← applySignal known signal with
  | some value => .ok (some value)
  | none => applyPolicySignal policyRules signal

/-- `trim` -/
def trim (s : String) : String :=
  String.ofList ((s.toList.dropWhile isSpace).reverse.dropWhile isSpace).reverse

def normalizeClaimKey (s : String) : String :=
  String.ofList ((trim s).toList.map fun c => if c = '_' then '.' else c)

inductive BuilderError where
  | tree (e : TreeError)
  | error (message : String)

/-- `applyCredentialSignal`: what it assigns to the data. -/
def applyCredentialSignal (claimsTree : Option ClaimsTree) (signal : ParseSignalResult)
    (throwIfUnknown : Bool) : Except BuilderError (List (String × SignalInput)) :=
  match claimsTree with
  | none => .error (.error "claims tree is not initialized")
  | some claimsTree =>
    let claim := normalizeClaimKey signal.name
    match claimsTree.get claim with
    | .error e => .error (.tree e)
    | .ok proof =>
      if proof.found = false ∧ throwIfUnknown = true then
        .error (.error ("claim \"" ++ claim ++ "\" is not found in the credential"))
      else .ok
        [(signal.name, .scalar proof.value), (signal.name ++ "Key", .scalar proof.key),
          (signal.name ++ "Proof", .array proof.siblings)]

/-- A turn of the loop of `applyPrivateSignals`: what it assigns to the data. -/
def applyPrivateSignal (known : String → Except String SignalInput)
    (claimsTree : Option ClaimsTree) (signal : ParseSignalResult) :
    Except BuilderError (List (String × SignalInput)) :=
  match applySignal known signal with
  | .error message => .error (.error message)
  | .ok (some value) => .ok [(signal.name, value)]
  | .ok none => applyCredentialSignal claimsTree signal true

/-! ### build -/

/-- What a turn of one of the loops assigns to the data. -/
abbrev Assignments := List (String × SignalInput)

/-- `applyPrivateSignals`, turn by turn. -/
def applyPrivateSignals (known : String → Except String SignalInput)
    (claimsTree : Option ClaimsTree) (privateSignals : List ParseSignalResult) :
    Except BuilderError (List Assignments) :=
  match claimsTree with
  | none => .error (.error "claims tree is not initialized")
  | some claimsTree => privateSignals.mapM (applyPrivateSignal known (some claimsTree))

/-- `applyPublicSignals`, turn by turn. -/
def applyPublicSignals (known : String → Except String SignalInput)
    (policyRules : List PolicyRule) (publicSignals : List ParseSignalResult) :
    Except String (List Assignments) :=
  publicSignals.mapM fun signal =>
    (applyPublicSignal known policyRules signal).map fun value =>
      value.toList.map fun value => (signal.name, value)

/-- The own property of the data after the assignments: one to `__proto__` makes none. -/
def property (data : Assignments) (name : String) : Option SignalInput :=
  if name = "__proto__" then none
  else ((data.filter fun p => p.1 = name).getLast?).map Prod.snd

/-- The assignments of a `build` that completes, whatever it has for the known signals
    and for a claims tree: `Promise.all` fixes no order between the two loops. -/
inductive Build (circuit : Circuit) (rules : List PolicyRule) : Assignments → Prop where
  | mk {known : String → Except String SignalInput} {claimsTree : ClaimsTree}
      {privates publics turns : List Assignments}
      (hprivates : applyPrivateSignals known (some claimsTree)
        (circuit.privateSignals.map parseSignal) = .ok privates)
      (hpublics : applyPublicSignals known rules
        (circuit.publicSignals.map parseSignal) = .ok publics)
      (hturns : Interleaves privates publics turns) : Build circuit rules turns.flatten

/-! ## What the loops assign -/

/-- The names that a claim found for a private signal is assigned to. -/
def claimNames (name : String) : List String := [name, name ++ "Key", name ++ "Proof"]

/-- A turn is the policy's, whatever the builder has, if it does not know the signal. -/
theorem applyPublicSignal_iff {rules : List PolicyRule} {signal : ParseSignalResult}
    {value : SignalInput} :
    (∀ known, applyPublicSignal known rules signal = .ok (some value)) ↔
      signal.name ∉ knownSignals ∧ applyPolicySignal rules signal = .ok (some value) := by
  constructor
  · intro hturn
    have hunknown : signal.name ∉ knownSignals := by
      intro hknown
      have herr := hturn fun _ => .error ""
      rw [applyPublicSignal, applySignal, if_pos hknown] at herr
      exact nomatch herr
    refine ⟨hunknown, ?_⟩
    have hvalue := hturn fun _ => .error ""
    rw [applyPublicSignal, applySignal, if_neg hunknown] at hvalue
    exact hvalue
  · rintro ⟨hunknown, hvalue⟩ known
    rw [applyPublicSignal, applySignal, if_neg hunknown]
    exact hvalue

theorem mem_of_property {data : Assignments} {name : String} {value : SignalInput}
    (h : value ∈ property data name) : name ≠ "__proto__" ∧ (name, value) ∈ data := by
  rw [property] at h
  split at h
  · exact nomatch h
  rename_i hname
  obtain ⟨⟨key, value'⟩, hlast, rfl⟩ := Option.map_eq_some_iff.mp h
  obtain ⟨hmem, hkey⟩ := List.mem_filter.mp (List.mem_of_getLast? hlast)
  obtain rfl : key = name := of_decide_eq_true hkey
  exact ⟨hname, hmem⟩

theorem property_isSome {data : Assignments} {name : String} (hname : name ≠ "__proto__")
    (h : ∃ value, (name, value) ∈ data) : ∃ value, value ∈ property data name := by
  obtain ⟨value, hmem⟩ := h
  have hfilter : (name, value) ∈ data.filter fun p => p.1 = name :=
    List.mem_filter.mpr ⟨hmem, decide_eq_true rfl⟩
  rw [property, if_neg hname, List.getLast?_eq_some_getLast (List.ne_nil_of_mem hfilter)]
  exact ⟨_, rfl⟩

/-- What is assigned last counts. -/
theorem property_append {earlier later : Assignments} {name : String}
    (h : ∃ value, (name, value) ∈ later) :
    property (earlier ++ later) name = property later name := by
  obtain ⟨value, hmem⟩ := h
  have hfilter : (name, value) ∈ later.filter fun p => p.1 = name :=
    List.mem_filter.mpr ⟨hmem, decide_eq_true rfl⟩
  rw [property, property, List.filter_append, List.getLast?_append,
    List.getLast?_eq_some_getLast (List.ne_nil_of_mem hfilter), Option.some_or]

/-- A claim is assigned with its key and its proof. -/
theorem applyCredentialSignal_names {claimsTree : Option ClaimsTree}
    {signal : ParseSignalResult} {throwIfUnknown : Bool} {assigned : Assignments}
    (h : applyCredentialSignal claimsTree signal throwIfUnknown = .ok assigned) :
    assigned.map Prod.fst = claimNames signal.name := by
  cases claimsTree with
  | none => exact nomatch h
  | some claimsTree =>
      simp only [applyCredentialSignal] at h
      split at h
      · exact nomatch h
      · split at h
        · exact nomatch h
        · rw [← Except.ok.inj h]
          rfl

/-- A turn of the private loop assigns to a known name or to those of a claim. -/
theorem applyPrivateSignal_ok {known : String → Except String SignalInput}
    {claimsTree : Option ClaimsTree} {signal : ParseSignalResult} {assigned : Assignments}
    (h : applyPrivateSignal known claimsTree signal = .ok assigned) :
    signal.name ∈ knownSignals ∧ (∀ p ∈ assigned, p.1 ∈ knownSignals) ∨
      signal.name ∉ knownSignals ∧ applyCredentialSignal claimsTree signal true = .ok assigned := by
  rw [applyPrivateSignal, applySignal] at h
  by_cases hknown : signal.name ∈ knownSignals
  · rw [if_pos hknown] at h
    refine .inl ⟨hknown, ?_⟩
    cases hvalue : known signal.name with
    | error message =>
        rw [hvalue] at h
        exact nomatch h
    | ok value =>
        rw [hvalue] at h
        rw [← Except.ok.inj h]
        exact List.forall_mem_singleton.mpr hknown
  · rw [if_neg hknown] at h
    exact .inr ⟨hknown, h⟩

/-- A turn of the public loop that assigns to a name the builder does not know. -/
theorem publicTurn_ok {known : String → Except String SignalInput} {rules : List PolicyRule}
    {publicSignals : List String} {publics : List Assignments} {turn : Assignments}
    (h : applyPublicSignals known rules (publicSignals.map parseSignal) = .ok publics)
    (hturn : turn ∈ publics) {name : String} {value : SignalInput}
    (hmem : (name, value) ∈ turn) (hunknown : name ∉ knownSignals) :
    ∃ signal ∈ publicSignals, (parseSignal signal).name = name ∧
      applyPolicySignal rules (parseSignal signal) = .ok (some value) := by
  obtain ⟨parsed, hparsed, hok⟩ := exists_turn h hturn
  obtain ⟨signal, hsignal, rfl⟩ := List.mem_map.mp hparsed
  cases happly : applyPublicSignal known rules (parseSignal signal) with
  | error message =>
      rw [happly] at hok
      exact nomatch hok
  | ok assigned =>
      rw [happly] at hok
      obtain rfl := Except.ok.inj hok
      obtain ⟨value', hvalue', heq⟩ := List.mem_map.mp hmem
      obtain ⟨rfl, rfl⟩ := Prod.mk.inj heq
      obtain rfl := Option.mem_toList.mp hvalue'
      rw [applyPublicSignal, applySignal, if_neg hunknown] at happly
      exact ⟨signal, hsignal, rfl, happly⟩

/-! ## A claim for every name -/

/-- No name has a position, and what a name without one is taken for is found. -/
def anyClaim (value depth : ℕ) : ClaimsTree where
  depth := some depth
  smt :=
    { db := { root := 1, nodes := fun _ => some [1, F1Field.e (-1), value] }
      root := 1 }
  keys := []

/-- The same, but for one claim, which has the position 1. -/
def oneClaim (claim : String) : ClaimsTree where
  depth := some 2
  smt :=
    { db :=
        { root := 1
          nodes := fun n =>
            if n = 1 then some [2, 3]
            else if n = 2 then some [1, F1Field.e (-1), 0] else some [1, 1, 0] }
      root := 1 }
  keys := ["_", claim]

theorem anyClaim_get (value depth : ℕ) (claim : String) :
    (anyClaim value depth).get claim
      = .ok ⟨true, F1Field.e (-1), value, List.replicate depth 0⟩ := by
  have hfind : (anyClaim value depth).smt.get (-1)
      = .ok ⟨true, F1Field.e (-1), value, [], false⟩ := by
    simp [anyClaim, SMT.get, SMT.find, SMTMemDb.get]
  rw [ClaimsTree.get, show (anyClaim value depth).encodeKey claim = -1 from rfl, hfind]
  rfl

/-- An underscore is never part of a claim. -/
theorem normalizeClaimKey_ne (name : String) : normalizeClaimKey name ≠ "_" := by
  intro h
  have hmem : '_' ∈ (normalizeClaimKey name).toList := by
    rw [h]
    decide
  rw [normalizeClaimKey, String.toList_ofList] at hmem
  obtain ⟨c, -, hc⟩ := List.mem_map.mp hmem
  split at hc
  · exact absurd hc (by decide)
  · exact absurd hc ‹_›

theorem oneClaim_get (claim : String) {claim' : String} (hclaim' : claim' ≠ "_") :
    ∃ siblings, siblings.length = 2 ∧ (oneClaim claim).get claim'
      = .ok ⟨true, if claim' = claim then 1 else F1Field.e (-1), 0, siblings⟩ := by
  have hnode : ∀ n : ℕ, n ≤ 3 → SMTMemDb.key2str n = n := by decide
  have hkey : (oneClaim claim).encodeKey claim' = if claim' = claim then 1 else -1 := by
    rw [ClaimsTree.encodeKey, oneClaim]
    by_cases heq : claim' = claim
    · rw [if_pos (by simp [heq]), if_pos heq, List.idxOf_cons_ne _ hclaim'.symm, heq,
        List.idxOf_cons_self]
      rfl
    · rw [if_neg (by simp [heq, hclaim']), if_neg heq]
  have hfind : ∀ k ∈ [1, -1], ∃ sibling, (oneClaim claim).smt.get k
      = .ok ⟨true, F1Field.e k, 0, [sibling], false⟩ := by
    simp only [List.forall_mem_cons]
    refine ⟨⟨2, ?_⟩, ⟨3, ?_⟩, fun k hk => nomatch hk⟩
    · have hbit : (SMT.getBits (F1Field.e 1))[0]? = some 1 := by decide +kernel
      simp only [SMT.get, SMT.find, oneClaim, one_ne_zero, if_false, SMTMemDb.get,
        Nat.one_le_ofNat, hnode, Nat.cast_one, hbit, Option.some.injEq, if_true,
        OfNat.ofNat_ne_zero, Std.le_refl, Nat.cast_ofNat, OfNat.ofNat_ne_one,
        OfNat.ofNat_eq_ofNat, Nat.succ_ne_self]
      rfl
    · have hbit : (SMT.getBits (F1Field.e (-1)))[0]? = some 0 := by decide +kernel
      simp [oneClaim, SMT.get, SMT.find, SMTMemDb.get, hnode, hbit, Except.map]
  obtain ⟨sibling, hfound⟩ := hfind (if claim' = claim then 1 else -1) (by
    split
    · exact List.mem_cons_self
    · exact List.mem_cons_of_mem _ List.mem_cons_self)
  refine ⟨[sibling, 0], rfl, ?_⟩
  rw [ClaimsTree.get, hkey, hfound]
  by_cases heq : claim' = claim
  · rw [if_pos heq, if_pos heq]
    rfl
  · rw [if_neg heq, if_neg heq]
    rfl

/-- Values that are neither the value, the key nor the proof that every claim has in the
    first tree come to no name. -/
theorem anyClaim_values {value depth : ℕ} {values : List ℕ} (hvalue : [value] ≠ values)
    (hkey : [F1Field.e (-1)] ≠ values) (hdepth : List.replicate depth 0 ≠ values)
    (name : String) (signal : ParseSignalResult) :
    ∃ assigned, applyCredentialSignal (some (anyClaim value depth)) signal true = .ok assigned ∧
      ∀ given, (name, given) ∈ assigned → given.flatten ≠ values := by
  refine ⟨[(signal.name, .scalar value), (signal.name ++ "Key", .scalar (F1Field.e (-1))),
    (signal.name ++ "Proof", .array (List.replicate depth 0))], ?_, ?_⟩
  · simp only [applyCredentialSignal, anyClaim_get]
    rfl
  · intro given hmem
    simp only [List.mem_cons, Prod.mk.injEq, List.not_mem_nil, or_false] at hmem
    rcases hmem with ⟨-, rfl⟩ | ⟨-, rfl⟩ | ⟨-, rfl⟩
    · exact hvalue
    · exact hkey
    · exact hdepth

/-- The key of a claim without a position does not come to the name, if the claim whose key
    would is the one that has a position. -/
theorem oneClaim_values {claim name : String}
    (hclaim : ∀ name', name' ++ "Key" = name → normalizeClaimKey name' = claim)
    (signal : ParseSignalResult) :
    ∃ assigned, applyCredentialSignal (some (oneClaim claim)) signal true = .ok assigned ∧
      ∀ given, (name, given) ∈ assigned → given.flatten ≠ [F1Field.e (-1)] := by
  obtain ⟨siblings, hlength, hget⟩ := oneClaim_get claim (normalizeClaimKey_ne signal.name)
  refine ⟨[(signal.name, .scalar 0), (signal.name ++ "Key",
    .scalar (if normalizeClaimKey signal.name = claim then 1 else F1Field.e (-1))),
    (signal.name ++ "Proof", .array siblings)], ?_, ?_⟩
  · simp only [applyCredentialSignal, hget]
    rfl
  · intro given hmem
    simp only [List.mem_cons, Prod.mk.injEq, List.not_mem_nil, or_false] at hmem
    rcases hmem with ⟨-, rfl⟩ | ⟨hname, rfl⟩ | ⟨-, rfl⟩
    · decide
    · rw [if_pos (hclaim _ hname.symm)]
      decide
    · intro heq
      have hone := congrArg List.length heq
      rw [SignalInput.flatten, hlength] at hone
      exact absurd hone (by decide)

/-- Some tree has every claim, and none of them with these values at this name. -/
theorem exists_claimsTree (name : String) (values : List ℕ) :
    ∃ claimsTree : ClaimsTree, ∀ signal : ParseSignalResult, ∃ assigned,
      applyCredentialSignal (some claimsTree) signal true = .ok assigned ∧
      ∀ given, (name, given) ∈ assigned → given.flatten ≠ values := by
  by_cases hkey : values = [F1Field.e (-1)]
  · obtain ⟨claim, hclaim⟩ : ∃ claim, ∀ name', name' ++ "Key" = name →
        normalizeClaimKey name' = claim := by
      by_cases hex : ∃ name', name' ++ "Key" = name
      · obtain ⟨name', rfl⟩ := hex
        refine ⟨normalizeClaimKey name', fun name'' heq => ?_⟩
        rw [(String.append_left_inj _).mp heq]
      · exact ⟨"", fun name' heq => absurd ⟨name', heq⟩ hex⟩
    rw [hkey]
    exact ⟨oneClaim claim, oneClaim_values hclaim⟩
  · obtain ⟨value, hvalue⟩ : ∃ value, [value] ≠ values := by
      by_cases hzero : [0] = values
      · exact ⟨1, fun hone => absurd (hzero.trans hone.symm) (by decide)⟩
      · exact ⟨0, hzero⟩
    obtain ⟨depth, hdepth⟩ : ∃ depth, List.replicate depth 0 ≠ values := by
      by_cases hempty : [] = values
      · exact ⟨1, fun hone => absurd (hempty.trans hone.symm) (by decide)⟩
      · exact ⟨0, hempty⟩
    exact ⟨anyClaim value depth,
      anyClaim_values hvalue (fun heq => hkey heq.symm) hdepth name⟩

end Albus.Sdk
