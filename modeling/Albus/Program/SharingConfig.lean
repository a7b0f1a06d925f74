import Albus.Program.ServiceCounters

/-! # The sharing configuration of a service

    Threshold and trustees of a service, over the machine of the services and the
    trustees.  `update_service_provider` takes threshold, clearing and a new list as
    three optional parts and checks of them that the listed accounts are verified
    trustees.  So whoever is listed was verified, but a list may name one twice and the
    threshold may be zero or above it: the configuration stays usable exactly when every
    update meets `KeepsUsable`. -/

namespace Albus.Program

open Albus.Lib

/-- The services with what belongs to them, and the trustees. -/
structure Directory where
  registry : Registry
  trustees : Pubkey → Option Trustee

inductive DirectoryInstruction where
  | service (i : ServiceInstruction)
  | createTrustee (authority : Pubkey) (data : CreateTrusteeData)
  | updateTrustee (trustee authority : Pubkey) (newAuthority : Option Pubkey)
  | verifyTrustee (trustee authority : Pubkey)
  | deleteTrustee (trustee authority : Pubkey)
  deriving DecidableEq

/-- `update_trustee::handler`. -/
def updateTrustee (authority : Pubkey) (newAuthority : Option Pubkey) (trustee : Trustee) :
    Except ProgramError Trustee := do
  require (trustee.authority = authority) .constraintHasOne
  .ok { trustee with authority := newAuthority.getD trustee.authority }

/-- `verify_trustee::handler`. -/
def verifyTrustee (rt : Runtime) (authority : Pubkey) (trustee : Trustee) :
    Except ProgramError Trustee := do
  assertAuthorized rt authority
  .ok { trustee with isVerified := true }

namespace Directory

/-- No account exists. -/
def empty : Directory where
  registry := .empty
  trustees _ := none

/-- The remaining accounts that an update brings are the live ones. -/
def Loads (d : Directory) : ServiceInstruction → Prop
  | .updateServiceProvider _ _ remaining => ∀ acc ∈ remaining, acc.2 = d.trustees acc.1
  | _ => True

instance (d : Directory) : (i : ServiceInstruction) → Decidable (d.Loads i)
  | .updateServiceProvider _ _ remaining =>
      inferInstanceAs (Decidable (∀ acc ∈ remaining, acc.2 = d.trustees acc.1))
  | .createServiceProvider _ _ _ => isTrue trivial
  | .deleteServiceProvider _ _ => isTrue trivial
  | .createPolicy _ _ _ => isTrue trivial
  | .updatePolicy _ _ => isTrue trivial
  | .deletePolicy _ => isTrue trivial
  | .request _ _ => isTrue trivial

variable (rt : Runtime) (serviceAddress : String → Pubkey)
  (policyAddress : Pubkey → String → Pubkey) (trusteeAddress : Bytes 32 → Pubkey)

/-- One transaction. -/
def step (d : Directory) : DirectoryInstruction → Except ProgramError Directory
  | .service i => do
      require (d.Loads i) .accountNotInitialized
      let registry ← Registry.step rt serviceAddress policyAddress d.registry i
      .ok { d with registry }
  | .createTrustee authority data => do
      let address := trusteeAddress data.key
      require (d.trustees address = none) .accountAlreadyInUse
      let trustee ← createTrustee rt authority data
      .ok { d with trustees := Function.update d.trustees address (some trustee) }
  | .updateTrustee address authority newAuthority => do
      let trustee ← Registry.live d.trustees address
      let trustee ← updateTrustee authority newAuthority trustee
      .ok { d with trustees := Function.update d.trustees address (some trustee) }
  | .verifyTrustee address authority => do
      let trustee ← Registry.live d.trustees address
      let trustee ← verifyTrustee rt authority trustee
      .ok { d with trustees := Function.update d.trustees address (some trustee) }
  | .deleteTrustee address authority => do
      let _ ← Registry.live d.trustees address
      assertAuthorized rt authority
      .ok { d with trustees := Function.update d.trustees address none }

end Directory

abbrev DirectoryHistory : Type := List (Transition Directory DirectoryInstruction)

/-! ## What is asked of a service -/

/-- The account at `key` is a verified trustee. -/
def Directory.Verified (d : Directory) (key : Pubkey) : Prop :=
  ∃ trustee ∈ d.trustees key, trustee.isVerified = true

instance (d : Directory) (key : Pubkey) : Decidable (d.Verified key) :=
  inferInstanceAs (Decidable (∃ trustee ∈ d.trustees key, _))

/-- The call writes the list of trustees of the service at `S`. -/
def WritesList (serviceAddress : String → Pubkey) (S : Pubkey) :
    DirectoryInstruction → Prop
  | .service (.createServiceProvider _ data _) => serviceAddress data.code = S
  | .service (.updateServiceProvider ctx data remaining) =>
      ctx.serviceProvider = S ∧ (data.clearTrustees = true ∨ remaining ≠ [])
  | _ => False

/-- `key` was a verified trustee when the list of the service at `S` was last written. -/
def VerifiedWhenListed (serviceAddress : String → Pubkey) (h : DirectoryHistory)
    (S key : Pubkey) : Prop :=
  ∃ t, Latest (fun t => WritesList serviceAddress S t.call) h t ∧ t.pre.Verified key

/-- A threshold between one and the number of trustees. -/
def Attainable (threshold : UInt8) (count : Nat) : Prop :=
  1 ≤ threshold.toNat ∧ threshold.toNat ≤ count

instance (threshold : UInt8) (count : Nat) : Decidable (Attainable threshold count) :=
  inferInstanceAs (Decidable (_ ∧ _))

/-- The service at `S` can share a secret. -/
structure Usable (serviceAddress : String → Pubkey) (h : DirectoryHistory) (S : Pubkey)
    (s : ServiceProviderAccount) : Prop where
  distinct : s.trustees.Nodup
  verified : ∀ key ∈ s.trustees, VerifiedWhenListed serviceAddress h S key
  threshold : s.trustees ≠ [] → Attainable s.secretShareThreshold s.trustees.length

/-- Every live service can. -/
def AllUsable (serviceAddress : String → Pubkey) (h : DirectoryHistory) (d : Directory) :
    Prop :=
  ∀ S s, d.registry.services S = some s → Usable serviceAddress h S s

/-- The data of a `create_service_provider`. -/
def DirectoryInstruction.creation : DirectoryInstruction → Option CreateServiceProviderData
  | .service (.createServiceProvider _ data _) => some data
  | _ => none

/-- A service is created with distinct, verified trustees, and a threshold for them. -/
def CreatesUsable (t : Transition Directory DirectoryInstruction) : Prop :=
  ∀ data ∈ t.call.creation,
    (data.trustees.getD []).Nodup ∧ (∀ key ∈ data.trustees.getD [], t.pre.Verified key) ∧
      (data.trustees.getD [] ≠ [] →
        Attainable (data.secretShareThreshold.getD defaultSecretShareThreshold)
          (data.trustees.getD []).length)

instance (t : Transition Directory DirectoryInstruction) : Decidable (CreatesUsable t) :=
  inferInstanceAs (Decidable (∀ data ∈ t.call.creation, _))

/-- An update brings no account twice, and the threshold that it sets, or leaves, is one
    for the accounts that it brings, or for the trustees that it leaves. -/
structure KeepsUsable (data : UpdateServiceProviderData)
    (remaining : List (Pubkey × Option Trustee)) (s : ServiceProviderAccount) : Prop where
  distinct : (remaining.map Prod.fst).Nodup
  listed : remaining ≠ [] →
    Attainable (data.secretShareThreshold.getD s.secretShareThreshold) remaining.length
  left : remaining = [] → data.clearTrustees = false → s.trustees ≠ [] →
    Attainable (data.secretShareThreshold.getD s.secretShareThreshold) s.trustees.length

/-- The step, if it is an update, keeps its service usable. -/
def UpdateKeepsUsable (t : Transition Directory DirectoryInstruction) : Prop :=
  ∀ ctx data remaining, t.call = .service (.updateServiceProvider ctx data remaining) →
    ∀ s, t.pre.registry.services ctx.serviceProvider = some s → KeepsUsable data remaining s

/-! ## What the calls write -/

/-- **ONLY VERIFIED TRUSTEES ARE PUSHED**, every one of them, as often as it is named. -/
theorem pushTrustees_ok {remaining : List (Pubkey × Option Trustee)}
    {trustees trustees' : List Pubkey} (h : pushTrustees remaining trustees = .ok trustees') :
    trustees' = trustees ++ remaining.map Prod.fst ∧
      ∀ acc ∈ remaining, ∃ trustee ∈ acc.2, trustee.isVerified = true := by
  induction remaining generalizing trustees with
  | nil =>
      obtain rfl := Except.ok.inj h
      exact ⟨(List.append_nil _).symm, fun _ hacc => nomatch hacc⟩
  | cons acc remaining ih =>
      obtain ⟨key, content⟩ := acc
      cases content with
      | none => exact nomatch h
      | some trustee =>
          obtain ⟨hverified, h⟩ := require_bind_ok h
          obtain ⟨rfl, hrest⟩ := ih h
          refine ⟨by rw [List.append_assoc]; rfl, ?_⟩
          intro acc hacc
          rcases List.mem_cons.mp hacc with rfl | hmem
          · exact ⟨trustee, rfl, hverified⟩
          · exact hrest acc hmem

/-- What an update leaves of the sharing. -/
structure SharingUpdated (data : UpdateServiceProviderData)
    (remaining : List (Pubkey × Option Trustee)) (s s' : ServiceProviderAccount) : Prop where
  trustees : s'.trustees =
    if data.clearTrustees = true ∨ remaining ≠ [] then remaining.map Prod.fst
    else s.trustees
  threshold : s'.secretShareThreshold
    = data.secretShareThreshold.getD s.secretShareThreshold
  verified : ∀ acc ∈ remaining, ∃ trustee ∈ acc.2, trustee.isVerified = true

theorem updateServiceProvider_sharing {ctx : UpdateServiceProvider}
    {data : UpdateServiceProviderData} {remaining : List (Pubkey × Option Trustee)}
    {s s' : ServiceProviderAccount}
    (h : updateServiceProvider ctx data remaining s = .ok s') :
    SharingUpdated data remaining s s' := by
  obtain ⟨-, h⟩ := require_bind_ok h
  obtain ⟨trustees, hpush, h⟩ := bind_ok h
  obtain rfl := Except.ok.inj h
  obtain ⟨htrustees, hverified⟩ := pushTrustees_ok hpush
  refine ⟨?_, rfl, hverified⟩
  show trustees = _
  rw [htrustees]
  by_cases hwrites : data.clearTrustees = true ∨ remaining ≠ []
  · rw [if_pos hwrites, if_pos hwrites, List.nil_append]
  · have hnil : remaining = [] := not_not.mp fun hne => hwrites (Or.inr hne)
    rw [if_neg hwrites, if_neg hwrites, hnil, List.map_nil, List.append_nil]

/-- The parts that an investigation takes are the same. -/
def SameSharing (s s' : ServiceProviderAccount) : Prop :=
  s'.trustees = s.trustees ∧ s'.secretShareThreshold = s.secretShareThreshold

theorem SameSharing.refl (s : ServiceProviderAccount) : SameSharing s s := ⟨rfl, rfl⟩

namespace Registry

variable {rt : Runtime} {serviceAddress : String → Pubkey}
  {policyAddress : Pubkey → String → Pubkey}

/-- Another account's write leaves the service at `S` alone. -/
theorem sharing_of_update {services : Pubkey → Option ServiceProviderAccount}
    {S S' : Pubkey} {acc : Option ServiceProviderAccount} {s' : ServiceProviderAccount}
    (hacc : ∀ b, acc = some b → ∃ s, services S' = some s ∧ SameSharing s b)
    (hs' : Function.update services S' acc S = some s') :
    ∃ s, services S = some s ∧ SameSharing s s' := by
  rcases update_eq_some hs' with ⟨rfl, hb⟩ | ⟨-, hb⟩
  · exact hacc s' hb
  · exact ⟨s', hb, .refl s'⟩

/-- **WHO WRITES THE SHARING**: a creation, an update, and nobody else. -/
theorem sharing_of_step {reg reg' : Registry} {i : ServiceInstruction}
    (h : step rt serviceAddress policyAddress reg i = .ok reg') {S : Pubkey}
    {s' : ServiceProviderAccount} (hs' : reg'.services S = some s') :
    (∃ ctx data now, i = .createServiceProvider ctx data now ∧
      serviceAddress data.code = S ∧ s'.trustees = data.trustees.getD [] ∧
      s'.secretShareThreshold = data.secretShareThreshold.getD defaultSecretShareThreshold) ∨
    (∃ ctx data remaining s, i = .updateServiceProvider ctx data remaining ∧
      ctx.serviceProvider = S ∧ reg.services S = some s ∧
      SharingUpdated data remaining s s') ∨
    (¬ WritesList serviceAddress S (.service i) ∧
      ∃ s, reg.services S = some s ∧ SameSharing s s') := by
  cases i with
  | createServiceProvider ctx data now =>
      obtain ⟨_, -, h⟩ := bind_ok h
      obtain ⟨s, hcreate, h⟩ := bind_ok h
      obtain ⟨-, h⟩ := require_bind_ok h
      obtain rfl := Except.ok.inj h
      rcases update_eq_some hs' with ⟨rfl, hb⟩ | ⟨hne, hb⟩
      · obtain rfl := Option.some.inj hb
        obtain ⟨_, -, hcreate⟩ := bind_ok hcreate
        obtain rfl := Except.ok.inj hcreate
        exact Or.inl ⟨ctx, data, now, rfl, rfl, rfl, rfl⟩
      · exact Or.inr (Or.inr ⟨fun heq => hne heq.symm, s', hb, .refl s'⟩)
  | updateServiceProvider ctx data remaining =>
      obtain ⟨s, hlive, h⟩ := bind_ok h
      obtain ⟨b, hupdate, h⟩ := bind_ok h
      obtain ⟨-, h⟩ := require_bind_ok h
      obtain rfl := Except.ok.inj h
      rcases update_eq_some hs' with ⟨rfl, hb⟩ | ⟨hne, hb⟩
      · obtain rfl := Option.some.inj hb
        exact Or.inr (Or.inl ⟨ctx, data, remaining, s, rfl, rfl, live_ok hlive,
          updateServiceProvider_sharing hupdate⟩)
      · exact Or.inr (Or.inr ⟨fun heq => hne heq.1.symm, s', hb, .refl s'⟩)
  | deleteServiceProvider serviceProvider authority =>
      refine Or.inr (Or.inr ⟨id, ?_⟩)
      cases effect_of_step h with
      | deleteServiceProvider service =>
          refine sharing_of_update ?_ hs'
          intro b hb
          exact nomatch hb
  | createPolicy ctx data now =>
      refine Or.inr (Or.inr ⟨id, ?_⟩)
      cases effect_of_step h with
      | createPolicy service free names =>
          exact sharing_of_update
            (fun b hb => ⟨_, service, by rw [← Option.some.inj hb]; exact ⟨rfl, rfl⟩⟩) hs'
  | updatePolicy ctx data =>
      refine Or.inr (Or.inr ⟨id, ?_⟩)
      cases effect_of_step h with
      | updatePolicy policy service auth names => exact ⟨s', hs', .refl s'⟩
  | deletePolicy ctx =>
      refine Or.inr (Or.inr ⟨id, ?_⟩)
      cases effect_of_step h with
      | deletePolicy policy service auth =>
          exact sharing_of_update
            (fun b hb => ⟨_, service, by rw [← Option.some.inj hb]; exact ⟨rfl, rfl⟩⟩) hs'
  | request seeds call =>
      refine Or.inr (Or.inr ⟨id, ?_⟩)
      cases effect_of_step h with
      | createRequest policy service names numbered moves =>
          exact sharing_of_update
            (fun b hb => ⟨_, service, by rw [← Option.some.inj hb]; exact ⟨rfl, rfl⟩⟩) hs'
      | request other moves => exact ⟨s', hs', .refl s'⟩

/-- What an update leaves at its service. -/
theorem updated_of_step {reg reg' : Registry} {ctx : UpdateServiceProvider}
    {data : UpdateServiceProviderData} {remaining : List (Pubkey × Option Trustee)}
    (h : step rt serviceAddress policyAddress reg (.updateServiceProvider ctx data remaining)
      = .ok reg') {s : ServiceProviderAccount}
    (hs : reg.services ctx.serviceProvider = some s) :
    ∃ s', reg'.services ctx.serviceProvider = some s' ∧
      SharingUpdated data remaining s s' := by
  obtain ⟨a, hlive, h⟩ := bind_ok h
  obtain ⟨s', hupdate, h⟩ := bind_ok h
  obtain ⟨-, h⟩ := require_bind_ok h
  obtain rfl := Except.ok.inj h
  obtain rfl := Option.some.inj (hs.symm.trans (live_ok hlive))
  exact ⟨s', Function.update_self _ _ _, updateServiceProvider_sharing hupdate⟩

end Registry

/-! ## The runs -/

namespace Directory

variable {rt : Runtime} {serviceAddress : String → Pubkey}
  {policyAddress : Pubkey → String → Pubkey} {trusteeAddress : Bytes 32 → Pubkey}

/-- What a transaction does to the services, with the trustees that it loads. -/
theorem registry_of_step {d d' : Directory} {i : DirectoryInstruction}
    (h : step rt serviceAddress policyAddress trusteeAddress d i = .ok d') :
    (∃ si, i = .service si ∧ d.Loads si ∧
      Registry.step rt serviceAddress policyAddress d.registry si = .ok d'.registry) ∨
    ((∀ S, ¬ WritesList serviceAddress S i) ∧ (∀ si, i ≠ .service si) ∧
      d'.registry = d.registry) := by
  cases i with
  | service si =>
      obtain ⟨hloads, h⟩ := require_bind_ok h
      obtain ⟨registry, hstep, h⟩ := bind_ok h
      obtain rfl := Except.ok.inj h
      exact Or.inl ⟨si, rfl, hloads, hstep⟩
  | createTrustee authority data =>
      obtain ⟨-, h⟩ := require_bind_ok h
      obtain ⟨trustee, -, h⟩ := bind_ok h
      obtain rfl := Except.ok.inj h
      exact Or.inr ⟨fun _ => id, fun _ => nofun, rfl⟩
  | updateTrustee address authority newAuthority =>
      obtain ⟨_, -, h⟩ := bind_ok h
      obtain ⟨trustee, -, h⟩ := bind_ok h
      obtain rfl := Except.ok.inj h
      exact Or.inr ⟨fun _ => id, fun _ => nofun, rfl⟩
  | verifyTrustee address authority =>
      obtain ⟨_, -, h⟩ := bind_ok h
      obtain ⟨trustee, -, h⟩ := bind_ok h
      obtain rfl := Except.ok.inj h
      exact Or.inr ⟨fun _ => id, fun _ => nofun, rfl⟩
  | deleteTrustee address authority =>
      obtain ⟨_, -, h⟩ := bind_ok h
      obtain ⟨_, -, h⟩ := bind_ok h
      obtain rfl := Except.ok.inj h
      exact Or.inr ⟨fun _ => id, fun _ => nofun, rfl⟩

/-- A call that does not write the list of a service leaves it as usable as it was. -/
theorem usable_of_same {h : DirectoryHistory} {t : Transition Directory DirectoryInstruction}
    {S : Pubkey} {s s' : ServiceProviderAccount} (hs : Usable serviceAddress h S s)
    (hwrites : ¬ WritesList serviceAddress S t.call) (hsame : SameSharing s s') :
    Usable serviceAddress (t :: h) S s' := by
  obtain ⟨htrustees, hthreshold⟩ := hsame
  refine ⟨?_, ?_, ?_⟩
  · rw [htrustees]
    exact hs.distinct
  · rw [htrustees]
    intro key hkey
    obtain ⟨u, hlatest, hverified⟩ := hs.verified key hkey
    exact ⟨u, hlatest.cons hwrites, hverified⟩
  · rw [htrustees, hthreshold]
    exact hs.threshold

/-- An update that keeps the service usable. -/
theorem usable_of_update {h : DirectoryHistory} {d d' : Directory}
    {ctx : UpdateServiceProvider} {data : UpdateServiceProviderData}
    {remaining : List (Pubkey × Option Trustee)} {s s' : ServiceProviderAccount}
    (hs : Usable serviceAddress h ctx.serviceProvider s)
    (hloads : ∀ acc ∈ remaining, acc.2 = d.trustees acc.1)
    (hupdated : SharingUpdated data remaining s s') (hkeeps : KeepsUsable data remaining s) :
    Usable serviceAddress
      (⟨d, .service (.updateServiceProvider ctx data remaining), d'⟩ :: h)
      ctx.serviceProvider s' := by
  by_cases hwrites : data.clearTrustees = true ∨ remaining ≠ []
  · have htrustees := hupdated.trustees
    rw [if_pos hwrites] at htrustees
    refine ⟨?_, ?_, ?_⟩
    · rw [htrustees]
      exact hkeeps.distinct
    · intro key hkey
      rw [htrustees] at hkey
      obtain ⟨acc, hacc, rfl⟩ := List.mem_map.mp hkey
      obtain ⟨trustee, htrustee, hverified⟩ := hupdated.verified acc hacc
      rw [hloads acc hacc] at htrustee
      exact ⟨_, Latest.head ⟨rfl, hwrites⟩, trustee, htrustee, hverified⟩
    · intro hne
      rw [htrustees] at hne ⊢
      rw [hupdated.threshold, List.length_map]
      exact hkeeps.listed fun hnil => hne (by rw [hnil, List.map_nil])
  · have htrustees := hupdated.trustees
    rw [if_neg hwrites] at htrustees
    have hclear : data.clearTrustees = false :=
      Bool.not_eq_true _ ▸ fun hclear => hwrites (Or.inl hclear)
    have hnil : remaining = [] := not_not.mp fun hne => hwrites (Or.inr hne)
    refine ⟨?_, ?_, ?_⟩
    · rw [htrustees]
      exact hs.distinct
    · rw [htrustees]
      intro key hkey
      obtain ⟨u, hlatest, hverified⟩ := hs.verified key hkey
      exact ⟨u, hlatest.cons fun h => hwrites h.2, hverified⟩
    · rw [htrustees, hupdated.threshold]
      exact hkeeps.left hnil hclear

/-- An update after which the service is usable is one that keeps it so. -/
theorem keepsUsable_of_usable {h : DirectoryHistory} {S : Pubkey}
    {data : UpdateServiceProviderData} {remaining : List (Pubkey × Option Trustee)}
    {s s' : ServiceProviderAccount} (hupdated : SharingUpdated data remaining s s')
    (hs' : Usable serviceAddress h S s') : KeepsUsable data remaining s := by
  have htrustees := hupdated.trustees
  have hthreshold := hupdated.threshold
  obtain ⟨hdistinct, -, hattainable⟩ := hs'
  rw [htrustees] at hdistinct hattainable
  rw [hthreshold] at hattainable
  by_cases hnil : remaining = []
  · refine ⟨by rw [hnil]; exact List.nodup_nil, fun hne => absurd hnil hne, ?_⟩
    intro _ hclear hne
    have hwrites : ¬ (data.clearTrustees = true ∨ remaining ≠ []) := by
      rintro (htrue | hne)
      · rw [hclear] at htrue
        exact nomatch htrue
      · exact hne hnil
    rw [if_neg hwrites] at hattainable
    exact hattainable hne
  · rw [if_pos (Or.inr hnil)] at hdistinct hattainable
    refine ⟨hdistinct, fun _ => ?_, fun h => absurd h hnil⟩
    rw [List.length_map] at hattainable
    exact hattainable fun h => hnil (List.map_eq_nil_iff.mp h)

/-- **ONE STEP.** -/
theorem allUsable_step {h : DirectoryHistory} {d d' : Directory} {i : DirectoryInstruction}
    (hall : AllUsable serviceAddress h d)
    (hstep : step rt serviceAddress policyAddress trusteeAddress d i = .ok d')
    (hcreates : CreatesUsable ⟨d, i, d'⟩) (hkeeps : UpdateKeepsUsable ⟨d, i, d'⟩) :
    AllUsable serviceAddress (⟨d, i, d'⟩ :: h) d' := by
  intro S s' hs'
  rcases registry_of_step hstep with ⟨si, rfl, hloads, hreg⟩ | ⟨hwrites, -, hreg⟩
  · rcases Registry.sharing_of_step hreg hs' with
      ⟨ctx, data, now, rfl, rfl, htrustees, hthreshold⟩ |
      ⟨ctx, data, remaining, s, rfl, rfl, hs, hupdated⟩ |
      ⟨hwrites, s, hs, hsame⟩
    · obtain ⟨hdistinct, hverified, hattainable⟩ := hcreates data rfl
      rw [← htrustees] at hdistinct hverified hattainable
      rw [← hthreshold] at hattainable
      exact ⟨hdistinct, fun key hkey => ⟨_, Latest.head rfl, hverified key hkey⟩, hattainable⟩
    · exact usable_of_update (hall _ s hs) hloads hupdated (hkeeps ctx data remaining rfl s hs)
    · exact usable_of_same (hall S s hs) hwrites hsame
  · rw [hreg] at hs'
    exact usable_of_same (hall S s' hs') (hwrites S) (.refl s')

end Directory

/-- **THE SHARING STAYS USABLE EXACTLY WHERE EVERY UPDATE KEEPS IT SO.**  In every run of
    the services and the trustees, in which services are created with distinct and
    verified trustees and a threshold for them, every service of every state has distinct
    trustees, each verified when it was listed, and a threshold between one and their
    number wherever it has any, if and only if every update meets `KeepsUsable`. -/
theorem sharing_usable_iff (rt : Runtime) (serviceAddress : String → Pubkey)
    (policyAddress : Pubkey → String → Pubkey) (trusteeAddress : Bytes 32 → Pubkey)
    (h : DirectoryHistory) (d : Directory)
    (r : Run (Directory.step rt serviceAddress policyAddress trusteeAddress)
      Directory.empty h d)
    (hcreates : ∀ t ∈ h, CreatesUsable t) :
    (∀ later t earlier, h = later ++ t :: earlier →
      AllUsable serviceAddress (t :: earlier) t.post) ↔ ∀ t ∈ h, UpdateKeepsUsable t := by
  have hempty : AllUsable serviceAddress [] Directory.empty := fun S s hs => nomatch hs
  constructor
  · intro hall t ht ctx data remaining hcall s hs
    obtain ⟨later, earlier, hh⟩ := List.append_of_mem ht
    have hstep := (r.split hh).2
    rw [hcall] at hstep
    obtain ⟨-, hstep⟩ := require_bind_ok hstep
    obtain ⟨registry, hreg, hpost⟩ := bind_ok hstep
    obtain ⟨s', hs', hupdated⟩ := Registry.updated_of_step hreg hs
    have hlive : t.post.registry.services ctx.serviceProvider = some s' := by
      rw [← Except.ok.inj hpost]
      exact hs'
    exact Directory.keepsUsable_of_usable hupdated (hall later t earlier hh _ s' hlive)
  · intro hkeeps later t earlier hh
    have hguards : ∀ t ∈ h, CreatesUsable t ∧ UpdateKeepsUsable t :=
      fun t ht => ⟨hcreates t ht, hkeeps t ht⟩
    exact (r.invariant_at hempty
      (fun h d i d' hall hstep hguard =>
        Directory.allUsable_step hall hstep hguard.1 hguard.2) hguards hh).2

/-! ## A service with two trustees -/

namespace SharingSample

open ServiceSample (runtime root manager serviceAddress policyAddress)

/-- A trustee lives at its key. -/
def trusteeAddress (key : Bytes 32) : Pubkey := key

def step : Directory → DirectoryInstruction → Except ProgramError Directory :=
  Directory.step runtime serviceAddress policyAddress trusteeAddress

/-- Two verified trustees, and a service that lists both, with the default threshold. -/
def setup : List DirectoryInstruction :=
  [.createTrustee (Sample.key 11) { key := Sample.key 21, authority := none },
    .createTrustee (Sample.key 12) { key := Sample.key 22, authority := none },
    .verifyTrustee (Sample.key 21) root,
    .verifyTrustee (Sample.key 22) root,
    .service (.createServiceProvider { authority := root, bump := 255 }
      { code := "acme", name := "Acme", website := "", contactInfo := none,
        authority := some manager, secretShareThreshold := none,
        trustees := some [Sample.key 21, Sample.key 22] } Sample.now)]

def update (threshold : Option UInt8) (remaining : List (Pubkey × Option Trustee)) :
    DirectoryInstruction :=
  .service (.updateServiceProvider
    { serviceProvider := Sample.key 4, authority := manager }
    { newAuthority := none, name := none, website := none, contactInfo := none,
      secretShareThreshold := threshold, clearTrustees := false } remaining)

/-- The first trustee, as it lives. -/
def trustee : Trustee where
  key := Sample.key 21
  authority := Sample.key 11
  isVerified := true
  revealedShareCount := 0

def run (last : DirectoryInstruction) : DirectoryHistory × Directory :=
  exec step Directory.empty (setup ++ [last])

/-- What the service shares with at the end. -/
def sharing (last : DirectoryInstruction) : Option (List Pubkey × UInt8) :=
  ((run last).2.registry.services (Sample.key 4)).map fun s =>
    (s.trustees, s.secretShareThreshold)

/-- The run creates its service usable, and does not leave it so. -/
def Breaks (last : DirectoryInstruction) : Prop :=
  Run SharingSample.step Directory.empty (run last).1 (run last).2 ∧
    (∀ t ∈ (run last).1, CreatesUsable t) ∧
    ¬ AllUsable serviceAddress (run last).1 (run last).2

theorem breaks_of_sharing {last : DirectoryInstruction} (trustees : List Pubkey)
    (threshold : UInt8) (hcreates : ∀ t ∈ (run last).1, CreatesUsable t)
    (h : sharing last = some (trustees, threshold))
    (hbad : ¬ (trustees.Nodup ∧ Attainable threshold trustees.length)) (hne : trustees ≠ []) :
    Breaks last := by
  refine ⟨run_exec _ _ _, hcreates, fun hall => hbad ?_⟩
  obtain ⟨s, hs, heq⟩ := Option.map_eq_some_iff.mp h
  obtain ⟨rfl, rfl⟩ := Prod.mk.inj heq
  obtain ⟨hdistinct, -, hattainable⟩ := hall _ s hs
  exact ⟨hdistinct, hattainable hne⟩

/-- The four runs in one evaluation: their service is created usable, and ends like this. -/
theorem computed :
    ((∀ t ∈ (run (update (some 0) [])).1, CreatesUsable t) ∧
      sharing (update (some 0) []) = some ([Sample.key 21, Sample.key 22], 0)) ∧
    ((∀ t ∈ (run (update (some 3) [])).1, CreatesUsable t) ∧
      sharing (update (some 3) []) = some ([Sample.key 21, Sample.key 22], 3)) ∧
    ((∀ t ∈ (run (update none
        [(Sample.key 21, some trustee), (Sample.key 21, some trustee)])).1, CreatesUsable t) ∧
      sharing (update none [(Sample.key 21, some trustee), (Sample.key 21, some trustee)])
        = some ([Sample.key 21, Sample.key 21], 2)) ∧
    ∀ t ∈ (run (update (some 1) [])).1, CreatesUsable t := by decide +kernel

/-- **NOT EVERY UPDATE KEEPS THE SHARING USABLE**: the threshold is set to zero, it is set
    above the number of trustees, and one trustee is listed twice. -/
theorem sharing_usable_fails :
    Breaks (update (some 0) []) ∧ Breaks (update (some 3) []) ∧
      Breaks (update none [(Sample.key 21, some trustee), (Sample.key 21, some trustee)]) := by
  obtain ⟨⟨hcreates₀, hsharing₀⟩, ⟨hcreates₃, hsharing₃⟩, ⟨hcreates₂, hsharing₂⟩, -⟩ := computed
  refine ⟨?_, ?_, ?_⟩
  · exact breaks_of_sharing _ 0 hcreates₀ hsharing₀ (by decide) (List.cons_ne_nil _ _)
  · exact breaks_of_sharing _ 3 hcreates₃ hsharing₃ (by decide) (List.cons_ne_nil _ _)
  · exact breaks_of_sharing _ 2 hcreates₂ hsharing₂ (by decide) (List.cons_ne_nil _ _)

/-- The threshold is lowered to one. -/
theorem sharing_usable_iff_sample :
    (∀ later t earlier, (run (update (some 1) [])).1 = later ++ t :: earlier →
      AllUsable serviceAddress (t :: earlier) t.post) ↔
      ∀ t ∈ (run (update (some 1) [])).1, UpdateKeepsUsable t :=
  sharing_usable_iff runtime serviceAddress policyAddress trusteeAddress _ _
    (run_exec SharingSample.step _ _) computed.2.2.2

end SharingSample

end Albus.Program
