import Albus.Program.Ledger

/-! # The reveals of an investigation

    What the ledger says about an investigation and what the history says: the
    counter is the number of reveals, each of another trustee, and the revealed
    shares are the reveals' (`accounted_run`).  Whether the trustees are those the
    investigation lists is no part of it.

    A share counts as revealed by a time that is not zero, so the clock has to be
    past the epoch. -/

namespace Albus.Program

open Albus.Lib

abbrev LedgerHistory := List (Transition Ledger Instruction)

/-- What the instruction reveals, if it is a reveal for `inv`: trustee and data. -/
def Instruction.revealOf (inv : InvestigationSeeds) :
    Instruction → Option (Pubkey × RevealSecretShareData)
  | .reveal ctx data _ =>
      if ctx.investigationRequest = inv then some (ctx.trustee, data) else none
  | _ => none

/-- The reveals for `inv`, latest first. -/
def revealsOf (inv : InvestigationSeeds) (h : LedgerHistory) :
    List (Pubkey × RevealSecretShareData) :=
  h.filterMap fun t => t.call.revealOf inv

/-- The clock of a reveal is past the epoch. -/
def Instruction.PastEpoch : Instruction → Prop
  | .reveal _ _ now => now ≠ 0
  | _ => True

instance : (i : Instruction) → Decidable i.PastEpoch
  | .reveal _ _ now => inferInstanceAs (Decidable (now ≠ 0))
  | .request _ _ => inferInstanceAs (Decidable True)
  | .createTrustee _ _ => inferInstanceAs (Decidable True)
  | .createInvestigation _ _ _ _ => inferInstanceAs (Decidable True)

theorem revealsOf_cons_of_none {inv : InvestigationSeeds} {t : Transition Ledger Instruction}
    {h : LedgerHistory} (hnone : t.call.revealOf inv = none) :
    revealsOf inv (t :: h) = revealsOf inv h := by
  rw [revealsOf, List.filterMap_cons, hnone, revealsOf]

theorem revealsOf_cons_of_some {inv : InvestigationSeeds} {t : Transition Ledger Instruction}
    {h : LedgerHistory} {p : Pubkey × RevealSecretShareData}
    (hsome : t.call.revealOf inv = some p) :
    revealsOf inv (t :: h) = p :: revealsOf inv h := by
  rw [revealsOf, List.filterMap_cons, hsome, revealsOf]

/-- The ledger and the history agree on the investigation at `inv`. -/
structure Accounted (inv : InvestigationSeeds) (h : LedgerHistory) (l : Ledger) : Prop where
  nodup : ((revealsOf inv h).map Prod.fst).Nodup
  stored : ∀ p ∈ revealsOf inv h, ∃ s, l.shares ⟨inv, p.1⟩ = some s ∧ s.revealedAt ≠ 0 ∧
    s.index = p.2.index ∧ s.share = p.2.share
  revealed : ∀ trustee s, l.shares ⟨inv, trustee⟩ = some s → s.revealedAt ≠ 0 →
    trustee ∈ (revealsOf inv h).map Prod.fst
  counted : ∀ a, l.investigations inv = some a →
    a.revealedShareCount.toNat = (revealsOf inv h).length ∧
      a.revealedShareCount ≤ a.requiredShareCount
  absent : l.investigations inv = none → revealsOf inv h = []

/-- A step that keeps the investigation's accounts and is no reveal of it. -/
theorem Accounted.of_kept {inv : InvestigationSeeds} {h : LedgerHistory}
    {t : Transition Ledger Instruction} (ih : Accounted inv h t.pre)
    (hnone : t.call.revealOf inv = none)
    (hinv : t.post.investigations inv = t.pre.investigations inv)
    (hshares : ∀ trustee, t.post.shares ⟨inv, trustee⟩ = t.pre.shares ⟨inv, trustee⟩) :
    Accounted inv (t :: h) t.post := by
  constructor
  · rw [revealsOf_cons_of_none hnone]
    exact ih.nodup
  · intro p hp
    rw [revealsOf_cons_of_none hnone] at hp
    rw [hshares]
    exact ih.stored p hp
  · intro trustee s hs hat
    rw [hshares] at hs
    rw [revealsOf_cons_of_none hnone]
    exact ih.revealed trustee s hs hat
  · intro a ha
    rw [hinv] at ha
    rw [revealsOf_cons_of_none hnone]
    exact ih.counted a ha
  · intro ha
    rw [hinv] at ha
    rw [revealsOf_cons_of_none hnone]
    exact ih.absent ha

/-- Opening an investigation, this one or another. -/
theorem Accounted.opened {inv : InvestigationSeeds} {h : LedgerHistory} {l l' : Ledger}
    {ctx : CreateInvestigationRequest} {data : CreateInvestigationRequestData}
    {remaining : List RemainingAccount} {now : Int} (ih : Accounted inv h l)
    (hstep : l.openInvestigation ctx data remaining now = .ok l') :
    Accounted inv (⟨l, .createInvestigation ctx data remaining now, l'⟩ :: h) l' := by
  have hcons : revealsOf inv (⟨l, .createInvestigation ctx data remaining now, l'⟩ :: h)
      = revealsOf inv h := revealsOf_cons_of_none rfl
  obtain ⟨a, req, shares, -, hnone, hopened, rfl⟩ := Ledger.openInvestigation_ok hstep
  obtain ⟨-, -, hzero, -, hadded⟩ := createInvestigationRequest_ok hopened
  constructor
  · rw [hcons]
    exact ih.nodup
  · intro p hp
    rw [hcons] at hp
    obtain ⟨s, hs, hrest⟩ := ih.stored p hp
    exact ⟨s, hadded.kept _ s hs, hrest⟩
  · -- opening adds shares, none of them revealed, and keeps the old ones
    intro trustee s hs hat
    rw [hcons]
    cases hold : l.shares ⟨inv, trustee⟩ with
    | none =>
        obtain ⟨-, hat', -⟩ := hadded.added _ s hold hs
        exact absurd hat' hat
    | some s' =>
        have heq : shares ⟨inv, trustee⟩ = some s' := hadded.kept _ s' hold
        obtain rfl := Option.some.inj (heq.symm.trans hs)
        exact ih.revealed trustee s' hold hat
  · intro b hb
    rw [hcons]
    by_cases heq : inv = ⟨ctx.proofRequest, ctx.authority⟩
    · -- a new investigation: nothing was revealed for it
      subst heq
      have hb' : Function.update l.investigations ⟨ctx.proofRequest, ctx.authority⟩
          (some req) ⟨ctx.proofRequest, ctx.authority⟩ = some b := hb
      rw [Function.update_self] at hb'
      obtain rfl := Option.some.inj hb'
      rw [ih.absent hnone, hzero]
      exact ⟨rfl, UInt8.zero_le⟩
    · have hb' : Function.update l.investigations ⟨ctx.proofRequest, ctx.authority⟩
          (some req) inv = some b := hb
      rw [Function.update_of_ne heq] at hb'
      exact ih.counted b hb'
  · intro hb
    rw [hcons]
    by_cases heq : inv = ⟨ctx.proofRequest, ctx.authority⟩
    · subst heq
      exact ih.absent hnone
    · have hb' : Function.update l.investigations ⟨ctx.proofRequest, ctx.authority⟩
          (some req) inv = none := hb
      rw [Function.update_of_ne heq] at hb'
      exact ih.absent hb'

theorem toNat_add_one {n m : UInt8} (h : n < m) :
    (n + 1).toNat = n.toNat + 1 ∧ n + 1 ≤ m := by
  have hlt : n.toNat < m.toNat := UInt8.lt_iff_toNat_lt.mp h
  have hm : m.toNat < 256 := m.toNat_lt
  have hadd : (n + 1).toNat = n.toNat + 1 := by
    rw [UInt8.toNat_add]
    show (n.toNat + 1) % 2 ^ 8 = n.toNat + 1
    omega
  refine ⟨hadd, UInt8.le_iff_toNat_le.mpr ?_⟩
  omega

/-- A reveal for another investigation. -/
theorem revealOf_of_ne {inv : InvestigationSeeds} {ctx : RevealSecretShare}
    {data : RevealSecretShareData} {now : Int} (hne : ctx.investigationRequest ≠ inv) :
    (Instruction.reveal ctx data now).revealOf inv = none := if_neg hne

/-- A reveal for this investigation. -/
theorem Accounted.reveal {inv : InvestigationSeeds} {h : LedgerHistory} {l l' : Ledger}
    {ctx : RevealSecretShare} {data : RevealSecretShareData} {now : Int}
    (ih : Accounted inv h l) (hstep : l.revealShare ctx data now = .ok l')
    (hnow : now ≠ 0) (hinv : ctx.investigationRequest = inv) :
    Accounted inv (⟨l, .reveal ctx data now, l'⟩ :: h) l' := by
  subst hinv
  have hcons : revealsOf ctx.investigationRequest (⟨l, .reveal ctx data now, l'⟩ :: h)
      = (ctx.trustee, data) :: revealsOf ctx.investigationRequest h :=
    revealsOf_cons_of_some (if_pos rfl)
  obtain ⟨req, trustee, share', req', trustee', hreq, -, hrev, rfl⟩ :=
    Ledger.revealShare_ok hstep
  obtain ⟨hat, hlt, -, rfl, hat', hindex, hshare, -⟩ := revealSecretShare_ok hrev
  -- the trustee has not revealed before: its share would not be unrevealed
  have hfresh : ctx.trustee ∉ (revealsOf ctx.investigationRequest h).map Prod.fst := by
    intro hmem
    obtain ⟨p, hp, heq⟩ := List.mem_map.mp hmem
    obtain ⟨s, hs, hrevealed, -⟩ := ih.stored p hp
    rw [heq] at hs
    have hs' : l.shares ctx.shareSeeds = some s := hs
    rw [hs'] at hat
    exact hrevealed hat
  constructor
  · rw [hcons, List.map_cons]
    exact List.nodup_cons.mpr ⟨hfresh, ih.nodup⟩
  · intro p hp
    rw [hcons] at hp
    show ∃ s, Function.update l.shares ctx.shareSeeds (some share')
      ⟨ctx.investigationRequest, p.1⟩ = some s ∧ _
    rcases List.mem_cons.mp hp with rfl | hp
    · refine ⟨share', Function.update_self _ _ _, ?_, hindex, hshare⟩
      rw [hat']
      exact hnow
    · have hne : (⟨ctx.investigationRequest, p.1⟩ : ShareSeeds) ≠ ctx.shareSeeds := by
        intro heq
        have hp1 : p.1 = ctx.trustee := congrArg ShareSeeds.trustee heq
        exact hfresh (hp1 ▸ List.mem_map_of_mem hp)
      rw [Function.update_of_ne hne]
      exact ih.stored p hp
  · -- a share that is revealed now was before, or is this one
    intro t s hs hrevealed
    rw [hcons, List.map_cons]
    by_cases heq : t = ctx.trustee
    · subst heq
      exact List.mem_cons_self
    · refine List.mem_cons_of_mem _ (ih.revealed t s ?_ hrevealed)
      have hs' : Function.update l.shares ctx.shareSeeds (some share')
          ⟨ctx.investigationRequest, t⟩ = some s := hs
      have hne : (⟨ctx.investigationRequest, t⟩ : ShareSeeds) ≠ ctx.shareSeeds :=
        fun h' => heq (congrArg ShareSeeds.trustee h')
      rwa [Function.update_of_ne hne] at hs'
  · intro a ha
    have ha' : Function.update l.investigations ctx.investigationRequest
        (some { req with revealedShareCount := req.revealedShareCount + 1 })
        ctx.investigationRequest = some a := ha
    rw [Function.update_self] at ha'
    obtain rfl := Option.some.inj ha'
    obtain ⟨hadd, hle⟩ := toNat_add_one hlt
    rw [hcons, List.length_cons]
    refine ⟨?_, hle⟩
    show (req.revealedShareCount + 1).toNat = _
    rw [hadd, (ih.counted req hreq).1]
  · intro hnone
    have hnone' : Function.update l.investigations ctx.investigationRequest
        (some { req with revealedShareCount := req.revealedShareCount + 1 })
        ctx.investigationRequest = none := hnone
    rw [Function.update_self] at hnone'
    exact nomatch hnone'

theorem accounted_of_step {rt : Runtime} {trusteeAddress : Bytes 32 → Pubkey}
    {inv : InvestigationSeeds} {h : LedgerHistory} {l l' : Ledger} {i : Instruction}
    (ih : Accounted inv h l) (hstep : Ledger.step rt trusteeAddress l i = .ok l')
    (hclock : i.PastEpoch) : Accounted inv (⟨l, i, l'⟩ :: h) l' := by
  rcases Ledger.step_cases hstep with ⟨seeds, call, acc, rfl, -, rfl⟩ |
    ⟨authority, data, rfl, hs⟩ | ⟨ctx, data, remaining, now, rfl, hs⟩ |
    ⟨ctx, data, now, rfl, hs⟩
  · exact Accounted.of_kept ih rfl rfl (fun _ => rfl)
  · obtain ⟨trustee, -, -, rfl⟩ := Ledger.addTrustee_ok hs
    exact Accounted.of_kept ih rfl rfl (fun _ => rfl)
  · exact ih.opened hs
  · by_cases hinv : ctx.investigationRequest = inv
    · exact ih.reveal hs hclock hinv
    · obtain ⟨req, trustee, share', req', trustee', -, -, -, rfl⟩ :=
        Ledger.revealShare_ok hs
      refine Accounted.of_kept ih (revealOf_of_ne hinv)
        (Function.update_of_ne (Ne.symm hinv) _ _) ?_
      intro t
      refine Function.update_of_ne ?_ _ _
      intro heq
      exact hinv (congrArg ShareSeeds.investigationRequest heq).symm

/-- **LEDGER AND HISTORY AGREE**, in every run with the clock past the epoch. -/
theorem accounted_run {rt : Runtime} {trusteeAddress : Bytes 32 → Pubkey}
    {h : LedgerHistory} {l : Ledger}
    (r : Run (Ledger.step rt trusteeAddress) Ledger.empty h l)
    (hclock : ∀ t ∈ h, t.call.PastEpoch) (inv : InvestigationSeeds) :
    Accounted inv h l := by
  refine r.invariant (G := fun t => t.call.PastEpoch) (I := Accounted inv) ?_ ?_ hclock
  · constructor
    · exact List.nodup_nil
    · intro p hp
      exact nomatch hp
    · intro trustee s hs
      exact nomatch hs
    · intro a ha
      exact nomatch ha
    · intro _
      rfl
  · intro h l i l' ih hstep hc
    exact accounted_of_step ih hstep hc

/-! ## What the share accounts hold -/

/-- Every share account names the investigation of its address, and holds bytes only
    once it is revealed. -/
def SharesStored (l : Ledger) : Prop :=
  ∀ seeds s, l.shares seeds = some s →
    s.investigationRequest = some seeds.investigationRequest ∧
      (s.revealedAt = 0 → s.share = [])

theorem sharesStored_of_step {rt : Runtime} {trusteeAddress : Bytes 32 → Pubkey}
    {l l' : Ledger} {i : Instruction} (ih : SharesStored l)
    (hstep : Ledger.step rt trusteeAddress l i = .ok l') (hclock : i.PastEpoch) :
    SharesStored l' := by
  rcases Ledger.step_cases hstep with ⟨seeds, call, acc, rfl, -, rfl⟩ |
    ⟨authority, data, rfl, hs⟩ | ⟨ctx, data, remaining, now, rfl, hs⟩ |
    ⟨ctx, data, now, rfl, hs⟩
  · exact ih
  · obtain ⟨trustee, -, -, rfl⟩ := Ledger.addTrustee_ok hs
    exact ih
  · -- what is new is empty and names the new investigation
    obtain ⟨a, req, shares, -, -, hopened, rfl⟩ := Ledger.openInvestigation_ok hs
    obtain ⟨-, -, -, -, hadded⟩ := createInvestigationRequest_ok hopened
    intro seeds s hsome
    cases hold : l.shares seeds with
    | none =>
        obtain ⟨hinv, -, hempty, hname⟩ := hadded.added seeds s hold hsome
        rw [hinv]
        exact ⟨hname, fun _ => hempty⟩
    | some s' =>
        have heq : shares seeds = some s' := hadded.kept seeds s' hold
        obtain rfl := Option.some.inj (heq.symm.trans hsome)
        exact ih seeds s' hold
  · -- the share that is revealed has the time of the reveal
    obtain ⟨req, trustee, share', req', trustee', -, -, hrev, rfl⟩ :=
      Ledger.revealShare_ok hs
    obtain ⟨-, -, -, -, hat, -, -, hname⟩ := revealSecretShare_ok hrev
    intro seeds s hsome
    have hsome' : Function.update l.shares ctx.shareSeeds (some share') seeds = some s :=
      hsome
    by_cases heq : seeds = ctx.shareSeeds
    · subst heq
      rw [Function.update_self] at hsome'
      obtain rfl := Option.some.inj hsome'
      refine ⟨hname, ?_⟩
      intro hzero
      exact absurd (hat.symm.trans hzero) hclock
    · rw [Function.update_of_ne heq] at hsome'
      exact ih seeds s hsome'

theorem sharesStored_run {rt : Runtime} {trusteeAddress : Bytes 32 → Pubkey}
    {h : LedgerHistory} {l : Ledger}
    (r : Run (Ledger.step rt trusteeAddress) Ledger.empty h l)
    (hclock : ∀ t ∈ h, t.call.PastEpoch) : SharesStored l := by
  refine r.invariant (G := fun t => t.call.PastEpoch) (I := fun _ => SharesStored) ?_ ?_
    hclock
  · intro seeds s hs
    cases hs
  · intro h l i l' ih hstep hc
    exact sharesStored_of_step ih hstep hc

/-- The share accounts that a transaction passes. -/
def Instruction.shareSeeds : Instruction → List ShareSeeds
  | .createInvestigation _ _ remaining _ => remaining.filterMap RemainingAccount.shareSeeds
  | .reveal ctx _ _ => [ctx.shareSeeds]
  | _ => []

/-- A share account exists only if a transaction passed it. -/
theorem passed_run {rt : Runtime} {trusteeAddress : Bytes 32 → Pubkey}
    {h : LedgerHistory} {l : Ledger}
    (r : Run (Ledger.step rt trusteeAddress) Ledger.empty h l) :
    ∀ seeds, l.shares seeds ≠ none → seeds ∈ h.flatMap fun t => t.call.shareSeeds := by
  refine r.always (I := fun h l => ∀ seeds, l.shares seeds ≠ none →
    seeds ∈ h.flatMap fun t => t.call.shareSeeds) (fun seeds hs => absurd rfl hs) ?_
  intro h l i l' ih hstep seeds hsome
  rw [List.flatMap_cons]
  by_cases hold : l.shares seeds = none
  · refine List.mem_append_left _ ?_
    rcases Ledger.step_cases hstep with ⟨seeds', call, acc, rfl, -, rfl⟩ |
      ⟨authority, data, rfl, hs⟩ | ⟨ctx, data, remaining, now, rfl, hs⟩ |
      ⟨ctx, data, now, rfl, hs⟩
    · exact absurd hold hsome
    · obtain ⟨trustee, -, -, rfl⟩ := Ledger.addTrustee_ok hs
      exact absurd hold hsome
    · obtain ⟨a, req, shares, -, -, hopened, rfl⟩ := Ledger.openInvestigation_ok hs
      exact List.mem_filterMap.mpr
        ⟨_, createInvestigationRequest_added hopened hold hsome, rfl⟩
    · obtain ⟨req, trustee, share', req', trustee', -, -, -, rfl⟩ :=
        Ledger.revealShare_ok hs
      have hsome' : Function.update l.shares ctx.shareSeeds (some share') seeds ≠ none :=
        hsome
      by_cases heq : seeds = ctx.shareSeeds
      · exact List.mem_singleton.mpr heq
      · rw [Function.update_of_ne heq] at hsome'
        exact absurd hold hsome'
  · exact List.mem_append_right _ (ih seeds hold)

/-! ## A small investigation

    The request of the small deployment is proved, two trustees and a stranger
    register keys, and an investigation that needs two shares lists the two. -/

namespace InvestigationSample

def circuit : Account Circuit := Sample.circuit [] 0

/-- The request is created and proved, and three trustee accounts are created. -/
def setup : List Instruction :=
  [.request Sample.seeds (Sample.create []),
    .request Sample.seeds (Sample.prove [] circuit none (some Sample.proof) []),
    .createTrustee (Sample.key 11) { key := Sample.key 21, authority := none },
    .createTrustee (Sample.key 12) { key := Sample.key 22, authority := none },
    .createTrustee (Sample.key 13) { key := Sample.key 23, authority := none }]

def inv : InvestigationSeeds := ⟨Sample.seeds, Sample.key 30⟩

/-- The key of the keypair whose seed is thirty-two times the byte `31`. -/
def encryptionKey : Pubkey :=
  #v[67, 4, 107, 254, 64, 146, 179, 233, 73, 148, 234, 218, 21, 220, 194, 13, 138, 170, 7,
     182, 88, 253, 57, 84, 235, 142, 14, 251, 139, 220, 165, 222]

/-- The investigation, with the share accounts of its trustees. -/
def opening : Instruction :=
  .createInvestigation
    { proofRequest := Sample.seeds
      serviceProvider := ⟨Sample.key 4, ⟨0, 2, []⟩⟩
      authority := Sample.key 30 }
    { encryptionKey, trustees := [Sample.key 21, Sample.key 22] }
    [.share ⟨inv, Sample.key 21⟩, .share ⟨inv, Sample.key 22⟩] Sample.now

/-- A reveal for the trustee with key `21`, `22` or `23`, signed by its authority. -/
def reveal (n index : UInt8) (share : List UInt8) : Instruction :=
  .reveal
    { investigationRequest := inv
      trustee := Sample.key (20 + n)
      authority := Sample.key (10 + n) }
    { index, share } Sample.now

def run (reveals : List Instruction) : LedgerHistory × Ledger :=
  exec (Ledger.step Sample.runtime id) Ledger.empty (setup ++ opening :: reveals)

theorem run_run (reveals : List Instruction) :
    Run (Ledger.step Sample.runtime id) Ledger.empty (run reveals).1 (run reveals).2 :=
  run_exec (Ledger.step Sample.runtime id) Ledger.empty (setup ++ opening :: reveals)

/-- The clock of every reveal is that of the deployment. -/
theorem pastEpoch_run {reveals : List Instruction} (h : ∀ i ∈ reveals, i.PastEpoch) :
    ∀ t ∈ (run reveals).1, t.call.PastEpoch := by
  refine forall_exec (P := Instruction.PastEpoch) ?_
  intro i hi
  rcases List.mem_append.mp hi with hsetup | hi
  · exact (by decide : ∀ i ∈ setup, i.PastEpoch) i hsetup
  · rcases List.mem_cons.mp hi with rfl | hi
    · exact trivial
    · exact h i hi

end InvestigationSample

end Albus.Program
