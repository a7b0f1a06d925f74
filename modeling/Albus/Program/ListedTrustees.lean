import Albus.Program.Reveals

/-! # Whose shares count

    `reveal_secret_share` takes any trustee account, allocates the share when it is
    missing, and compares the trustee with nothing; `delete_investigation_request`
    is the one to look a trustee up in the list.  So only listed trustees' shares
    count exactly when only listed trustees' shares are revealed.  That each counts
    once, and by whose signature, the program does enforce. -/

namespace Albus.Program

open Albus.Lib

/-- The step moves the counter of `inv`. -/
def Counts (inv : InvestigationSeeds) (t : Transition Ledger Instruction) : Prop :=
  ∃ a ∈ t.pre.investigations inv, ∃ b ∈ t.post.investigations inv,
    b.revealedShareCount ≠ a.revealedShareCount

instance (inv : InvestigationSeeds) (t : Transition Ledger Instruction) :
    Decidable (Counts inv t) :=
  inferInstanceAs (Decidable (∃ a ∈ t.pre.investigations inv, _))

/-- The step is a reveal for a trustee that the investigation lists, signed by the
    trustee's authority or by the owner of the proof request, and counts one. -/
def CountsListed (inv : InvestigationSeeds) (t : Transition Ledger Instruction) : Prop :=
  match t.call with
  | .reveal ctx _ _ =>
      ctx.investigationRequest = inv ∧
        ∃ a ∈ t.pre.investigations inv, ∃ b ∈ t.post.investigations inv,
          ∃ trustee ∈ t.pre.trustees ctx.trustee, ctx.trustee ∈ a.trustees ∧
            (ctx.authority = trustee.authority ∨ ctx.authority = a.proofRequestOwner) ∧
            b.revealedShareCount.toNat = a.revealedShareCount.toNat + 1
  | _ => False

instance (inv : InvestigationSeeds) (t : Transition Ledger Instruction) :
    Decidable (CountsListed inv t) :=
  match t with
  | ⟨_, .reveal ctx _ _, _⟩ =>
      inferInstanceAs (Decidable (ctx.investigationRequest = inv ∧ _))
  | ⟨_, .request _ _, _⟩ => isFalse id
  | ⟨_, .createTrustee _ _, _⟩ => isFalse id
  | ⟨_, .createInvestigation _ _ _ _, _⟩ => isFalse id

/-- Every increment is a listed trustee's, and each trustee causes at most one. -/
structure OnlyListedCount (inv : InvestigationSeeds) (h : LedgerHistory) : Prop where
  listed : ∀ t ∈ h, Counts inv t → CountsListed inv t
  once : ∀ trustee, ((revealsOf inv h).map Prod.fst).count trustee ≤ 1

/-- A reveal is for a trustee that its investigation lists. -/
def RevealsListed (t : Transition Ledger Instruction) : Prop :=
  match t.call with
  | .reveal ctx _ _ =>
      ∀ a ∈ t.pre.investigations ctx.investigationRequest, ctx.trustee ∈ a.trustees
  | _ => True

instance (t : Transition Ledger Instruction) : Decidable (RevealsListed t) :=
  match t with
  | ⟨pre, .reveal ctx _ _, _⟩ =>
      inferInstanceAs (Decidable (∀ a ∈ pre.investigations ctx.investigationRequest, _))
  | ⟨_, .request _ _, _⟩ => isTrue trivial
  | ⟨_, .createTrustee _ _, _⟩ => isTrue trivial
  | ⟨_, .createInvestigation _ _ _ _, _⟩ => isTrue trivial

/-- **A REVEAL COUNTS ONE**, whoever its trustee is. -/
theorem reveal_counts {l l' : Ledger} {ctx : RevealSecretShare}
    {data : RevealSecretShareData} {now : Int} (h : l.revealShare ctx data now = .ok l') :
    ∃ a b trustee, l.investigations ctx.investigationRequest = some a ∧
      l'.investigations ctx.investigationRequest = some b ∧
      l.trustees ctx.trustee = some trustee ∧
      (ctx.authority = trustee.authority ∨ ctx.authority = a.proofRequestOwner) ∧
      b.revealedShareCount.toNat = a.revealedShareCount.toNat + 1 := by
  obtain ⟨req, trustee, share', req', trustee', hreq, htrustee, hrev, rfl⟩ :=
    Ledger.revealShare_ok h
  obtain ⟨-, hlt, hsigner, rfl, -⟩ := revealSecretShare_ok hrev
  exact ⟨req, _, trustee, hreq, Function.update_self _ _ _, htrustee, hsigner.symm,
    (toNat_add_one hlt).1⟩

/-- **ONLY A REVEAL COUNTS.** -/
theorem reveal_of_counts {rt : Runtime} {trusteeAddress : Bytes 32 → Pubkey}
    {inv : InvestigationSeeds} {t : Transition Ledger Instruction}
    (hstep : Ledger.step rt trusteeAddress t.pre t.call = .ok t.post)
    (hcounts : Counts inv t) :
    ∃ ctx data now, t.call = .reveal ctx data now ∧ ctx.investigationRequest = inv := by
  obtain ⟨a, ha, b, hb, hne⟩ := hcounts
  rcases Ledger.step_cases hstep with ⟨seeds, call, acc, -, -, heq⟩ |
    ⟨authority, data, -, hs⟩ | ⟨ctx, data, remaining, now, -, hs⟩ |
    ⟨ctx, data, now, hcall, hs⟩
  · rw [heq] at hb
    obtain rfl := Option.some.inj (ha.symm.trans hb)
    exact absurd rfl hne
  · obtain ⟨trustee, -, -, heq⟩ := Ledger.addTrustee_ok hs
    rw [heq] at hb
    obtain rfl := Option.some.inj (ha.symm.trans hb)
    exact absurd rfl hne
  · obtain ⟨acc, req, shares, -, hnone, -, heq⟩ := Ledger.openInvestigation_ok hs
    have hother : inv ≠ ⟨ctx.proofRequest, ctx.authority⟩ := by
      rintro rfl
      rw [ha] at hnone
      exact nomatch hnone
    have hb' : Function.update t.pre.investigations ⟨ctx.proofRequest, ctx.authority⟩
        (some req) inv = some b := by
      rw [heq] at hb
      exact hb
    rw [Function.update_of_ne hother, ha] at hb'
    obtain rfl := Option.some.inj hb'
    exact absurd rfl hne
  · refine ⟨ctx, data, now, hcall, ?_⟩
    by_contra hother
    obtain ⟨req, trustee, share', req', trustee', -, -, -, heq⟩ := Ledger.revealShare_ok hs
    have hb' : Function.update t.pre.investigations ctx.investigationRequest
        (some req') inv = some b := by
      rw [heq] at hb
      exact hb
    rw [Function.update_of_ne (Ne.symm hother), ha] at hb'
    obtain rfl := Option.some.inj hb'
    exact absurd rfl hne

/-- **ONLY LISTED TRUSTEES COUNT, EXACTLY WHEN ONLY THEY ARE REVEALED**, in every run
    of the ledger, signed by anybody, with the clock past the epoch. -/
theorem only_listed_count_iff (rt : Runtime) (trusteeAddress : Bytes 32 → Pubkey)
    (h : LedgerHistory) (l : Ledger)
    (r : Run (Ledger.step rt trusteeAddress) Ledger.empty h l)
    (hclock : ∀ t ∈ h, t.call.PastEpoch) :
    (∀ inv, OnlyListedCount inv h) ↔ ∀ t ∈ h, RevealsListed t := by
  constructor
  · rintro hall ⟨pre, call, post⟩ ht
    cases call with
    | reveal ctx data now =>
        intro a ha
        obtain ⟨a', b, trustee, ha', hb, -, -, hone⟩ := reveal_counts (r.step_of_mem ht)
        have hcounts : Counts ctx.investigationRequest ⟨pre, .reveal ctx data now, post⟩ := by
          refine ⟨a', ha', b, hb, ?_⟩
          intro heq
          rw [heq] at hone
          omega
        obtain ⟨-, a'', ha'', -, -, -, -, hmem, -⟩ :=
          (hall ctx.investigationRequest).listed _ ht hcounts
        obtain rfl := Option.some.inj (ha.symm.trans ha'')
        exact hmem
    | _ => exact trivial
  · intro hall inv
    constructor
    · rintro ⟨pre, call, post⟩ ht hcounts
      have hstep := r.step_of_mem ht
      obtain ⟨ctx, data, now, hcall, rfl⟩ := reveal_of_counts hstep hcounts
      obtain rfl : call = .reveal ctx data now := hcall
      obtain ⟨a, b, trustee, ha, hb, htrustee, hsigner, hone⟩ := reveal_counts hstep
      exact ⟨rfl, a, ha, b, hb, trustee, htrustee, hall _ ht a ha, hsigner, hone⟩
    · intro trustee
      exact List.nodup_iff_count_le_one.mp (accounted_run r hclock inv).nodup trustee

/-- Two listed trustees reveal, and count. -/
theorem only_listed_count_sample :
    (∃ a ∈ (InvestigationSample.run [InvestigationSample.reveal 1 1 [7],
        InvestigationSample.reveal 2 2 [8]]).2.investigations InvestigationSample.inv,
      a.revealedShareCount = 2) ∧
    ∀ inv, OnlyListedCount inv (InvestigationSample.run
      [InvestigationSample.reveal 1 1 [7], InvestigationSample.reveal 2 2 [8]]).1 := by
  refine ⟨by decide +kernel, ?_⟩
  exact (only_listed_count_iff Sample.runtime id _ _ (InvestigationSample.run_run _)
    (InvestigationSample.pastEpoch_run (by decide))).mpr (by decide +kernel)

/-- **A STRANGER'S SHARE COUNTS**: whoever registers a trustee key reveals a share of
    an investigation that does not list it. -/
theorem only_listed_count_fails :
    ∃ (h : LedgerHistory) (l : Ledger),
      Run (Ledger.step Sample.runtime id) Ledger.empty h l ∧
      (∀ t ∈ h, t.call.PastEpoch) ∧
      (∃ a ∈ l.investigations InvestigationSample.inv,
        a.revealedShareCount = 1 ∧ a.trustees = [Sample.key 21, Sample.key 22]) ∧
      (∃ t ∈ h, t.call = InvestigationSample.reveal 3 1 [9]) ∧
      ¬ OnlyListedCount InvestigationSample.inv h := by
  refine ⟨_, _, InvestigationSample.run_run [InvestigationSample.reveal 3 1 [9]], ?_⟩
  have hbad : ∃ t ∈ (InvestigationSample.run [InvestigationSample.reveal 3 1 [9]]).1,
      Counts InvestigationSample.inv t ∧ ¬ CountsListed InvestigationSample.inv t := by
    decide +kernel
  refine ⟨InvestigationSample.pastEpoch_run (by decide), by decide +kernel,
    by decide +kernel, ?_⟩
  intro hall
  obtain ⟨t, ht, hcounts, hnot⟩ := hbad
  exact hnot (hall.listed t ht hcounts)

end Albus.Program
