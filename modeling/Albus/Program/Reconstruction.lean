import Albus.Program.Reveals
import Albus.Sdk.InvestigationManager

/-! # Is a full investigation reconstructable

    A reveal overwrites the index and the bytes of a share with whatever it was
    called with, and once the threshold is reached no further reveal is accepted.
    So the shares of a full investigation are exactly those of its reveals, and
    they are enough if and only if each of them is a listed trustee's, not empty,
    and has the trustee's position for its index.

    The client decrypts what it finds, and one share that does not decrypt ends
    it.  So it hands enough over for the reconstruction if and only if, besides,
    every reveal brought what the investigator's key decrypts. -/

namespace Albus.Program

open Albus.Lib

/-- `index` is a position of `trustee` in the list, counted from one. -/
def IsPosition (trustees : List Pubkey) (trustee : Pubkey) (index : UInt8) : Prop :=
  index ≠ 0 ∧ trustees[index.toNat - 1]? = some trustee

instance (trustees : List Pubkey) (trustee : Pubkey) (index : UInt8) :
    Decidable (IsPosition trustees trustee index) :=
  inferInstanceAs (Decidable (_ ∧ _))

/-- One position holds one trustee. -/
theorem IsPosition.unique {trustees : List Pubkey} {trustee trustee' : Pubkey}
    {index : UInt8} (h : IsPosition trustees trustee index)
    (h' : IsPosition trustees trustee' index) : trustee = trustee' :=
  Option.some.inj (h.2.symm.trans h'.2)

/-- A revealed share of `inv` that is not empty, with a position of its trustee for
    its index. -/
def UsableShare (l : Ledger) (inv : InvestigationSeeds) (trustees : List Pubkey)
    (s : InvestigationRequestShare) : Prop :=
  ∃ trustee, l.shares ⟨inv, trustee⟩ = some s ∧ s.revealedAt ≠ 0 ∧ s.share ≠ [] ∧
    IsPosition trustees trustee s.index

/-- If the threshold of `inv` is reached, there are as many usable shares with
    pairwise distinct indices. -/
def Reconstructable (inv : InvestigationSeeds) (l : Ledger) : Prop :=
  ∀ a ∈ l.investigations inv, a.requiredShareCount ≤ a.revealedShareCount →
    ∃ shares : List InvestigationRequestShare,
      a.requiredShareCount.toNat ≤ shares.length ∧
      (shares.map InvestigationRequestShare.index).Nodup ∧
      ∀ s ∈ shares, UsableShare l inv a.trustees s

/-- A reveal of a share that is not empty, with a position of its trustee for its
    index. -/
def UsableReveal (trustees : List Pubkey) (p : Pubkey × RevealSecretShareData) : Prop :=
  p.2.share ≠ [] ∧ IsPosition trustees p.1 p.2.index

instance (trustees : List Pubkey) (p : Pubkey × RevealSecretShareData) :
    Decidable (UsableReveal trustees p) :=
  inferInstanceAs (Decidable (_ ∧ _))

/-- If the threshold of `inv` is reached, every reveal was usable. -/
def RevealsUsable (inv : InvestigationSeeds) (h : LedgerHistory) (l : Ledger) : Prop :=
  ∀ a ∈ l.investigations inv, a.requiredShareCount ≤ a.revealedShareCount →
    ∀ p ∈ revealsOf inv h, UsableReveal a.trustees p

instance (inv : InvestigationSeeds) (h : LedgerHistory) (l : Ledger) :
    Decidable (RevealsUsable inv h l) :=
  inferInstanceAs (Decidable (∀ a ∈ l.investigations inv, _))

theorem map_filterMap_eq {α β γ : Type} {f : α → Option β} {g : β → γ} {g' : α → γ}
    {xs : List α} (h : ∀ x ∈ xs, ∃ y, f x = some y ∧ g y = g' x) :
    (xs.filterMap f).map g = xs.map g' := by
  induction xs with
  | nil => rfl
  | cons x xs ih =>
      obtain ⟨y, hy, hg⟩ := h x List.mem_cons_self
      rw [List.filterMap_cons_some hy, List.map_cons, List.map_cons, hg,
        ih fun x' hx' => h x' (List.mem_cons_of_mem _ hx')]

variable {inv : InvestigationSeeds} {h : LedgerHistory} {l : Ledger}

/-- Equal indices of usable reveals are one position, which holds one trustee. -/
theorem Accounted.eq_of_index (hacc : Accounted inv h l) {trustees : List Pubkey}
    {p q : Pubkey × RevealSecretShareData} (hp : p ∈ revealsOf inv h)
    (hq : q ∈ revealsOf inv h) (hup : UsableReveal trustees p)
    (huq : UsableReveal trustees q) (hindex : p.2.index = q.2.index) : p = q := by
  have hpos := huq.2
  rw [← hindex] at hpos
  exact List.inj_on_of_nodup_map hacc.nodup hp hq (hup.2.unique hpos)

theorem Accounted.nodup_indices (hacc : Accounted inv h l) {trustees : List Pubkey}
    (husable : ∀ p ∈ revealsOf inv h, UsableReveal trustees p) :
    ((revealsOf inv h).map fun p => p.2.index).Nodup := by
  refine List.Nodup.map_on ?_ (List.Nodup.of_map _ hacc.nodup)
  intro p hp q hq
  exact hacc.eq_of_index hp hq (husable p hp) (husable q hq)

/-- **USABLE REVEALS MAKE USABLE SHARES**, one for each. -/
theorem Accounted.reconstructable (hacc : Accounted inv h l)
    (husable : RevealsUsable inv h l) : Reconstructable inv l := by
  intro a ha hfull
  have hreveals := husable a ha hfull
  obtain ⟨hcount, -⟩ := hacc.counted a ha
  have hindices : ((revealsOf inv h).filterMap fun p => l.shares ⟨inv, p.1⟩).map
      InvestigationRequestShare.index = (revealsOf inv h).map fun p => p.2.index := by
    refine map_filterMap_eq ?_
    intro p hp
    obtain ⟨s, hs, -, hindex, -⟩ := hacc.stored p hp
    exact ⟨s, hs, hindex⟩
  refine ⟨(revealsOf inv h).filterMap fun p => l.shares ⟨inv, p.1⟩, ?_, ?_, ?_⟩
  · have hlen := congrArg List.length hindices
    rw [List.length_map, List.length_map] at hlen
    rw [hlen, ← hcount]
    exact UInt8.le_iff_toNat_le.mp hfull
  · rw [hindices]
    exact hacc.nodup_indices hreveals
  · intro s hs
    obtain ⟨p, hp, hsome⟩ := List.mem_filterMap.mp hs
    obtain ⟨s', hs', hat, hindex, hshare⟩ := hacc.stored p hp
    obtain rfl := Option.some.inj (hsome.symm.trans hs')
    refine ⟨p.1, hsome, hat, ?_, ?_⟩
    · rw [hshare]
      exact (hreveals p hp).1
    · rw [hindex]
      exact (hreveals p hp).2

/-- **USABLE SHARES COME FROM USABLE REVEALS**: no more shares are revealed than the
    threshold, so that many distinct indices leave none out. -/
theorem Accounted.revealsUsable (hacc : Accounted inv h l)
    (hrec : Reconstructable inv l) : RevealsUsable inv h l := by
  intro a ha hfull
  obtain ⟨shares, hlen, hnodup, hshares⟩ := hrec a ha hfull
  obtain ⟨hcount, hle⟩ := hacc.counted a ha
  -- every usable share is a usable reveal's
  have hfrom : ∀ s ∈ shares, ∃ p ∈ revealsOf inv h, p.2.index = s.index ∧
      UsableReveal a.trustees p := by
    intro s hs
    obtain ⟨trustee, hstored, hat, hne, hpos⟩ := hshares s hs
    obtain ⟨p, hp, rfl⟩ := List.mem_map.mp (hacc.revealed trustee s hstored hat)
    obtain ⟨s', hs', -, hindex, hshare⟩ := hacc.stored p hp
    obtain rfl := Option.some.inj (hstored.symm.trans hs')
    refine ⟨p, hp, hindex.symm, ?_, ?_⟩
    · rw [← hshare]
      exact hne
    · rw [← hindex]
      exact hpos
  have hsub : shares.map InvestigationRequestShare.index ⊆
      (revealsOf inv h).map fun p => p.2.index := by
    intro i hi
    obtain ⟨s, hs, rfl⟩ := List.mem_map.mp hi
    obtain ⟨p, hp, hindex, -⟩ := hfrom s hs
    exact List.mem_map.mpr ⟨p, hp, hindex⟩
  have hperm := (List.subperm_of_subset hnodup hsub).perm_of_length_le (by
    rw [List.length_map, List.length_map, ← hcount]
    exact (UInt8.le_iff_toNat_le.mp hle).trans hlen)
  intro p hp
  have hmem : p.2.index ∈ shares.map InvestigationRequestShare.index :=
    hperm.mem_iff.mpr (List.mem_map_of_mem hp)
  obtain ⟨s, hs, hindex⟩ := List.mem_map.mp hmem
  obtain ⟨q, hq, hq', husable⟩ := hfrom s hs
  have hpq : p = q := List.inj_on_of_nodup_map (hperm.nodup_iff.mp hnodup) hp hq
    (hindex.symm.trans hq'.symm)
  rw [hpq]
  exact husable

/-! ## What the client finds and hands over -/

/-- The share accounts that name `inv`, in whatever order: what `findShares`
    returns. -/
def Listing (inv : InvestigationSeeds) (l : Ledger)
    (found : List (Option InvestigationRequestShare)) : Prop :=
  ∀ s, some s ∈ found ↔
    ∃ seeds, l.shares seeds = some s ∧ s.investigationRequest = some inv

/-- If the threshold of `inv` is reached, `decryptData`, called with the key of the
    request, hands over as many shares with pairwise distinct indices. -/
def HandsOverEnough (decryptShare : List UInt8 → Except String ℕ)
    (found : List (Option InvestigationRequestShare)) (inv : InvestigationSeeds)
    (l : Ledger) : Prop :=
  ∀ a ∈ l.investigations inv, a.requiredShareCount ≤ a.revealedShareCount →
    ∃ out, Sdk.decryptedShares decryptShare a.encryptionKey a found = .ok out ∧
      (out.map Prod.fst).Nodup ∧ a.requiredShareCount.toNat ≤ out.length

/-- If the threshold of `inv` is reached, every reveal brought bytes that decrypt. -/
def RevealsDecrypt (decryptShare : List UInt8 → Except String ℕ)
    (inv : InvestigationSeeds) (h : LedgerHistory) (l : Ledger) : Prop :=
  ∀ a ∈ l.investigations inv, a.requiredShareCount ≤ a.revealedShareCount →
    ∀ p ∈ revealsOf inv h, (decryptShare p.2.share).isOk = true

instance (decryptShare : List UInt8 → Except String ℕ) (inv : InvestigationSeeds)
    (h : LedgerHistory) (l : Ledger) : Decidable (RevealsDecrypt decryptShare inv h l) :=
  inferInstanceAs (Decidable (∀ a ∈ l.investigations inv, _))

/-- The listing in the order in which the accounts were last passed. -/
def listing (inv : InvestigationSeeds) (h : LedgerHistory) (l : Ledger) :
    List (Option InvestigationRequestShare) :=
  ((h.flatMap fun t => t.call.shareSeeds).filter
    fun seeds => seeds.investigationRequest = inv).map l.shares

theorem listing_run {rt : Runtime} {trusteeAddress : Bytes 32 → Pubkey}
    (r : Run (Ledger.step rt trusteeAddress) Ledger.empty h l)
    (hclock : ∀ t ∈ h, t.call.PastEpoch) : Listing inv l (listing inv h l) := by
  have hstored := sharesStored_run r hclock
  intro s
  constructor
  · intro hs
    obtain ⟨seeds, hseeds, hsome⟩ := List.mem_map.mp hs
    have hinv : seeds.investigationRequest = inv :=
      of_decide_eq_true (List.mem_filter.mp hseeds).2
    refine ⟨seeds, hsome, ?_⟩
    rw [(hstored seeds s hsome).1, hinv]
  · rintro ⟨seeds, hsome, hname⟩
    have hinv := Option.some.inj ((hstored seeds s hsome).1.symm.trans hname)
    refine List.mem_map.mpr ⟨seeds, List.mem_filter.mpr ⟨?_, decide_eq_true hinv⟩, hsome⟩
    refine passed_run r seeds ?_
    rw [hsome]
    exact Option.some_ne_none s

theorem isOk_iff {ε α : Type} {x : Except ε α} : x.isOk = true ↔ ∃ a, x = .ok a := by
  cases x with
  | ok a => exact ⟨fun _ => ⟨a, rfl⟩, fun _ => rfl⟩
  | error e =>
      constructor
      · intro h
        cases h
      · rintro ⟨a, ha⟩
        cases ha

section HandOver

variable {decryptShare : List UInt8 → Except String ℕ}
  {found : List (Option InvestigationRequestShare)}

/-- The share of a reveal is listed. -/
theorem Accounted.listed (hacc : Accounted inv h l) (hstored : SharesStored l)
    (hfound : Listing inv l found) {p : Pubkey × RevealSecretShareData}
    (hp : p ∈ revealsOf inv h) :
    ∃ s, some s ∈ found ∧ s.index = p.2.index ∧ s.share = p.2.share := by
  obtain ⟨s, hs, -, hindex, hshare⟩ := hacc.stored p hp
  exact ⟨s, (hfound s).mpr ⟨_, hs, (hstored _ s hs).1⟩, hindex, hshare⟩

/-- A listed share that is not empty is that of a reveal. -/
theorem Accounted.of_listed (hacc : Accounted inv h l) (hstored : SharesStored l)
    (hfound : Listing inv l found) {s : InvestigationRequestShare} (hs : some s ∈ found)
    (hne : s.share ≠ []) :
    ∃ p ∈ revealsOf inv h, p.2.index = s.index ∧ p.2.share = s.share := by
  obtain ⟨seeds, hseeds, hname⟩ := (hfound s).mp hs
  obtain ⟨haddress, hempty⟩ := hstored seeds s hseeds
  obtain rfl := Option.some.inj (haddress.symm.trans hname)
  obtain ⟨p, hp, htrustee⟩ :=
    List.mem_map.mp (hacc.revealed seeds.trustee s hseeds (mt hempty hne))
  obtain ⟨s', hs', -, hindex, hshare⟩ := hacc.stored p hp
  rw [htrustee] at hs'
  obtain rfl := Option.some.inj (hseeds.symm.trans hs')
  exact ⟨p, hp, hindex.symm, hshare.symm⟩

/-- **ENOUGH IS HANDED OVER**: every reveal's share is found and decrypts, and its index
    is one of those handed over. -/
theorem Accounted.handsOver (hacc : Accounted inv h l) (hstored : SharesStored l)
    (hfound : Listing inv l found) (husable : RevealsUsable inv h l)
    (hdecrypt : RevealsDecrypt decryptShare inv h l) :
    HandsOverEnough decryptShare found inv l := by
  intro a ha hfull
  have hreveals := husable a ha hfull
  obtain ⟨hcount, -⟩ := hacc.counted a ha
  have henough : a.requiredShareCount.toNat
      ≤ ((revealsOf inv h).map fun p => p.2.index).length := by
    rw [List.length_map, ← hcount]
    exact UInt8.le_iff_toNat_le.mp hfull
  have hnodup := hacc.nodup_indices hreveals
  obtain ⟨out, hout⟩ : ∃ out, Sdk.collectShares decryptShare found = .ok out := by
    refine Sdk.collectShares_returns ?_
    intro s hs hne
    obtain ⟨p, hp, -, hshare⟩ := hacc.of_listed hstored hfound hs hne
    rw [← hshare]
    exact isOk_iff.mp (hdecrypt a ha hfull p hp)
  have hcollects := Sdk.collectShares_ok hout
  -- the indices of the reveals are among those found, and among those handed over
  have hfoundLength : a.requiredShareCount.toNat ≤ found.length := by
    have hsub : ((revealsOf inv h).map fun p => p.2.index)
        ⊆ found.filterMap fun data => data.map InvestigationRequestShare.index := by
      intro i hi
      obtain ⟨p, hp, rfl⟩ := List.mem_map.mp hi
      obtain ⟨s, hs, hindex, -⟩ := hacc.listed hstored hfound hp
      refine List.mem_filterMap.mpr ⟨some s, hs, ?_⟩
      rw [Option.map_some, hindex]
    exact henough.trans
      ((List.subperm_of_subset hnodup hsub).length_le.trans (List.length_filterMap_le _ _))
  have houtLength : a.requiredShareCount.toNat ≤ out.length := by
    have hsub : ((revealsOf inv h).map fun p => p.2.index) ⊆ out.map Prod.fst := by
      intro i hi
      obtain ⟨p, hp, rfl⟩ := List.mem_map.mp hi
      obtain ⟨s, hs, hindex, hshare⟩ := hacc.listed hstored hfound hp
      rw [← hindex]
      refine hcollects.all s hs ?_
      rw [hshare]
      exact (hreveals p hp).1
    have hcard := (List.subperm_of_subset hnodup hsub).length_le
    exact henough.trans (hcard.trans_eq (List.length_map _))
  refine ⟨out, ?_, hcollects.nodup List.nodup_nil, houtLength⟩
  rw [Sdk.decryptedShares, if_neg (Nat.not_lt.mpr hfoundLength), if_neg (not_not.mpr rfl)]
  exact hout

theorem decryptedShares_ok {encryptionKey : Pubkey} {a : InvestigationRequest}
    {out : Sdk.DecryptedShares}
    (hout : Sdk.decryptedShares decryptShare encryptionKey a found = .ok out) :
    Sdk.collectShares decryptShare found = .ok out := by
  rw [Sdk.decryptedShares] at hout
  split_ifs at hout
  exact hout

/-- **WHAT IS HANDED OVER DECRYPTED**: the index of a reveal was taken from a share that
    decrypts, and no other share has it. -/
theorem Accounted.revealsDecrypt (hacc : Accounted inv h l) (hstored : SharesStored l)
    (hfound : Listing inv l found) (husable : RevealsUsable inv h l)
    (hout : HandsOverEnough decryptShare found inv l) :
    RevealsDecrypt decryptShare inv h l := by
  intro a ha hfull p hp
  have hreveals := husable a ha hfull
  obtain ⟨out, hout, -, -⟩ := hout a ha hfull
  have hcollects := Sdk.collectShares_ok (decryptedShares_ok hout)
  obtain ⟨s, hs, hindex, hshare⟩ := hacc.listed hstored hfound hp
  have hne : s.share ≠ [] := by
    rw [hshare]
    exact (hreveals p hp).1
  obtain ⟨e, he, hentry⟩ := List.mem_map.mp (hcollects.all s hs hne)
  rcases hcollects.source e he with hnil | ⟨s', hs', hne', hindex', hdecrypts⟩
  · exact absurd hnil List.not_mem_nil
  obtain ⟨q, hq, hqindex, hqshare⟩ := hacc.of_listed hstored hfound hs' hne'
  have hpq : p = q := by
    refine hacc.eq_of_index hp hq (hreveals p hp) (hreveals q hq) ?_
    rw [hqindex, hindex', hentry, hindex]
  rw [hpq, hqshare]
  exact isOk_iff.mpr ⟨e.2, hdecrypts⟩

end HandOver

/-- **A FULL INVESTIGATION IS RECONSTRUCTABLE, EXACTLY WHEN ITS REVEALS ARE USABLE AND
    DECRYPT**, in every state of every run, signed by anybody, with the clock past the
    epoch, whatever the decryption and the order in which the accounts are found. -/
theorem reconstructable_iff (rt : Runtime) (trusteeAddress : Bytes 32 → Pubkey)
    (h : LedgerHistory) (l : Ledger)
    (r : Run (Ledger.step rt trusteeAddress) Ledger.empty h l)
    (hclock : ∀ t ∈ h, t.call.PastEpoch) (inv : InvestigationSeeds)
    (decryptShare : List UInt8 → Except String ℕ)
    (found : List (Option InvestigationRequestShare)) (hfound : Listing inv l found) :
    (Reconstructable inv l ∧ HandsOverEnough decryptShare found inv l) ↔
      RevealsUsable inv h l ∧ RevealsDecrypt decryptShare inv h l := by
  have hacc := accounted_run r hclock inv
  have hstored := sharesStored_run r hclock
  constructor
  · rintro ⟨hrec, hout⟩
    have husable := hacc.revealsUsable hrec
    exact ⟨husable, hacc.revealsDecrypt hstored hfound husable hout⟩
  · rintro ⟨husable, hdecrypt⟩
    exact ⟨hacc.reconstructable husable,
      hacc.handsOver hstored hfound husable hdecrypt⟩

namespace InvestigationSample

/-- `XC20P.encryptBytes` of the byte `7` for the investigator. -/
def seven : List UInt8 :=
  [51, 51, 51, 51, 51, 51, 51, 51, 51, 51, 51, 51, 51, 51, 51, 51, 51, 51, 51, 51, 51, 51,
   51, 51, 162, 139, 211, 181, 100, 250, 60, 174, 105, 209, 21, 24, 116, 96, 71, 169, 139,
   23, 215, 226, 172, 211, 11, 245, 225, 157, 134, 26, 232, 9, 136, 209, 127, 174, 143, 102,
   47, 93, 128, 176, 5, 63, 108, 199, 60, 218, 177, 210, 100]

/-- `XC20P.encryptBytes` of the byte `9` for the investigator. -/
def nine : List UInt8 :=
  [52, 52, 52, 52, 52, 52, 52, 52, 52, 52, 52, 52, 52, 52, 52, 52, 52, 52, 52, 52, 52, 52,
   52, 52, 46, 94, 213, 78, 197, 158, 78, 34, 185, 152, 88, 58, 166, 112, 51, 190, 111, 7,
   170, 255, 62, 159, 193, 103, 39, 85, 68, 244, 195, 166, 161, 124, 216, 55, 242, 236, 110,
   120, 205, 138, 87, 177, 227, 223, 179, 204, 3, 90, 118]

/-- What the investigator's key makes of the two. -/
def decryptShare (share : List UInt8) : Except String ℕ :=
  if share = seven then .ok 7
  else if share = nine then .ok 9
  else .error "There was an error decoding the message!"

def reveals : List Instruction := [reveal 2 2 nine, reveal 1 1 seven]

end InvestigationSample

/-- Both trustees reveal under their positions what decrypts to their shares. -/
theorem reconstructable_sample :
    (∃ a ∈ (InvestigationSample.run InvestigationSample.reveals).2.investigations
        InvestigationSample.inv, a.requiredShareCount ≤ a.revealedShareCount) ∧
    Reconstructable InvestigationSample.inv
      (InvestigationSample.run InvestigationSample.reveals).2 ∧
    HandsOverEnough InvestigationSample.decryptShare
      (listing InvestigationSample.inv (InvestigationSample.run InvestigationSample.reveals).1
        (InvestigationSample.run InvestigationSample.reveals).2)
      InvestigationSample.inv (InvestigationSample.run InvestigationSample.reveals).2 := by
  have r := InvestigationSample.run_run InvestigationSample.reveals
  have hclock := InvestigationSample.pastEpoch_run
    (by decide : ∀ i ∈ InvestigationSample.reveals, i.PastEpoch)
  refine ⟨by decide +kernel, ?_⟩
  exact (reconstructable_iff Sample.runtime id _ _ r hclock InvestigationSample.inv
    InvestigationSample.decryptShare _ (listing_run r hclock)).mpr (by decide +kernel)

/-- **FULL, AND NOT RECONSTRUCTABLE**: the second trustee reveals under the index of
    the first, and no third reveal is accepted. -/
theorem reconstructable_fails :
    ∃ (h : LedgerHistory) (l : Ledger),
      Run (Ledger.step Sample.runtime id) Ledger.empty h l ∧
      (∀ t ∈ h, t.call.PastEpoch) ∧
      (∃ a ∈ l.investigations InvestigationSample.inv, a.revealedShareCount = 2 ∧
        a.requiredShareCount = 2 ∧ a.trustees = [Sample.key 21, Sample.key 22]) ∧
      ¬ Reconstructable InvestigationSample.inv l := by
  have r := InvestigationSample.run_run
    [InvestigationSample.reveal 1 1 [7], InvestigationSample.reveal 2 1 [8]]
  have hsample : (∀ t ∈ (InvestigationSample.run [InvestigationSample.reveal 1 1 [7],
        InvestigationSample.reveal 2 1 [8]]).1, t.call.PastEpoch) ∧
      (∃ a ∈ (InvestigationSample.run [InvestigationSample.reveal 1 1 [7],
          InvestigationSample.reveal 2 1 [8]]).2.investigations InvestigationSample.inv,
        a.revealedShareCount = 2 ∧ a.requiredShareCount = 2 ∧
          a.trustees = [Sample.key 21, Sample.key 22]) ∧
      ¬ RevealsUsable InvestigationSample.inv
        (InvestigationSample.run [InvestigationSample.reveal 1 1 [7],
          InvestigationSample.reveal 2 1 [8]]).1
        (InvestigationSample.run [InvestigationSample.reveal 1 1 [7],
          InvestigationSample.reveal 2 1 [8]]).2 := by
    decide +kernel
  refine ⟨_, _, r, hsample.1, hsample.2.1, ?_⟩
  intro hrec
  exact hsample.2.2
    ((accounted_run r hsample.1 InvestigationSample.inv).revealsUsable hrec)

end Albus.Program
