import Albus.Program.Investigation

/-! # The shares an investigator collects

    `InvestigationManager.decryptData` up to the reconstruction of the secret: two
    checks, and the loop over the share accounts that `findShares` returned, in
    whatever order.  The first share of an index counts, and an empty one is
    skipped.  A share whose bytes do not decrypt ends the loop with the error, so
    the loop ends well if every share that is not empty decrypts, and only if the
    first of each index does.

    An account that does not decode is `none`; `decryptShare` is the decryption of
    the share's bytes, read as a number. -/

namespace Albus.Sdk

open Albus.Lib Albus.Program

/-- The entries of the map `decryptedShares`. -/
abbrev DecryptedShares := List (UInt8 × ℕ)

/-- One turn of the loop. -/
def collectShare {ε : Type} (decryptShare : List UInt8 → Except ε ℕ)
    (decryptedShares : DecryptedShares) (data : Option InvestigationRequestShare) :
    Except ε DecryptedShares :=
  match data with
  | none => .ok decryptedShares
  | some data =>
      if data.index ∈ decryptedShares.map Prod.fst then .ok decryptedShares
      else if data.share = [] then .ok decryptedShares
      else do
        let share ← decryptShare data.share
        .ok (decryptedShares ++ [(data.index, share)])

def collectShares {ε : Type} (decryptShare : List UInt8 → Except ε ℕ)
    (shares : List (Option InvestigationRequestShare)) : Except ε DecryptedShares :=
  shares.foldlM (collectShare decryptShare) []

/-- `InvestigationManager.decryptData` up to `reconstructShamirSecret`: the shares it
    hands over. -/
def decryptedShares (decryptShare : List UInt8 → Except String ℕ) (encryptionKey : Pubkey)
    (investigationRequest : InvestigationRequest)
    (shares : List (Option InvestigationRequestShare)) : Except String DecryptedShares :=
  if shares.length < investigationRequest.requiredShareCount.toNat then
    .error "Invalid shares count"
  else if encryptionKey ≠ investigationRequest.encryptionKey then
    .error "Invalid encryption key"
  else collectShares decryptShare shares

variable {ε : Type} {decryptShare : List UInt8 → Except ε ℕ}

/-- What a pass over `shares` collects after `acc`: no index twice, every index that
    has a share which is not empty, and only what such a share decrypts to. -/
structure Collects (decryptShare : List UInt8 → Except ε ℕ)
    (shares : List (Option InvestigationRequestShare)) (acc out : DecryptedShares) :
    Prop where
  nodup : (acc.map Prod.fst).Nodup → (out.map Prod.fst).Nodup
  kept : acc ⊆ out
  all : ∀ s, some s ∈ shares → s.share ≠ [] → s.index ∈ out.map Prod.fst
  source : ∀ e ∈ out, e ∈ acc ∨ ∃ s, some s ∈ shares ∧ s.share ≠ [] ∧ s.index = e.1 ∧
    decryptShare s.share = .ok e.2

/-- A turn that leaves the map as it is: the share is absent, empty or its index is
    there already. -/
theorem Collects.skip {data : Option InvestigationRequestShare} {acc : DecryptedShares}
    (h : ∀ s, data = some s → s.share ≠ [] → s.index ∈ acc.map Prod.fst) :
    Collects decryptShare [data] acc acc where
  nodup hacc := hacc
  kept := List.Subset.refl acc
  all s hs hne := h s (List.mem_singleton.mp hs).symm hne
  source _ he := Or.inl he

/-- A turn that adds an entry. -/
theorem Collects.add {data : InvestigationRequestShare} {acc : DecryptedShares} {share : ℕ}
    (hnew : data.index ∉ acc.map Prod.fst) (hne : data.share ≠ [])
    (hshare : decryptShare data.share = .ok share) :
    Collects decryptShare [some data] acc (acc ++ [(data.index, share)]) where
  nodup hacc := by
    rw [List.map_append]
    refine List.nodup_append.mpr ⟨hacc, List.nodup_singleton _, ?_⟩
    intro i hi j hj hij
    obtain rfl := List.mem_singleton.mp hj
    have hi' : i = data.index := hij
    exact hnew (hi' ▸ hi)
  kept := List.subset_append_left _ _
  all s hs _ := by
    obtain rfl := Option.some.inj (List.mem_singleton.mp hs)
    rw [List.map_append]
    exact List.mem_append_right _ List.mem_cons_self
  source e he := by
    rcases List.mem_append.mp he with he | he
    · exact Or.inl he
    · obtain rfl := List.mem_singleton.mp he
      exact Or.inr ⟨data, List.mem_cons_self, hne, rfl, hshare⟩

/-- One pass after the other. -/
theorem Collects.append {shares shares' : List (Option InvestigationRequestShare)}
    {acc mid out : DecryptedShares} (h : Collects decryptShare shares acc mid)
    (h' : Collects decryptShare shares' mid out) :
    Collects decryptShare (shares ++ shares') acc out where
  nodup hacc := h'.nodup (h.nodup hacc)
  kept := List.Subset.trans h.kept h'.kept
  all s hs hne := by
    rcases List.mem_append.mp hs with hs | hs
    · exact List.map_subset Prod.fst h'.kept (h.all s hs hne)
    · exact h'.all s hs hne
  source e he := by
    rcases h'.source e he with he | ⟨s, hs, hrest⟩
    · rcases h.source e he with he | ⟨s, hs, hrest⟩
      · exact Or.inl he
      · exact Or.inr ⟨s, List.mem_append_left _ hs, hrest⟩
    · exact Or.inr ⟨s, List.mem_append_right _ hs, hrest⟩

theorem collectShare_ok {acc out : DecryptedShares}
    {data : Option InvestigationRequestShare}
    (h : collectShare decryptShare acc data = .ok out) :
    Collects decryptShare [data] acc out := by
  cases data with
  | none =>
      obtain rfl := Except.ok.inj h
      refine Collects.skip ?_
      intro s hs
      cases hs
  | some data =>
      by_cases hmem : data.index ∈ acc.map Prod.fst
      · rw [collectShare, if_pos hmem] at h
        obtain rfl := Except.ok.inj h
        refine Collects.skip ?_
        intro s hs _
        obtain rfl := Option.some.inj hs
        exact hmem
      · by_cases hempty : data.share = []
        · rw [collectShare, if_neg hmem, if_pos hempty] at h
          obtain rfl := Except.ok.inj h
          refine Collects.skip ?_
          intro s hs hne
          obtain rfl := Option.some.inj hs
          exact absurd hempty hne
        · rw [collectShare, if_neg hmem, if_neg hempty] at h
          obtain ⟨share, hshare, h⟩ := bind_ok h
          obtain rfl := Except.ok.inj h
          exact Collects.add hmem hempty hshare

theorem foldlM_collectShare_ok {shares : List (Option InvestigationRequestShare)} :
    ∀ {acc out : DecryptedShares},
      shares.foldlM (collectShare decryptShare) acc = .ok out →
      Collects decryptShare shares acc out := by
  induction shares with
  | nil =>
      intro acc out h
      obtain rfl := Except.ok.inj h
      exact ⟨id, List.Subset.refl acc, fun s hs => absurd hs List.not_mem_nil,
        fun _ he => Or.inl he⟩
  | cons data shares ih =>
      intro acc out h
      rw [List.foldlM_cons] at h
      obtain ⟨mid, hmid, h⟩ := bind_ok h
      exact (collectShare_ok hmid).append (ih h)

/-- **WHAT IS COLLECTED**: no index twice, every index that has a share which is not
    empty, and only what such a share decrypts to. -/
theorem collectShares_ok {shares : List (Option InvestigationRequestShare)}
    {out : DecryptedShares} (h : collectShares decryptShare shares = .ok out) :
    Collects decryptShare shares [] out := foldlM_collectShare_ok h

theorem collectShare_returns (acc : DecryptedShares)
    {data : Option InvestigationRequestShare}
    (h : ∀ s, data = some s → s.share ≠ [] → ∃ n, decryptShare s.share = .ok n) :
    ∃ out, collectShare decryptShare acc data = .ok out := by
  cases data with
  | none => exact ⟨acc, rfl⟩
  | some data =>
      by_cases hmem : data.index ∈ acc.map Prod.fst
      · exact ⟨acc, if_pos hmem⟩
      · by_cases hempty : data.share = []
        · refine ⟨acc, ?_⟩
          rw [collectShare, if_neg hmem, if_pos hempty]
        · obtain ⟨n, hn⟩ := h data rfl hempty
          refine ⟨acc ++ [(data.index, n)], ?_⟩
          rw [collectShare, if_neg hmem, if_neg hempty, hn]
          rfl

/-- **THE LOOP ENDS WELL** if every listed share that is not empty decrypts. -/
theorem collectShares_returns {shares : List (Option InvestigationRequestShare)}
    (h : ∀ s, some s ∈ shares → s.share ≠ [] → ∃ n, decryptShare s.share = .ok n) :
    ∃ out, collectShares decryptShare shares = .ok out := by
  -- from whatever was collected before
  have key : ∀ acc, ∃ out, shares.foldlM (collectShare decryptShare) acc = .ok out := by
    induction shares with
    | nil => exact fun acc => ⟨acc, rfl⟩
    | cons data shares ih =>
        intro acc
        obtain ⟨mid, hmid⟩ := collectShare_returns acc
          fun s hs => h s (hs ▸ List.mem_cons_self)
        obtain ⟨out, hout⟩ := ih (fun s hs => h s (List.mem_cons_of_mem _ hs)) mid
        refine ⟨out, ?_⟩
        rw [List.foldlM_cons, hmid]
        exact hout
  exact key []

end Albus.Sdk
