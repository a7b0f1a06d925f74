import Mathlib.Data.List.Nodup
import Mathlib.Data.List.Perm.Subperm

/-! # Redistributions

    What is moved between places stays in them: a change that keeps the total over some
    places, and leaves the others alone, keeps the total over all places that contain
    them. -/

namespace Albus.Lib

variable {κ α : Type} {measure : α → ℕ}

/-- What some places hold together. -/
def total (measure : α → ℕ) : List κ → (κ → α) → ℕ
  | [], _ => 0
  | k :: places, f => measure (f k) + total measure places f

theorem total_cons (k : κ) (places : List κ) (f : κ → α) :
    total measure (k :: places) f = measure (f k) + total measure places f := rfl

theorem total_append (ps qs : List κ) (f : κ → α) :
    total measure (ps ++ qs) f = total measure ps f + total measure qs f := by
  induction ps with
  | nil => exact (Nat.zero_add _).symm
  | cons k ps ih => rw [List.cons_append, total_cons, total_cons, ih, Nat.add_assoc]

theorem total_congr {places : List κ} {f g : κ → α} (h : ∀ k ∈ places, g k = f k) :
    total measure places g = total measure places f := by
  induction places with
  | nil => rfl
  | cons k places ih =>
      rw [total_cons, total_cons, h k List.mem_cons_self,
        ih fun k' hk' => h k' (List.mem_cons_of_mem _ hk')]

theorem total_perm {ps qs : List κ} (h : ps.Perm qs) (f : κ → α) :
    total measure ps f = total measure qs f := by
  induction h with
  | nil => rfl
  | cons k _ ih => rw [total_cons, total_cons, ih]
  | swap k k' places =>
      simp only [total_cons]
      omega
  | trans _ _ ih ih' => exact ih.trans ih'

/-- From `f` to `g` only these places change, and they hold as much as before. -/
structure Redistributes (measure : α → ℕ) (places : List κ) (f g : κ → α) : Prop where
  total_eq : total measure places g = total measure places f
  frame : ∀ k ∉ places, g k = f k

namespace Redistributes

variable {places all : List κ} {f g h : κ → α}

theorem refl (places : List κ) (f : κ → α) : Redistributes measure places f f :=
  ⟨rfl, fun _ _ => rfl⟩

theorem trans (hfg : Redistributes measure places f g) (hgh : Redistributes measure places g h) :
    Redistributes measure places f h :=
  ⟨hgh.total_eq.trans hfg.total_eq, fun k hk => (hgh.frame k hk).trans (hfg.frame k hk)⟩

/-- What moves from one place to another. -/
theorem move {a b : κ} {n : ℕ} (hsource : measure (g a) + n = measure (f a))
    (hdestination : measure (g b) = measure (f b) + n)
    (hframe : ∀ k, k ≠ a → k ≠ b → g k = f k) : Redistributes measure [a, b] f g := by
  refine ⟨?_, fun k hk => ?_⟩
  · rw [total_cons, total_cons, total_cons, total_cons]
    show measure (g a) + (measure (g b) + 0) = measure (f a) + (measure (f b) + 0)
    omega
  · rw [List.mem_cons, List.mem_singleton, not_or] at hk
    exact hframe k hk.1 hk.2

/-- **MORE PLACES** hold as much as before, too. -/
theorem mono (hfg : Redistributes measure places f g) (hplaces : places.Nodup)
    (hall : all.Nodup) (hsub : places ⊆ all) : Redistributes measure all f g := by
  obtain ⟨part, hpart, hsublist⟩ := hplaces.subperm hsub
  obtain ⟨rest, hrest⟩ := hsublist.exists_perm_append
  have hperm : all.Perm (places ++ rest) := hrest.trans (hpart.append_right rest)
  have hdisjoint : List.Disjoint places rest :=
    List.disjoint_of_nodup_append (hperm.nodup_iff.mp hall)
  refine ⟨?_, fun k hk => hfg.frame k (mt (@hsub k) hk)⟩
  calc total measure all g
      = total measure places g + total measure rest g := by
        rw [total_perm hperm, total_append]
    _ = total measure places f + total measure rest f := by
        rw [hfg.total_eq, total_congr fun k hk => hfg.frame k fun hk' => hdisjoint hk' hk]
    _ = total measure all f := by rw [total_perm hperm, total_append]

end Redistributes

/-! ## Items that own places -/

section Sweep

variable {ι ο ε : Type}

/-- The items in turn, each with what the ones before it left. -/
def sweep {β : Type} (step : ι → β → Except ε (ο × β)) : List ι → β → Except ε (List ο × β)
  | [], s => .ok ([], s)
  | i :: items, s =>
      match step i s with
      | .error e => .error e
      | .ok (o, s) =>
          match sweep step items s with
          | .error e => .error e
          | .ok (os, s) => .ok (o :: os, s)

variable {step : ι → (κ → α) → Except ε (ο × (κ → α))} {shared : List κ} {own : ι → List κ}
  {own' : ο → List κ} {Before : ι → (κ → α) → Prop} {After : ο → (κ → α) → Prop}

/-- **A SWEEP**: where an item changes its own places and the shared ones only, what it needs and
    what it leaves depends on its own places, and no place is of two items, all items together
    move what the shared places and their own hold. -/
theorem sweep_ok {items : List ι} {f g : κ → α} {os : List ο}
    (hdistinct : (shared ++ items.flatMap own).Nodup)
    (hbefore : ∀ i f g, (∀ k ∈ own i, g k = f k) → Before i f → Before i g)
    (hafter : ∀ o f g, (∀ k ∈ own' o, g k = f k) → After o f → After o g)
    (hstep : ∀ i ∈ items, ∀ f o g, Before i f → step i f = .ok (o, g) →
      Redistributes measure (shared ++ own i) f g ∧ own' o = own i ∧ After o g)
    (hstart : ∀ i ∈ items, Before i f) (h : sweep step items f = .ok (os, g)) :
    Redistributes measure (shared ++ items.flatMap own) f g ∧
      os.map own' = items.map own ∧ ∀ o ∈ os, After o g := by
  induction items generalizing f os with
  | nil =>
      cases h
      exact ⟨Redistributes.refl _ _, rfl, fun o ho => nomatch ho⟩
  | cons i items ih =>
      rw [sweep] at h
      split at h
      · exact nomatch h
      rename_i o f' hi
      split at h
      · exact nomatch h
      rename_i os' g' hrest
      cases h
      rw [List.flatMap_cons] at hdistinct ⊢
      obtain ⟨hshared, hown, hcross⟩ := List.nodup_append'.mp hdistinct
      obtain ⟨hi', hitems, hapart⟩ := List.nodup_append'.mp hown
      rw [List.disjoint_append_right] at hcross
      have hfirst : (shared ++ own i).Nodup := List.nodup_append'.mpr ⟨hshared, hi', hcross.1⟩
      have hothers : (shared ++ items.flatMap own).Nodup :=
        List.nodup_append'.mpr ⟨hshared, hitems, hcross.2⟩
      obtain ⟨hmove, howns, hdone⟩ := hstep i List.mem_cons_self f o f'
        (hstart i List.mem_cons_self) hi
      -- the places of the items behind are not touched
      have hbehind : ∀ j ∈ items, Before j f' := by
        intro j hj
        refine hbefore j f f' (fun k hk => hmove.frame k ?_) (hstart j (List.mem_cons_of_mem _ hj))
        have hmem : k ∈ items.flatMap own := List.mem_flatMap.mpr ⟨j, hj, hk⟩
        rw [List.mem_append, not_or]
        exact ⟨fun hk' => hcross.2 hk' hmem, fun hk' => hapart hk' hmem⟩
      obtain ⟨hmoves, hmap, hall⟩ := ih hothers
        (fun j hj => hstep j (List.mem_cons_of_mem _ hj)) hbehind hrest
      refine ⟨?_, ?_, ?_⟩
      · refine (hmove.mono hfirst hdistinct ?_).trans (hmoves.mono hothers hdistinct ?_)
        · rw [← List.append_assoc]
          exact List.subset_append_left _ _
        · exact List.append_subset.mpr ⟨List.subset_append_left _ _,
            List.Subset.trans (List.subset_append_right _ _) (List.subset_append_right _ _)⟩
      · rw [List.map_cons, List.map_cons, howns, hmap]
      · intro o' ho'
        rcases List.mem_cons.mp ho' with rfl | hmem
        · -- nor are those of the items in front
          refine hafter o' f' g (fun k hk => hmoves.frame k ?_) hdone
          rw [howns] at hk
          rw [List.mem_append, not_or]
          exact ⟨fun hk' => hcross.1 hk' hk, fun hk' => hapart hk hk'⟩
        · exact hall o' hmem

/-- **A SWEEP OVER A PART** of what there is: the items around it keep what they have. -/
theorem sweep_part {pre post : List ο} {items : List ι} {f g : κ → α} {os : List ο}
    (hdistinct :
      (shared ++ (pre.flatMap own' ++ items.flatMap own ++ post.flatMap own')).Nodup)
    (hbefore : ∀ i f g, (∀ k ∈ own i, g k = f k) → Before i f → Before i g)
    (hafter : ∀ o f g, (∀ k ∈ own' o, g k = f k) → After o f → After o g)
    (hstep : ∀ i ∈ items, ∀ f o g, Before i f → step i f = .ok (o, g) →
      Redistributes measure (shared ++ own i) f g ∧ own' o = own i ∧ After o g)
    (hstart : ∀ i ∈ items, Before i f) (haround : ∀ o ∈ pre ++ post, After o f)
    (h : sweep step items f = .ok (os, g)) :
    Redistributes measure
        (shared ++ (pre.flatMap own' ++ items.flatMap own ++ post.flatMap own')) f g ∧
      os.map own' = items.map own ∧ ∀ o ∈ pre ++ os ++ post, After o g := by
  obtain ⟨hshared, hown, hcross⟩ := List.nodup_append'.mp hdistinct
  obtain ⟨hfront, -, hpost⟩ := List.nodup_append'.mp hown
  obtain ⟨-, hitems, hpre⟩ := List.nodup_append'.mp hfront
  rw [List.disjoint_append_right, List.disjoint_append_right] at hcross
  rw [List.disjoint_append_left] at hpost
  have hpart : (shared ++ items.flatMap own).Nodup :=
    List.nodup_append'.mpr ⟨hshared, hitems, hcross.1.2⟩
  obtain ⟨hmoves, hmap, hall⟩ := sweep_ok hpart hbefore hafter hstep hstart h
  have houtside : ∀ k, k ∈ pre.flatMap own' ∨ k ∈ post.flatMap own' →
      k ∉ shared ++ items.flatMap own := by
    intro k hk hk'
    rcases List.mem_append.mp hk' with hs | hi
    · exact hk.elim (fun hk => hcross.1.1 hs hk) fun hk => hcross.2 hs hk
    · exact hk.elim (fun hk => hpre hk hi) fun hk => hpost.2 hi hk
  refine ⟨hmoves.mono hpart hdistinct ?_, hmap, ?_⟩
  · refine List.append_subset.mpr ⟨List.subset_append_left _ _, ?_⟩
    exact List.Subset.trans
      (List.Subset.trans (List.subset_append_right _ _) (List.subset_append_left _ _))
      (List.subset_append_right _ _)
  · intro o ho
    rw [List.append_assoc, List.mem_append, List.mem_append] at ho
    have hkept : (o ∈ pre ∨ o ∈ post) → After o g := by
      intro hmem
      refine hafter o f g (fun k hk => hmoves.frame k (houtside k ?_))
        (haround o (List.mem_append.mpr hmem))
      exact hmem.imp (fun hm => List.mem_flatMap.mpr ⟨o, hm, hk⟩)
        fun hm => List.mem_flatMap.mpr ⟨o, hm, hk⟩
    rcases ho with hpre | hdone | hpost
    · exact hkept (.inl hpre)
    · exact hall o hdone
    · exact hkept (.inr hpost)

/-- **A SWEEP OVER A SLICE**, each item with an input of its own. -/
theorem sweep_slice {γ : Type} {step : ο × γ → (κ → α) → Except ε (ο × (κ → α))}
    {P : ο → (κ → α) → Prop} {all updated : List ο} {start : ℕ} {inputs : List γ} {f g : κ → α}
    (hdistinct : (shared ++ all.flatMap own').Nodup)
    (hown : ∀ o f g, (∀ k ∈ own' o, g k = f k) → P o f → P o g)
    (hstep : ∀ o ∈ all, ∀ c f o' g, P o f → step (o, c) f = .ok (o', g) →
      Redistributes measure (shared ++ own' o) f g ∧ own' o' = own' o ∧ P o' g)
    (hstart : ∀ o ∈ all, P o f)
    (h : sweep step (((all.drop start).take inputs.length).zip inputs) f = .ok (updated, g)) :
    Redistributes measure (shared ++ all.flatMap own') f g ∧
      (all.take start ++ updated ++ all.drop (start + inputs.length)).map own'
        = all.map own' ∧
      ∀ o ∈ all.take start ++ updated ++ all.drop (start + inputs.length), P o g := by
  have hfst : (((all.drop start).take inputs.length).zip inputs).map Prod.fst
      = (all.drop start).take inputs.length := by
    refine List.map_fst_zip ?_
    rw [List.length_take, List.length_drop]
    omega
  have hparts : all.take start ++ (all.drop start).take inputs.length
      ++ all.drop (start + inputs.length) = all := by
    rw [List.append_assoc, ← List.drop_drop, List.take_append_drop, List.take_append_drop]
  have hplaces : (all.take start).flatMap own'
      ++ (((all.drop start).take inputs.length).zip inputs).flatMap (fun i => own' i.1)
      ++ (all.drop (start + inputs.length)).flatMap own' = all.flatMap own' := by
    rw [← List.flatMap_map Prod.fst own', hfst, ← List.flatMap_append, ← List.flatMap_append,
      hparts]
  have hmem : ∀ i ∈ ((all.drop start).take inputs.length).zip inputs, i.1 ∈ all := by
    intro i hi
    have hmem' := List.mem_map_of_mem (f := Prod.fst) hi
    rw [hfst] at hmem'
    exact List.mem_of_mem_drop (List.mem_of_mem_take hmem')
  have haround : ∀ o ∈ all.take start ++ all.drop (start + inputs.length), P o f := by
    intro o ho
    exact hstart o ((List.mem_append.mp ho).elim List.mem_of_mem_take List.mem_of_mem_drop)
  rw [← hplaces] at hdistinct
  obtain ⟨hmoves, hmap, hall⟩ := sweep_part hdistinct (fun i => hown i.1) hown
    (fun i hi f o' g => hstep i.1 (hmem i hi) i.2 f o' g) (fun i hi => hstart i.1 (hmem i hi))
    haround h
  refine ⟨hplaces ▸ hmoves, ?_, hall⟩
  have hmap' : updated.map own' = ((all.drop start).take inputs.length).map own' := by
    calc updated.map own'
        = ((((all.drop start).take inputs.length).zip inputs).map Prod.fst).map own' := by
          rw [hmap, List.map_map]
          rfl
      _ = ((all.drop start).take inputs.length).map own' := by rw [hfst]
  rw [List.map_append, List.map_append, hmap', ← List.map_append, ← List.map_append, hparts]

end Sweep

end Albus.Lib
