import Mathlib.Data.List.Forall2

/-! # Loops whose turns interleave

    A loop takes its turns in order, and ends if none of them fails.  Of two loops
    that wait for each other nowhere, all that is known of the turns is that each
    loop's own come in order. -/

namespace Albus.Lib

/-- A loop that ends has taken all its turns, one result a turn. -/
theorem mapM_eq_ok_iff {α β ε : Type} {f : α → Except ε β} {xs : List α} {ys : List β} :
    xs.mapM f = .ok ys ↔ List.Forall₂ (fun x y => f x = .ok y) xs ys := by
  induction xs generalizing ys with
  | nil =>
      rw [List.mapM_nil, List.forall₂_nil_left_iff]
      exact ⟨fun h => (Except.ok.inj h).symm, fun h => congrArg _ h.symm⟩
  | cons x xs ih =>
      rw [List.mapM_cons, List.forall₂_cons_left_iff]
      constructor
      · intro h
        cases hx : f x with
        | error e =>
            rw [hx] at h
            cases h
        | ok y =>
            rw [hx] at h
            cases hxs : xs.mapM f with
            | error e =>
                rw [hxs] at h
                cases h
            | ok rest =>
                rw [hxs] at h
                exact ⟨y, rest, rfl, ih.mp hxs, (Except.ok.inj h).symm⟩
      · rintro ⟨y, rest, hy, hrest, rfl⟩
        rw [hy, ih.mpr hrest]
        rfl

/-- If every turn succeeds, the loop ends. -/
theorem exists_mapM_eq_ok {α β ε : Type} {f : α → Except ε β} {xs : List α}
    (h : ∀ x ∈ xs, ∃ y, f x = .ok y) : ∃ ys, xs.mapM f = .ok ys := by
  simp only [mapM_eq_ok_iff]
  induction xs with
  | nil => exact ⟨[], .nil⟩
  | cons x xs ih =>
      obtain ⟨y, hy⟩ := h x List.mem_cons_self
      obtain ⟨ys, hys⟩ := ih fun x hx => h x (List.mem_cons_of_mem _ hx)
      exact ⟨y :: ys, .cons hy hys⟩

/-- Every result is a turn's. -/
theorem exists_turn {α β ε : Type} {f : α → Except ε β} {xs : List α} {ys : List β}
    (h : xs.mapM f = .ok ys) {y : β} (hy : y ∈ ys) : ∃ x ∈ xs, f x = .ok y := by
  have hall := mapM_eq_ok_iff.mp h
  induction hall with
  | nil => exact nomatch hy
  | cons hxy hrest ih =>
      rcases List.mem_cons.mp hy with rfl | hy
      · exact ⟨_, List.mem_cons_self, hxy⟩
      · obtain ⟨x, hx, hfx⟩ := ih (mapM_eq_ok_iff.mpr hrest) hy
        exact ⟨x, List.mem_cons_of_mem _ hx, hfx⟩

/-- Every turn has its result. -/
theorem exists_result {α β ε : Type} {f : α → Except ε β} {xs : List α} {ys : List β}
    (h : xs.mapM f = .ok ys) {x : α} (hx : x ∈ xs) : ∃ y ∈ ys, f x = .ok y := by
  have hall := mapM_eq_ok_iff.mp h
  induction hall with
  | nil => exact nomatch hx
  | cons hxy hrest ih =>
      rcases List.mem_cons.mp hx with rfl | hx
      · exact ⟨_, List.mem_cons_self, hxy⟩
      · obtain ⟨y, hy, hfx⟩ := ih (mapM_eq_ok_iff.mpr hrest) hx
        exact ⟨y, List.mem_cons_of_mem _ hy, hfx⟩

/-- The turns are those of the one loop and those of the other, each in order. -/
inductive Interleaves {α : Type*} : List α → List α → List α → Prop where
  | nil : Interleaves [] [] []
  | left (x : α) {xs ys turns : List α} (h : Interleaves xs ys turns) :
      Interleaves (x :: xs) ys (x :: turns)
  | right (y : α) {xs ys turns : List α} (h : Interleaves xs ys turns) :
      Interleaves xs (y :: ys) (y :: turns)

namespace Interleaves

variable {α : Type*} {xs ys turns : List α}

theorem mem_iff (h : Interleaves xs ys turns) {t : α} : t ∈ turns ↔ t ∈ xs ∨ t ∈ ys := by
  induction h with
  | nil => exact ⟨Or.inl, fun h => h.elim id id⟩
  | left x h ih => rw [List.mem_cons, List.mem_cons, ih, or_assoc]
  | right y h ih => rw [List.mem_cons, List.mem_cons, ih, or_left_comm]

/-- The second loop may be done before the first begins. -/
theorem second_first (xs ys : List α) : Interleaves xs ys (ys ++ xs) := by
  induction ys with
  | nil =>
      induction xs with
      | nil => exact .nil
      | cons x xs ih => exact .left x ih
  | cons y ys ih => exact .right y ih

end Interleaves

end Albus.Lib
