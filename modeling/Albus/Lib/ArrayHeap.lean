import Mathlib.Algebra.Group.Nat.Even
import Mathlib.Data.List.GetD
import Mathlib.Data.Nat.Notation
import Mathlib.Logic.Function.Basic

/-! # Arrays that are shared

    An array is known by its reference, and whoever holds the reference can change it.
    `HeapM` is a computation on such arrays; what it wrote stays written when it throws.

    `Follows` relates one to a computation without arrays: it gives the same result and
    has only added arrays to those there were (`Follows.bind`, `Follows.mapM`). -/

namespace Albus.Lib

/-- A reference: the position of its array in the heap. -/
abbrev Ref := ℕ

/-- The arrays, in the order they were made. -/
abbrev ArrayHeap (α : Type) := List (List α)

abbrev HeapM (α ε : Type) := ExceptT ε (StateM (ArrayHeap α))

namespace ArrayHeap

variable {α : Type}

/-- The array behind a reference; none behind a dangling one. -/
def read (h : ArrayHeap α) (a : Ref) : List α := h.getD a []

theorem read_mono {h h' : ArrayHeap α} (hle : h <+: h') {a : Ref} (ha : a < h.length) :
    h'.read a = h.read a := by
  obtain ⟨more, rfl⟩ := hle
  exact List.getD_append h more [] a ha

theorem read_append_length (h : ArrayHeap α) (xs : List α) (more : ArrayHeap α) :
    (h ++ xs :: more).read h.length = xs := by
  rw [read, List.getD_append_right _ _ _ _ (Nat.le_refl _), Nat.sub_self, List.getD_cons_zero]

/-- Turning an array around turns what is read there, and nothing else. -/
theorem read_modify_reverse (h : ArrayHeap α) (a : Ref) :
    read (h.modify a List.reverse) = Function.update h.read a (h.read a).reverse := by
  funext b
  rw [read, List.getD_eq_getElem?_getD, List.getElem?_modify]
  by_cases hab : a = b
  · subst hab
    rw [Function.update_self, read, List.getD_eq_getElem?_getD]
    cases h[a]? with
    | none => rfl
    | some xs => simp
  · rw [Function.update_of_ne (Ne.symm hab), read, List.getD_eq_getElem?_getD]
    cases h[b]? with
    | none => rfl
    | some xs => simp [hab]

end ArrayHeap

namespace HeapM

variable {α ε β γ δ ζ : Type}

/-- A new array. -/
def alloc (xs : List α) : HeapM α ε Ref := fun h => (.ok h.length, h ++ [xs])

/-- What is in an array. -/
def contents (a : Ref) : HeapM α ε (List α) := fun h => (.ok (h.read a), h)

/-- `reverse`: the array itself is turned around, and returned. -/
def reverse (a : Ref) : HeapM α ε Ref := fun h => (.ok a, h.modify a List.reverse)

/-- A computation without arrays. -/
def lift (x : Except ε β) : HeapM α ε β := fun h => (x, h)

theorem bind_apply (m : HeapM α ε β) (f : β → HeapM α ε γ) (h : ArrayHeap α) :
    (m >>= f) h = match m h with
      | (.ok b, h') => f b h'
      | (.error e, h') => (.error e, h') := by
  show (match m h with | (r, h') => ExceptT.bindCont f r h') = _
  rcases m h with ⟨_ | _, _⟩ <;> rfl

theorem bind_apply_ok {m : HeapM α ε β} {f : β → HeapM α ε γ} {h h' : ArrayHeap α} {b : β}
    (hm : m h = (.ok b, h')) : (m >>= f) h = f b h' := by
  rw [bind_apply, hm]

/-! ## Following a computation without arrays -/

/-- Results related by `rel`, or the same exception. -/
def Agree (rel : β → γ → Prop) : Except ε β → Except ε γ → Prop
  | .ok b, .ok c => rel b c
  | .error e, .error e' => e = e'
  | _, _ => False

theorem agree_eq_iff {r x : Except ε β} : Agree (fun b c => b = c) r x ↔ r = x := by
  cases r <;> cases x <;> simp [Agree]

/-- From `h` the computation gives what `x` gives, up to `rel`, and has only added
    arrays. -/
def Follows (h : ArrayHeap α) (rel : ArrayHeap α → β → γ → Prop) (m : HeapM α ε β)
    (x : Except ε γ) : Prop :=
  h <+: (m h).2 ∧ Agree (rel (m h).2) (m h).1 x

/-- The same value. -/
def Same (_ : ArrayHeap α) (b c : β) : Prop := b = c

/-- A reference to an array with the given elements. -/
def Holds (h : ArrayHeap α) (a : Ref) (xs : List α) : Prop := a < h.length ∧ h.read a = xs

theorem Holds.mono {h h' : ArrayHeap α} {a : Ref} {xs : List α} (hle : h <+: h')
    (ha : Holds h a xs) : Holds h' a xs :=
  ⟨Nat.lt_of_lt_of_le ha.1 hle.length_le, (h.read_mono hle ha.1).trans ha.2⟩

namespace Follows

variable {h : ArrayHeap α}

theorem same_iff {m : HeapM α ε β} {x : Except ε β} :
    Follows h Same m x ↔ h <+: (m h).2 ∧ (m h).1 = x :=
  and_congr_right fun _ => agree_eq_iff

theorem pure_same (b : β) : Follows (ε := ε) h Same (pure b) (.ok b) :=
  same_iff.mpr ⟨List.prefix_rfl, rfl⟩

theorem alloc_holds (xs : List α) : Follows (ε := ε) h Holds (alloc xs) (.ok xs) :=
  ⟨List.prefix_append h [xs], by
    rw [alloc, List.length_append]
    exact Nat.lt_succ_self _, h.read_append_length xs []⟩

theorem contents_same (a : Ref) : Follows (ε := ε) h Same (contents a) (.ok (h.read a)) :=
  same_iff.mpr ⟨List.prefix_rfl, rfl⟩

/-- An array made now can be turned around. -/
theorem alloc_reverse_holds (xs : List α) :
    Follows (ε := ε) h Holds (alloc xs >>= reverse) (.ok xs.reverse) := by
  have hrun : (alloc xs >>= reverse : HeapM α ε Ref) h
      = (.ok h.length, h ++ [xs.reverse]) := by
    rw [bind_apply]
    show (Except.ok h.length, (h ++ [xs]).modify h.length List.reverse) = _
    rw [List.modify_eq_take_drop, List.take_left, List.drop_left, List.modifyHead_cons]
  rw [Follows, hrun]
  exact alloc_holds xs.reverse

theorem lift_same (x : Except ε β) : Follows h Same (lift x) x :=
  same_iff.mpr ⟨List.prefix_rfl, rfl⟩

/-- **ONE STEP AFTER ANOTHER.** -/
theorem bind {rel : ArrayHeap α → β → γ → Prop} {rel' : ArrayHeap α → δ → ζ → Prop}
    {m : HeapM α ε β} {x : Except ε γ} {f : β → HeapM α ε δ} {g : γ → Except ε ζ}
    (hm : Follows h rel m x)
    (hf : ∀ h' b c, h <+: h' → rel h' b c → Follows h' rel' (f b) (g c)) :
    Follows h rel' (m >>= f) (x >>= g) := by
  obtain ⟨hle, hrel⟩ := hm
  rw [Follows, bind_apply]
  rcases hmh : m h with ⟨e | b, h'⟩
  · rw [hmh] at hle hrel
    rcases x with e' | c
    · exact ⟨hle, hrel⟩
    · exact hrel.elim
  · rw [hmh] at hle hrel
    rcases x with e' | c
    · exact hrel.elim
    · obtain ⟨hle', hrel'⟩ := hf h' b c hle hrel
      exact ⟨hle.trans hle', hrel'⟩

/-- A step that does not throw. -/
theorem bind_ok {rel : ArrayHeap α → β → γ → Prop} {rel' : ArrayHeap α → δ → ζ → Prop}
    {m : HeapM α ε β} {c : γ} {f : β → HeapM α ε δ} {y : Except ε ζ}
    (hm : Follows h rel m (.ok c))
    (hf : ∀ h' b, h <+: h' → rel h' b c → Follows h' rel' (f b) y) :
    Follows h rel' (m >>= f) y := by
  obtain ⟨hle, hrel⟩ := hm
  rw [Follows, bind_apply]
  rcases hmh : m h with ⟨e | b, h'⟩
  · rw [hmh] at hrel
    exact hrel.elim
  · rw [hmh] at hle hrel
    obtain ⟨hle', hrel'⟩ := hf h' b hle hrel
    exact ⟨hle.trans hle', hrel'⟩

/-- **ONE AFTER ANOTHER, ALONG A LIST.** -/
theorem mapM {xs : List γ} {m : γ → HeapM α ε β} {g : γ → Except ε β}
    (hm : ∀ x ∈ xs, ∀ h', h <+: h' → Follows h' Same (m x) (g x)) :
    Follows h Same (xs.mapM m) (xs.mapM g) := by
  induction xs generalizing h with
  | nil => exact pure_same []
  | cons x xs ih =>
      rw [List.mapM_cons, List.mapM_cons]
      refine bind (hm x List.mem_cons_self h List.prefix_rfl) ?_
      rintro h' y _ hle rfl
      refine bind (ih fun x' hx' h'' hle' =>
        hm x' (List.mem_cons_of_mem x hx') h'' (hle.trans hle')) ?_
      rintro h'' ys _ _ rfl
      exact pure_same (y :: ys)

theorem mapM_ok {xs : List γ} {m : γ → HeapM α ε β} {g : γ → β}
    (hm : ∀ x ∈ xs, ∀ h', h <+: h' → Follows h' Same (m x) (.ok (g x))) :
    Follows h Same (xs.mapM m) (.ok (xs.map g)) := by
  have hall : Follows h Same (xs.mapM m) (xs.mapM fun x => (pure (g x) : Except ε β)) :=
    mapM hm
  rwa [List.mapM_pure] at hall

/-- The arrays that were there are as they were. -/
theorem read_eq {rel : ArrayHeap α → β → γ → Prop} {m : HeapM α ε β} {x : Except ε γ}
    (hm : Follows h rel m x) {a : Ref} (ha : a < h.length) : (m h).2.read a = h.read a :=
  ArrayHeap.read_mono hm.1 ha

end Follows

/-! ## Computations that leave the arrays alone -/

/-- The arrays are left as they were, and a second time gives the same. -/
structure Undisturbed (m : HeapM α ε β) (h : ArrayHeap α) : Prop where
  unchanged : ∀ a < h.length, ArrayHeap.read (m h).2 a = h.read a
  again : (m (m h).2).1 = (m h).1

/-- **WHAT FOLLOWS A COMPUTATION WITHOUT ARRAYS LEAVES THEM ALONE**, if it is the same
    computation on any heap with these arrays. -/
theorem Undisturbed.of_follows {m : HeapM α ε β} {x : Except ε β} {h : ArrayHeap α}
    (hm : ∀ h', h <+: h' → Follows h' Same m x) : Undisturbed m h where
  unchanged _ ha := (hm h List.prefix_rfl).read_eq ha
  again := by
    have hfirst := Follows.same_iff.mp (hm h List.prefix_rfl)
    have hsecond := Follows.same_iff.mp (hm _ hfirst.1)
    rw [hsecond.2, hfirst.2]

end HeapM

/-! ## Turning arrays around before reading them

    An array listed twice is turned back, so the order of reading matters. -/

section Turning

variable {α β : Type}

/-- What is in the arrays when those of the list have been turned, one after another. -/
def turnAll (read : Ref → List α) : List Ref → Ref → List α
  | [] => read
  | a :: as => turnAll (Function.update read a (read a).reverse) as

/-- What is read, by `f`, each time an array has been turned. -/
def readTurning (f : List α → β) (read : Ref → List α) : List Ref → List β
  | [] => []
  | a :: as =>
    f (read a).reverse :: readTurning f (Function.update read a (read a).reverse) as

theorem turnAll_apply (read : Ref → List α) (as : List Ref) (a : Ref) :
    turnAll read as a = if Even (as.count a) then read a else (read a).reverse := by
  induction as generalizing read with
  | nil => simp [turnAll]
  | cons b as ih =>
      rw [turnAll, ih]
      by_cases hab : b = a
      · subst hab
        rw [Function.update_self, List.count_cons_self, List.reverse_reverse]
        by_cases heven : Even (as.count b) <;> simp [heven, Nat.even_add_one]
      · rw [Function.update_of_ne (Ne.symm hab), List.count_cons_of_ne hab]

/-- An array is turned unless it is listed an even number of times or reads the same
    both ways. -/
theorem turnAll_eq_iff (read : Ref → List α) (as : List Ref) (a : Ref) :
    turnAll read as a = read a ↔
      Even (as.count a) ∨ (read a).reverse = read a := by
  rw [turnAll_apply]
  by_cases heven : Even (as.count a) <;> simp [heven]

theorem readTurning_congr {f : List α → β} {read read' : Ref → List α} {as : List Ref}
    (h : ∀ a ∈ as, read a = read' a) : readTurning f read as = readTurning f read' as := by
  induction as generalizing read read' with
  | nil => rfl
  | cons a as ih =>
      rw [readTurning, readTurning, h a List.mem_cons_self]
      refine congrArg _ (ih ?_)
      intro b hb
      by_cases hab : b = a
      · subst hab
        rw [Function.update_self, Function.update_self]
      · rw [Function.update_of_ne hab, Function.update_of_ne hab,
          h b (List.mem_cons_of_mem a hb)]

/-- The first time an array is read, it has been turned once. -/
theorem first_reading {f : List α → β} {read read' : Ref → List α} {as : List Ref}
    (h : readTurning f read as = readTurning f read' as) :
    ∀ a ∈ as, f (read a).reverse = f (read' a).reverse := by
  induction as generalizing read read' with
  | nil =>
      intro a ha
      exact absurd ha List.not_mem_nil
  | cons b as ih =>
      intro a ha
      obtain ⟨hhead, htail⟩ := List.cons.inj h
      by_cases hab : a = b
      · rw [hab]
        exact hhead
      · have hmem := (List.mem_cons.mp ha).resolve_left hab
        have hlater := ih htail a hmem
        rwa [Function.update_of_ne hab, Function.update_of_ne hab] at hlater

/-- **READING TWICE.**  The second reading is the first one just if every array of the
    list is back as it was. -/
theorem readTurning_again_iff {f : List α → β}
    (hf : ∀ xs, f xs = f xs.reverse → xs.reverse = xs) (read : Ref → List α)
    (as : List Ref) :
    readTurning f (turnAll read as) as = readTurning f read as ↔
      ∀ a ∈ as, Even (as.count a) ∨ (read a).reverse = read a := by
  constructor
  · intro h a ha
    have hfirst := first_reading h a ha
    rw [turnAll_apply] at hfirst
    by_cases heven : Even (as.count a)
    · exact Or.inl heven
    · rw [if_neg heven, List.reverse_reverse] at hfirst
      exact Or.inr (hf _ hfirst)
  · intro h
    refine readTurning_congr ?_
    intro a ha
    exact (turnAll_eq_iff read as a).mpr (h a ha)

end Turning

end Albus.Lib
