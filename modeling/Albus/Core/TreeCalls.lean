import Albus.Core.ClaimEncoding
import Albus.Core.SmtCalls

/-! # Calls of the claims tree

    A name is pushed to the list of names before the tree below accepts its key.  The
    names are never taken back: after a failed `add` every later name gets a key that
    is one higher (`not_failsCleanly_add`).  `update` of a name without a key asks for
    the bits of −1, and of a name whose claim was deleted it succeeds; `delete` throws
    on both.

    The state that all this is said of is `Held`: the tree below reflects a trie whose
    keys are positions of names. -/

namespace Albus.Core

open Albus.Lib

inductive TreeCall where
  | add (key text : String)
  | update (key text : String)
  | delete (key : String)
  | get (key : String)
  | root
  deriving DecidableEq

inductive TreeResponse where
  | added
  | updated (res : UpdateSmtResponse)
  | deleted (res : DeleteFromSmtResponse)
  | proof (res : ClaimProof)
  | root (root : ℕ)

inductive CallError where
  | tree (e : TreeError)
  /-- `Invalid array length`. -/
  | rangeError

/-- The most elements that an array has. -/
def maxKeys : ℕ := 2 ^ 32 - 1

namespace ClaimsTree

section Hash

variable (permute : List ℕ → ℕ)

/-- What a mutator of the tree below leaves. -/
def settle {ρ : Type} (tree : ClaimsTree) (response : ρ → TreeResponse) :
    Except SmtError (SMT × ρ) → Except CallError TreeResponse × ClaimsTree
  | .ok (smt, res) => (.ok (response res), { tree with smt := smt })
  | .error e => (.error (.tree (.smt e)), tree)

/-- `this.keys.push(key)` -/
def push (tree : ClaimsTree) (key : String) : ClaimsTree :=
  { tree with keys := tree.keys ++ [key] }

def call (tree : ClaimsTree) : TreeCall → Except CallError TreeResponse × ClaimsTree
  | .add key text =>
    if tree.keys.length < maxKeys then
      let tree := tree.push key
      match encodeValue permute text with
      | .error e => (.error (.tree e), tree)
      | .ok value => tree.settle (fun _ => .added)
          (SMT.addAny permute tree.smt (tree.encodeKey key) value)
    else (.error .rangeError, tree)
  | .update key text =>
    match encodeValue permute text with
    | .error e => (.error (.tree e), tree)
    | .ok value => tree.settle .updated
        (SMT.updateAny permute tree.smt (tree.encodeKey key) value)
  | .delete key => tree.settle .deleted
      (SMT.deleteAny permute tree.smt (tree.encodeKey key))
  | .get key =>
    match tree.get key with
    | .ok res => (.ok (.proof res), tree)
    | .error e => (.error (.tree e), tree)
  | .root => (.ok (.root tree.root), tree)

def machine : Machine ClaimsTree TreeCall CallError TreeResponse where
  call := call permute
  hangs
    | .tree e => e = .smt .diverges
    | .rangeError => false

/-- The inputs of the hashes of the nodes made by a call. -/
def callHashed (tree : ClaimsTree) : TreeCall → List (List ℕ)
  | .add key text =>
    match encodeValue permute text with
    | .ok value => SMT.hashed permute tree.smt
        (.add ((tree.push key).encodeKey key).toNat value)
    | .error _ => []
  | .update key text =>
    match encodeValue permute text with
    | .ok value =>
      if key ∈ tree.keys then
        SMT.hashed permute tree.smt (.update (tree.encodeKey key).toNat value)
      else []
    | .error _ => []
  | .delete key =>
    if key ∈ tree.keys then
      SMT.hashed permute tree.smt (.delete (tree.encodeKey key).toNat)
    else []
  | _ => []

end Hash

/-! ## Invalid calls -/

def Present (tree : ClaimsTree) (name : String) : Prop :=
  ∃ proof, tree.get name = .ok proof ∧ proof.found = true

def Absent (tree : ClaimsTree) (name : String) : Prop :=
  ∃ proof, tree.get name = .ok proof ∧ proof.found = false

/-- A name is added that is there, or updated or deleted when it is not. -/
def Invalid (tree : ClaimsTree) : TreeCall → Prop
  | .add key _ => tree.Present key
  | .update key _ => tree.Absent key
  | .delete key => tree.Absent key
  | _ => False

/-- The call does nothing before it throws: the array of names is full, or the text
    has no value, or the call is a deletion. -/
def Harmless (tree : ClaimsTree) : TreeCall → Prop
  | .add _ _ => tree.keys.length = maxKeys
  | .update _ text => text = ""
  | _ => True

/-- A name that has a position and no claim is updated with nothing but the empty text. -/
def NoBlindUpdate (tree : ClaimsTree) (c : TreeCall) : Prop :=
  ∀ key text, c = .update key text → key ∈ tree.keys → tree.Absent key → text = ""

section Calls

variable {permute : List ℕ → ℕ} {inputs : List (List ℕ)} {tree : ClaimsTree} {t : Tree}

/-! ## Keys -/

theorem encodeKey_of_mem {name : String} (h : name ∈ tree.keys) :
    tree.encodeKey name = (tree.keys.idxOf name : ℕ) :=
  if_pos h

theorem encodeKey_of_not_mem {name : String} (h : name ∉ tree.keys) :
    tree.encodeKey name = -1 :=
  if_neg h

theorem mem_push (tree : ClaimsTree) (name : String) : name ∈ (tree.push name).keys :=
  List.mem_append_right _ List.mem_cons_self

/-- A new name gets the next position. -/
theorem encodeKey_push_new {name : String} (h : name ∉ tree.keys) :
    (tree.push name).encodeKey name = tree.keys.length := by
  rw [encodeKey_of_mem (mem_push tree name)]
  show ((tree.keys ++ [name]).idxOf name : ℤ) = _
  rw [List.idxOf_append_of_notMem h, List.idxOf_cons_self, Nat.add_zero]

/-- An old one keeps its position. -/
theorem encodeKey_push_old {name : String} (h : name ∈ tree.keys) :
    (tree.push name).encodeKey name = tree.encodeKey name := by
  rw [encodeKey_of_mem (mem_push tree name), encodeKey_of_mem h]
  show ((tree.keys ++ [name]).idxOf name : ℤ) = _
  rw [List.idxOf_append_of_mem h]

/-- The key that a pushed name has. -/
theorem exists_encodeKey_push (tree : ClaimsTree) (name : String) :
    ∃ k : ℕ, (tree.push name).encodeKey name = k ∧ k < (tree.push name).keys.length :=
  ⟨_, encodeKey_of_mem (mem_push tree name), List.idxOf_lt_length_of_mem (mem_push tree name)⟩

/-- The call is `add`, as long as there is room for the name. -/
theorem call_add_eq_ok_iff {tree' : ClaimsTree} {key text : String}
    (h : tree.keys.length < maxKeys) :
    call permute tree (.add key text) = (.ok .added, tree') ↔
      add permute tree key text = .ok tree' := by
  obtain ⟨k, hk, -⟩ := exists_encodeKey_push tree key
  rw [call, if_pos h, add]
  cases encodeValue permute text with
  | error e => simp
  | ok value =>
      simp only [push] at hk ⊢
      simp only [hk, Int.toNat_natCast]
      show settle _ _ (SMT.add permute tree.smt k value) = _ ↔ _
      cases SMT.add permute tree.smt k value with
      | error e => simp [settle]
      | ok out => simp [settle]

/-! ## The invariant -/

/-- The tree below reflects `t`, and its keys are positions of names. -/
structure Held (permute : List ℕ → ℕ) (inputs : List (List ℕ)) (tree : ClaimsTree)
    (t : Tree) : Prop where
  reflects : Reflects permute inputs tree.smt t
  below : ∀ k v, Trie.Mem k v t → k < tree.keys.length
  length : tree.keys.length ≤ maxKeys

theorem held_new (depth : Option ℕ) : Held permute inputs (new depth) .empty where
  reflects := SMT.new_reflects
  below _ _ hm := hm.elim
  length := Nat.zero_le _

theorem Held.push (h : Held permute inputs tree t) (hroom : tree.keys.length < maxKeys)
    (name : String) : Held permute inputs (tree.push name) t := by
  have hlen : (tree.push name).keys.length = tree.keys.length + 1 :=
    List.length_append
  refine ⟨h.reflects, ?_, ?_⟩
  · intro k v hm
    rw [hlen]
    exact Nat.lt_succ_of_lt (h.below k v hm)
  · rw [hlen]
    exact hroom

/-- Positions are field elements, and −1 is read as a larger one. -/
theorem lt_neg_one {k : ℕ} (h : k ≤ maxKeys) : k < F1Field.e (-1) :=
  Nat.lt_of_le_of_lt h (by decide)

theorem position_lt {k : ℕ} (h : k ≤ maxKeys) : k < bn254r :=
  Nat.lt_of_le_of_lt h (by decide)

theorem e_position {k : ℕ} (h : k ≤ maxKeys) : F1Field.e (k : ℤ) = k :=
  F1Field.e_of_lt (position_lt h)

theorem absent_iff {name : String} :
    tree.Absent name ↔ tree.smt.Absent (tree.encodeKey name) := by
  rw [Absent, SMT.Absent, get]
  cases tree.smt.get (tree.encodeKey name) with
  | error e => simp
  | ok res => simp

section Held

variable (h : Held permute inputs tree t) (hcf : CollisionFree permute inputs)
include h hcf

/-- Reading a name says whether it is present. -/
theorem Held.absent_or_mem (name : String) :
    tree.Absent name ∨ name ∈ tree.keys ∧ ∃ v, Trie.Mem (tree.keys.idxOf name) v t := by
  by_cases hname : name ∈ tree.keys
  · have hlt := List.idxOf_lt_length_of_mem hname
    have he := e_position (Nat.le_of_lt (Nat.lt_of_lt_of_le hlt h.length))
    by_cases hm : ∃ v, Trie.Mem (tree.keys.idxOf name) v t
    · exact Or.inr ⟨hname, hm⟩
    · refine Or.inl (absent_iff.mpr ?_)
      rw [encodeKey_of_mem hname]
      refine h.reflects.get_of_not_mem hcf ?_
      rw [he]
      exact fun v hv => hm ⟨v, hv⟩
  · refine Or.inl (absent_iff.mpr ?_)
    rw [encodeKey_of_not_mem hname]
    refine h.reflects.get_of_not_mem hcf ?_
    intro v hv
    have hlt := Nat.lt_of_lt_of_le (h.below _ v hv) h.length
    exact Nat.lt_irrefl _ (lt_neg_one (Nat.le_of_lt hlt))

/-- A position with a claim is not free. -/
theorem Held.add_taken {k v : ℕ} (hk : k ≤ maxKeys) (hm : Trie.Mem k v t) (value : ℕ) :
    SMT.add permute tree.smt k value = .error (.error "Key already exists") := by
  have hm' : Trie.Mem (F1Field.e (k : ℤ)) v t := by
    rw [e_position hk]
    exact hm
  obtain ⟨res, hget, hfound, -⟩ := h.reflects.get_of_mem hcf hm'
  exact add_of_found hget hfound

theorem Held.call_add {key text : String}
    (hin : ∀ x ∈ callHashed permute tree (.add key text), x ∈ inputs) :
    ∃ t', Held permute inputs (call permute tree (.add key text)).2 t' := by
  rw [call]
  by_cases hroom : tree.keys.length < maxKeys
  swap
  · rw [if_neg hroom]
    exact ⟨t, h⟩
  rw [if_pos hroom]
  have hpush := h.push hroom key
  rw [callHashed] at hin
  cases henc : encodeValue permute text with
  | error e => exact ⟨t, hpush⟩
  | ok value =>
      obtain ⟨k, hk, hlt⟩ := exists_encodeKey_push tree key
      have hkr := Nat.le_of_lt (Nat.lt_of_lt_of_le hlt hpush.length)
      simp only [henc, hk, Int.toNat_natCast] at hin
      show ∃ t', Held permute inputs (settle (tree.push key) _
        (SMT.addAny permute tree.smt ((tree.push key).encodeKey key) value)).2 t'
      rw [hk]
      show ∃ t', Held permute inputs (settle (tree.push key) _
        (SMT.add permute tree.smt k value)).2 t'
      by_cases hm : ∃ v, Trie.Mem k v t
      · obtain ⟨v, hv⟩ := hm
        rw [h.add_taken hcf hkr hv value]
        exact ⟨t, hpush⟩
      · have hfree : ∀ v, ¬ Trie.Mem k v t := fun v hv => hm ⟨v, hv⟩
        obtain ⟨plan, hplan, hdone⟩ := h.reflects.add hcf (position_lt hkr) hfree value
        rw [SMT.hashed, hplan] at hin
        obtain ⟨smt', t', hadd, hafter, hmem⟩ := hdone hin
        rw [hadd]
        refine ⟨t', hafter, ?_, hpush.length⟩
        intro k' v' hm'
        rcases (hmem k' v').mp hm' with ⟨rfl, -⟩ | hold
        · exact hlt
        · exact hpush.below k' v' hold

theorem Held.call_update {key text : String}
    (hguard : tree.NoBlindUpdate (.update key text))
    (hin : ∀ x ∈ callHashed permute tree (.update key text), x ∈ inputs) :
    ∃ t', Held permute inputs (call permute tree (.update key text)).2 t' := by
  rw [call]
  rw [callHashed] at hin
  cases henc : encodeValue permute text with
  | error e => exact ⟨t, h⟩
  | ok value =>
      have hne : text ≠ "" := (exists_encodeValue_iff permute text).mp ⟨value, henc⟩
      rcases h.absent_or_mem hcf key with habsent | ⟨hkey, v, hv⟩
      · by_cases hkey : key ∈ tree.keys
        · exact absurd (hguard key text rfl hkey habsent) hne
        · -- a name without a position: the call hangs, and nothing has changed
          obtain ⟨res, hget, -⟩ := absent_iff.mp habsent
          rw [encodeKey_of_not_mem hkey] at hget
          show ∃ t', Held permute inputs (settle tree _
            (SMT.updateAny permute tree.smt (tree.encodeKey key) value)).2 t'
          rw [encodeKey_of_not_mem hkey]
          show ∃ t', Held permute inputs (settle tree _
            (SMT.updateAny permute tree.smt (.negSucc 0) value)).2 t'
          rw [SMT.updateAny_negSucc hget]
          exact ⟨t, h⟩
      simp only [henc, if_pos hkey, encodeKey_of_mem hkey, Int.toNat_natCast] at hin
      show ∃ t', Held permute inputs (settle tree _
        (SMT.updateAny permute tree.smt (tree.encodeKey key) value)).2 t'
      rw [encodeKey_of_mem hkey]
      show ∃ t', Held permute inputs (settle tree _
        (SMT.update permute tree.smt (tree.keys.idxOf key) value)).2 t'
      obtain ⟨plan, hplan, hdone⟩ := h.reflects.update hcf hv value
      rw [SMT.hashed, hplan] at hin
      obtain ⟨smt', t', hupdate, hafter, hmem⟩ := hdone hin
      rw [hupdate]
      refine ⟨t', hafter, ?_, h.length⟩
      intro k' v' hm'
      rcases (hmem k' v').mp hm' with ⟨rfl, -⟩ | ⟨-, hold⟩
      · exact h.below _ v hv
      · exact h.below k' v' hold

theorem Held.call_delete {key : String}
    (hin : ∀ x ∈ callHashed permute tree (.delete key), x ∈ inputs) :
    ∃ t', Held permute inputs (call permute tree (.delete key)).2 t' := by
  rw [call]
  rcases h.absent_or_mem hcf key with habsent | ⟨hkey, v, hv⟩
  · rw [SMT.deleteAny_absent (absent_iff.mp habsent)]
    exact ⟨t, h⟩
  rw [callHashed, if_pos hkey, encodeKey_of_mem hkey, Int.toNat_natCast] at hin
  rw [encodeKey_of_mem hkey]
  show ∃ t', Held permute inputs (settle tree _
    (SMT.delete permute tree.smt (tree.keys.idxOf key))).2 t'
  obtain ⟨plan, hplan, hdone⟩ := h.reflects.delete hcf hv
  rw [SMT.hashed, hplan] at hin
  obtain ⟨smt', t', hdelete, hafter, hmem⟩ := hdone hin
  rw [hdelete]
  exact ⟨t', hafter, fun k' v' hm' => h.below k' v' ((hmem k' v').mp hm').2, h.length⟩

/-- **ONE CALL** keeps the invariant, whether it fails or not. -/
theorem Held.step {c : TreeCall} (hguard : tree.NoBlindUpdate c)
    (hin : ∀ x ∈ callHashed permute tree c, x ∈ inputs) :
    ∃ t', Held permute inputs ((machine permute).after tree c) t' := by
  show ∃ t', Held permute inputs (ClaimsTree.call permute tree c).2 t'
  cases c with
  | add key text => exact h.call_add hcf hin
  | update key text => exact h.call_update hcf hguard hin
  | delete key => exact h.call_delete hcf hin
  | root => exact ⟨t, h⟩
  | get key =>
      rw [ClaimsTree.call]
      cases tree.get key with
      | error e => exact ⟨t, h⟩
      | ok res => exact ⟨t, h⟩

end Held

/-- **A RUN.** -/
theorem held_run {depth : Option ℕ} {calls : List TreeCall}
    (hadm : (machine permute).Admits NoBlindUpdate (new depth) calls)
    (hcf : CollisionFree permute
      ((machine permute).collect (callHashed permute) (new depth) calls)) :
    ∃ t, Held permute ((machine permute).collect (callHashed permute) (new depth) calls)
      ((machine permute).run (new depth) calls) t := by
  refine hadm.run_invariant (f := callHashed permute)
    (P := fun tree => ∃ t, Held permute _ tree t) ?_ ⟨_, held_new depth⟩ fun _ hx => hx
  rintro tree c ⟨t, h⟩ hguard hin
  exact h.step hcf hguard hin

/-! ## Failing cleanly -/

theorem exists_not_mem_keys (keys : List String) : ∃ name, name ∉ keys := by
  have hinf : Infinite String := Infinite.of_injective String.ofList
    fun _ _ heq => String.ofList_injective heq
  obtain ⟨name, hname⟩ := Infinite.exists_notMem_finset keys.toFinset
  exact ⟨name, fun hmem => hname (List.mem_toFinset.mpr hmem)⟩

/-- `encodeValue('')` throws. -/
theorem encodeValue_empty (permute : List ℕ → ℕ) :
    ∃ e, encodeValue permute "" = .error e ∧ e ≠ .smt .diverges := by
  rw [encodeValue_short permute isShort_empty]
  exact ⟨.syntaxError, rfl, nofun⟩

/-- Adding a name with the empty text leaves the name. -/
theorem exists_call_add_empty (permute : List ℕ → ℕ) :
    ∃ e, (machine permute).hangs (.tree e) = false ∧
      ∀ (tree : ClaimsTree) (name : String), tree.keys.length < maxKeys →
        call permute tree (.add name "") = (.error (.tree e), tree.push name) := by
  obtain ⟨e, henc, hne⟩ := encodeValue_empty permute
  refine ⟨e, decide_eq_false hne, ?_⟩
  intro tree name hroom
  rw [call, if_pos hroom]
  simp only [henc]

/-- The key of a name that was added last is read off the answer to an update. -/
theorem call_update_pushed (permute : List ℕ → ℕ) {name : String} (hname : name ∉ tree.keys)
    (hget : ∀ key, ∃ res, tree.smt.get key = .ok res) :
    ∃ res, (call permute (tree.push name) (.update name "0")).1 = .ok (.updated res) ∧
      res.newKey = tree.keys.length := by
  obtain ⟨value, henc⟩ := (exists_encodeValue_iff permute "0").mpr (by decide)
  obtain ⟨found, hfound⟩ := hget tree.keys.length
  obtain ⟨smt', res, hupdate, hkey⟩ :=
    SMT.exists_update permute value hfound
  refine ⟨res, ?_, hkey⟩
  rw [call]
  simp only [henc, encodeKey_push_new hname]
  show (settle (tree.push name) _ (SMT.update permute tree.smt _ value)).1 = _
  rw [hupdate]
  rfl

section Failing

variable (h : Held permute inputs tree t) (hcf : CollisionFree permute inputs)
include h hcf

/-- Adding a name that is there throws, and keeps the name a second time. -/
theorem Held.call_add_present {key : String} (hpresent : tree.Present key) (text : String)
    (hroom : tree.keys.length < maxKeys) :
    key ∈ tree.keys ∧ ∃ e, (machine permute).hangs e = false ∧
      call permute tree (.add key text) = (.error e, tree.push key) := by
  obtain ⟨proof, hproof, hfound⟩ := hpresent
  rcases h.absent_or_mem hcf key with ⟨proof', hproof', hfound'⟩ | ⟨hkey, v, hv⟩
  · rw [hproof] at hproof'
    obtain rfl := Except.ok.inj hproof'
    exact absurd (hfound'.symm.trans hfound) Bool.false_ne_true
  refine ⟨hkey, ?_⟩
  rw [call, if_pos hroom]
  cases henc : encodeValue permute text with
  | error e =>
      refine ⟨.tree e, decide_eq_false ?_, rfl⟩
      rintro rfl
      -- a text is encoded, or it is empty
      have hempty : text = "" := by
        by_contra hne
        obtain ⟨v', hv'⟩ := (exists_encodeValue_iff permute text).mpr hne
        rw [henc] at hv'
        exact nomatch hv'
      obtain ⟨e', henc', hne'⟩ := encodeValue_empty permute
      rw [hempty, henc'] at henc
      exact hne' (Except.error.inj henc)
  | ok value =>
      refine ⟨.tree (.smt (.error "Key already exists")), rfl, ?_⟩
      have hlt := Nat.lt_of_lt_of_le (List.idxOf_lt_length_of_mem hkey) h.length
      have hadd := h.add_taken hcf (Nat.le_of_lt hlt) hv value
      show settle (tree.push key) _
        (SMT.addAny permute tree.smt ((tree.push key).encodeKey key) value) = _
      rw [encodeKey_push_old hkey, encodeKey_of_mem hkey]
      show settle (tree.push key) _ (SMT.add permute tree.smt (tree.keys.idxOf key) value) = _
      rw [hadd]
      rfl

/-- **ADDING A NAME TWICE SHIFTS THE KEYS OF ALL LATER NAMES.** -/
theorem Held.not_failsCleanly_add {key : String} (hpresent : tree.Present key)
    (text : String) (hroom : tree.keys.length < maxKeys) :
    ¬ (machine permute).FailsCleanly tree (.add key text) := by
  obtain ⟨hkey, e, -, hcall⟩ := h.call_add_present hcf hpresent text hroom
  rintro ⟨e', tree', hcall', -, halike⟩
  obtain rfl := (Prod.mk.inj (hcall.symm.trans hcall')).2
  -- a new name, added with a text that has no value
  obtain ⟨name, hname⟩ := exists_not_mem_keys (tree.push key).keys
  have hname' : name ∉ tree.keys := fun hmem => hname (List.mem_append_left _ hmem)
  have hlen : (tree.push key).keys.length = tree.keys.length + 1 := List.length_append
  obtain ⟨e₀, hend, hempty⟩ := exists_call_add_empty permute
  by_cases hfull : (tree.push key).keys.length < maxKeys
  · have hadd' : (machine permute).call (tree.push key) (.add name "")
        = (.error (.tree e₀), (tree.push key).push name) := hempty _ name hfull
    have hadd : (machine permute).call tree (.add name "")
        = (.error (.tree e₀), tree.push name) := hempty _ name hroom
    have hlater := halike.after_error hadd' hadd hend
    have hanswer := hlater.answer (.update name "0")
    have hget : ∀ key, ∃ res, tree.smt.get key = .ok res :=
      fun key => ⟨_, h.reflects.get_eq hcf key⟩
    obtain ⟨res, hres, hnew⟩ := call_update_pushed permute hname hget
    obtain ⟨res', hres', hnew'⟩ := call_update_pushed permute hname' hget
    have hsame : (Except.ok (.updated res) : Except CallError TreeResponse)
        = .ok (.updated res') := hres.symm.trans (hanswer.trans hres')
    obtain rfl := TreeResponse.updated.inj (Except.ok.inj hsame)
    omega
  · -- there was room for it, and there is none left
    have hanswer := halike.answer (.add name "")
    have hno : call permute (tree.push key) (.add name "")
        = (.error .rangeError, tree.push key) := if_neg hfull
    have hsame : (Except.error .rangeError : Except CallError TreeResponse)
        = .error (.tree e₀) :=
      (congrArg Prod.fst hno).symm.trans
        (hanswer.trans (congrArg Prod.fst (hempty tree name hroom)))
    exact nomatch Except.error.inj hsame

/-- **WHICH INVALID CALLS FAIL CLEANLY.** -/
theorem Held.failsCleanly_iff {c : TreeCall} (hinvalid : tree.Invalid c) :
    (machine permute).FailsCleanly tree c ↔ tree.Harmless c := by
  cases c with
  | get key => exact hinvalid.elim
  | root => exact hinvalid.elim
  | delete key =>
      refine iff_of_true ?_ trivial
      refine Machine.failsCleanly_of_unchanged
        (e := .tree (.smt (.error "Key does not exists"))) ?_ rfl
      show settle tree _ (SMT.deleteAny permute tree.smt (tree.encodeKey key)) = _
      rw [SMT.deleteAny_absent (absent_iff.mp hinvalid)]
      rfl
  | add key text =>
      by_cases hroom : tree.keys.length < maxKeys
      · refine iff_of_false (h.not_failsCleanly_add hcf hinvalid text hroom) ?_
        intro (hfull : tree.keys.length = maxKeys)
        omega
      · have hlen := h.length
        refine iff_of_true ?_ (by show tree.keys.length = maxKeys; omega)
        exact Machine.failsCleanly_of_unchanged (e := .rangeError) (if_neg hroom) rfl
  | update key text =>
      by_cases htext : text = ""
      · subst htext
        obtain ⟨e, henc, hne⟩ := encodeValue_empty permute
        refine iff_of_true ?_ rfl
        refine Machine.failsCleanly_of_unchanged (e := .tree e) ?_ (decide_eq_false hne)
        show call permute tree (.update key "") = _
        rw [call, henc]
      · refine iff_of_false ?_ htext
        obtain ⟨value, henc⟩ := (exists_encodeValue_iff permute text).mpr htext
        obtain ⟨res, hget, -⟩ := absent_iff.mp hinvalid
        by_cases hkey : key ∈ tree.keys
        · -- its claim was deleted: the update writes a leaf that no search finds
          rw [encodeKey_of_mem hkey] at hget
          obtain ⟨smt', res', hupdate, -⟩ :=
            SMT.exists_update permute value hget
          have hcall : call permute tree (.update key text)
              = (.ok (.updated res'), { tree with smt := smt' }) := by
            rw [call]
            simp only [henc, encodeKey_of_mem hkey]
            show settle tree _ (SMT.update permute tree.smt _ value) = _
            rw [hupdate]
            rfl
          exact Machine.not_failsCleanly_of_ok hcall
        · -- it never had a key: the bits of −1 do not end
          rw [encodeKey_of_not_mem hkey] at hget
          have hcall : call permute tree (.update key text)
              = (.error (.tree (.smt .diverges)), tree) := by
            rw [call]
            simp only [henc, encodeKey_of_not_mem hkey]
            show settle tree _ (SMT.updateAny permute tree.smt (.negSucc 0) value) = _
            rw [SMT.updateAny_negSucc hget]
            rfl
          exact Machine.not_failsCleanly_of_hangs hcall rfl

end Failing

/-- **WHICH INVALID CALLS FAIL CLEANLY, ON EVERY RUN.**  Of the tree below the
    deletions do and the additions of a key with bits, in any state.  Of the claims tree,
    after any run without a blind update, the deletions do, the updates with the empty
    text, and the additions that the full array of names refuses. -/
theorem invalid_calls_fail_cleanly_iff (permute : List ℕ → ℕ) :
    (∀ (smt : SMT) (c : SmtCall), smt.Invalid c →
      ((SMT.machine permute).FailsCleanly smt c ↔
        (∃ key, c = .delete key) ∨ ∃ (key : ℕ) (value : ℕ), c = .add key value)) ∧
    ∀ (depth : Option ℕ) (calls : List TreeCall),
      (machine permute).Admits NoBlindUpdate (new depth) calls →
      CollisionFree permute
        ((machine permute).collect (callHashed permute) (new depth) calls) →
      ∀ c, ((machine permute).run (new depth) calls).Invalid c →
        ((machine permute).FailsCleanly ((machine permute).run (new depth) calls) c ↔
          ((machine permute).run (new depth) calls).Harmless c) := by
  refine ⟨fun _ _ hinvalid => SMT.invalid_failsCleanly_iff hinvalid, ?_⟩
  intro depth calls hadm hcf c hinvalid
  obtain ⟨t, h⟩ := held_run hadm hcf
  exact h.failsCleanly_iff hcf hinvalid

end Calls

/-! ## A country, added twice -/

namespace CallSample

def leaf0 : ℕ :=
  2709359244979210413698600789033710096385770393064541159566499027518547381688

def leaf1 : ℕ :=
  9851118252635379893693625583107430935824868926680220934794891618118232298042

def leaf2 : ℕ :=
  5160528386536230424779047076971812559128844461881379948197765603008189259229

def fork : ℕ :=
  12584102743077896519615185756748546326596944019386981651245073713612320533778

/-- Poseidon on the nodes of the trees below. -/
def table : List (List ℕ × ℕ) :=
  [([0, 21843, 1], leaf0), ([1, 17477, 1], leaf1), ([2, 17477, 1], leaf2),
    ([leaf0, leaf1],
      8310907546393140324843632259076182558765258295550579994467368865906372196848),
    ([leaf0, leaf2], fork),
    ([fork, 0],
      18463888296676981547334735343171328584722176722419636816579650105234993258211),
    ([0, 17477, 1],
      17455424610718752531733468446600172887387582345610059189104744652104412383241),
    ([0, 0, 1],
      3108394280857290448796042949317662357879960495408018998613518544538624657019)]

def poseidon (inputs : List ℕ) : ℕ := (table.lookup inputs).getD 0

/-- One claim. -/
def calls : List TreeCall := [.add "country" "US"]

def tree : ClaimsTree := (machine poseidon).run (new none) calls

/-- Its claim is deleted, its name is not. -/
def emptied : ClaimsTree := (machine poseidon).after tree (.delete "country")

/-- The roots among some answers. -/
def roots (answers : List (Except CallError TreeResponse)) : List ℕ :=
  answers.filterMap fun
    | .ok (.root root) => some root
    | _ => none

theorem admits : (machine poseidon).Admits NoBlindUpdate (new none) calls :=
  ⟨fun _ _ hc => (nomatch hc), trivial⟩

theorem present : tree.Present "country" := by
  have hget : ((tree.get "country").toOption.map ClaimProof.found) = some true := by
    decide +kernel
  rw [Present]
  cases h : tree.get "country" with
  | error e =>
      rw [h] at hget
      exact nomatch hget
  | ok proof =>
      rw [h] at hget
      exact ⟨proof, rfl, Option.some.inj hget⟩

theorem absent : tree.Absent "citizenship" ∧ emptied.Absent "country" := by
  have hget : ((tree.get "citizenship").toOption.map ClaimProof.found) = some false ∧
      ((emptied.get "country").toOption.map ClaimProof.found) = some false := by
    decide +kernel
  have habsent : ∀ {tree : ClaimsTree} {name : String},
      (tree.get name).toOption.map ClaimProof.found = some false → tree.Absent name := by
    intro tree name hname
    rw [Absent]
    cases h : tree.get name with
    | error e =>
        rw [h] at hname
        exact nomatch hname
    | ok proof =>
        rw [h] at hname
        exact ⟨proof, rfl, Option.some.inj hname⟩
  exact ⟨habsent hget.1, habsent hget.2⟩

end CallSample

open CallSample in
/-- Deleting a name that was never added fails cleanly. -/
theorem invalid_calls_fail_cleanly_sample :
    (machine poseidon).FailsCleanly tree (.delete "citizenship") ↔
      tree.Harmless (.delete "citizenship") :=
  (invalid_calls_fail_cleanly_iff poseidon).2 none calls admits (by decide +kernel)
    (.delete "citizenship") absent.1

open CallSample in
/-- **THREE INVALID CALLS THAT DO NOT FAIL CLEANLY**: a claim is added again, and the
    next one gets another key; one that was deleted is updated, with success; and one
    that was never added is updated, without end. -/
theorem invalid_calls_do_not_fail_cleanly :
    (tree.Present "country" ∧
      ¬ (machine poseidon).FailsCleanly tree (.add "country" "US")) ∧
    (emptied.Absent "country" ∧
      ¬ (machine poseidon).FailsCleanly emptied (.update "country" "DE")) ∧
    (tree.Absent "citizenship" ∧
      ¬ (machine poseidon).FailsCleanly tree (.update "citizenship" "DE")) := by
  refine ⟨⟨present, ?_⟩, ⟨absent.2, ?_⟩, ⟨absent.1, ?_⟩⟩
  · rintro ⟨e, tree', hcall, -, halike⟩
    obtain rfl : (machine poseidon).after tree (.add "country" "US") = tree' :=
      congrArg Prod.snd hcall
    have hroots := congrArg roots (halike [.add "citizenship" "DE", .root])
    revert hroots
    decide +kernel
  · rintro ⟨e, tree', hcall, -, -⟩
    have hok : ((machine poseidon).call emptied (.update "country" "DE")).1.isOk = true := by
      decide +kernel
    rw [hcall] at hok
    exact nomatch hok
  · rintro ⟨e, tree', hcall, hend, -⟩
    have hhangs : (match ((machine poseidon).call tree (.update "citizenship" "DE")).1 with
        | .error e => (machine poseidon).hangs e
        | .ok _ => false) = true := by
      decide +kernel
    rw [hcall] at hhangs
    exact Bool.false_ne_true (hend.symm.trans hhangs)

end ClaimsTree

end Albus.Core
