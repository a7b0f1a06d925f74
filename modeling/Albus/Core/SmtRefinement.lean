import Albus.Core.SmtSteps

/-! # The sparse Merkle tree refines a finite map

    A run is a list of calls, each admissible for the map built so far: a key is
    added when it is absent, deleted or updated when it is present.  Every call of
    such a run succeeds, and its end reflects the map (`SMT.run_reflects`).  Since
    the trie of a map is unique, so is the root (`SMT.root_eq_of_map_eq`), whatever
    the order of the calls. -/

namespace Albus.Core

open Albus.Lib

/-! ## Calls and runs -/

/-- A call of a mutator. -/
inductive SmtOp where
  | add (key value : ℕ)
  | delete (key : ℕ)
  | update (key newValue : ℕ)
  deriving DecidableEq

/-- The inputs of the hashes of what a call inserts. -/
def planHashed {ρ : Type} : Except SmtError (Plan ρ) → List (List ℕ)
  | .ok plan => plan.hashed
  | .error _ => []

namespace SMT

variable (permute : List ℕ → ℕ)

def step (smt : SMT) : SmtOp → Except SmtError SMT
  | .add key value => (add permute smt key value).map Prod.fst
  | .delete key => (delete permute smt key).map Prod.fst
  | .update key newValue => (update permute smt key newValue).map Prod.fst

def hashed (smt : SMT) : SmtOp → List (List ℕ)
  | .add key value => planHashed (addPlan permute smt key value)
  | .delete key => planHashed (deletePlan permute smt key)
  | .update key newValue => planHashed (updatePlan permute smt key newValue)

def run : SMT → List SmtOp → Except SmtError SMT
  | smt, [] => .ok smt
  | smt, op :: ops =>
    match step permute smt op with
    | .ok smt' => run smt' ops
    | .error e => .error e

/-- The inputs of the hashes of all nodes inserted along a run. -/
def runHashed : SMT → List SmtOp → List (List ℕ)
  | _, [] => []
  | smt, op :: ops =>
    hashed permute smt op ++
      match step permute smt op with
      | .ok smt' => runHashed smt' ops
      | .error _ => []

end SMT

/-! ## The map -/

namespace SmtOp

def apply (m : ℕ → Option ℕ) : SmtOp → ℕ → Option ℕ
  | .add key value => Function.update m key (some value)
  | .delete key => Function.update m key none
  | .update key newValue => Function.update m key (some newValue)

/-- The map after a list of calls. -/
def applyAll (m : ℕ → Option ℕ) (ops : List SmtOp) : ℕ → Option ℕ := ops.foldl apply m

/-- Keys are added when absent, deleted and updated when present; keys and values
    are field elements. -/
def Pre (m : ℕ → Option ℕ) : SmtOp → Prop
  | .add key value => m key = none ∧ key < bn254r ∧ value < bn254r
  | .delete key => m key ≠ none
  | .update key newValue => m key ≠ none ∧ newValue < bn254r

def Admissible : (ℕ → Option ℕ) → List SmtOp → Prop
  | _, [] => True
  | m, op :: ops => Pre m op ∧ Admissible (apply m op) ops

instance (m : ℕ → Option ℕ) : ∀ op, Decidable (Pre m op)
  | .add _ _ => inferInstanceAs (Decidable (_ ∧ _ ∧ _))
  | .delete _ => inferInstanceAs (Decidable (_ ≠ _))
  | .update _ _ => inferInstanceAs (Decidable (_ ∧ _))

instance instDecidableAdmissible :
    ∀ (m : ℕ → Option ℕ) (ops : List SmtOp), Decidable (Admissible m ops)
  | _, [] => inferInstanceAs (Decidable True)
  | m, op :: ops =>
    have := instDecidableAdmissible (apply m op) ops
    inferInstanceAs (Decidable (_ ∧ _))

end SmtOp

/-- The tree has the entries of the map. -/
def Represents (t : Tree) (m : ℕ → Option ℕ) : Prop :=
  ∀ k v, Trie.Mem k v t ↔ m k = some v

variable {permute : List ℕ → ℕ} {inputs : List (List ℕ)} {smt : SMT} {t : Tree}
  {m : ℕ → Option ℕ}

theorem Represents.not_mem (h : Represents t m) {k : ℕ} (hk : m k = none) (v : ℕ) :
    ¬ Trie.Mem k v t := by
  rw [h, hk]
  exact nofun

theorem Represents.exists_mem (h : Represents t m) {k : ℕ} (hk : m k ≠ none) :
    ∃ v, Trie.Mem k v t := by
  obtain ⟨v, hv⟩ := Option.ne_none_iff_exists'.mp hk
  exact ⟨v, (h k v).mpr hv⟩

theorem represents_update {t' : Tree} {k v : ℕ} (h : Represents t m)
    (hm : ∀ k' v', Trie.Mem k' v' t' ↔ k' = k ∧ v' = v ∨ k' ≠ k ∧ Trie.Mem k' v' t) :
    Represents t' (Function.update m k (some v)) := by
  intro k' v'
  rw [hm, h]
  by_cases hk : k' = k
  · subst hk
    rw [Function.update_self]
    simp [eq_comm]
  · rw [Function.update_of_ne hk]
    simp [hk]

/-- **ONE CALL.** -/
theorem Reflects.step (h : Reflects permute inputs smt t)
    (hcf : CollisionFree permute inputs) (hrep : Represents t m) {op : SmtOp}
    (hpre : op.Pre m) (hin : ∀ x ∈ SMT.hashed permute smt op, x ∈ inputs) :
    ∃ smt' t', SMT.step permute smt op = .ok smt' ∧ Reflects permute inputs smt' t' ∧
      Represents t' (op.apply m) := by
  cases op with
  | add key value =>
      obtain ⟨habs, hk, hv⟩ := hpre
      obtain ⟨plan, hplan, hdone⟩ := h.add hcf hk (hrep.not_mem habs) value
      rw [SMT.hashed, hplan] at hin
      obtain ⟨smt', t', hok, hafter, hmem⟩ := hdone hin
      refine ⟨smt', t', by rw [SMT.step, hok]; rfl, hafter, ?_⟩
      refine represents_update hrep ?_
      intro k' v'
      rw [hmem, F1Field.e_of_lt hv]
      constructor
      · rintro (hnew | hold)
        · exact Or.inl hnew
        · refine Or.inr ⟨?_, hold⟩
          rintro rfl
          exact hrep.not_mem habs v' hold
      · exact Or.imp_right And.right
  | delete key =>
      obtain ⟨v, hmem⟩ := hrep.exists_mem hpre
      obtain ⟨plan, hplan, hdone⟩ := h.delete hcf hmem
      rw [SMT.hashed, hplan] at hin
      obtain ⟨smt', t', hok, hafter, hmem'⟩ := hdone hin
      refine ⟨smt', t', by rw [SMT.step, hok]; rfl, hafter, ?_⟩
      intro k' v'
      rw [hmem', hrep, SmtOp.apply]
      by_cases hk : k' = key
      · subst hk
        rw [Function.update_self]
        simp
      · rw [Function.update_of_ne hk, and_iff_right hk]
  | update key newValue =>
      obtain ⟨hpres, hv⟩ := hpre
      obtain ⟨v, hmem⟩ := hrep.exists_mem hpres
      obtain ⟨plan, hplan, hdone⟩ := h.update hcf hmem newValue
      rw [SMT.hashed, hplan] at hin
      obtain ⟨smt', t', hok, hafter, hmem'⟩ := hdone hin
      rw [F1Field.e_of_lt hv] at hmem'
      exact ⟨smt', t', by rw [SMT.step, hok]; rfl, hafter, represents_update hrep hmem'⟩

namespace SMT

theorem new_reflects : Reflects permute inputs new .empty where
  canonical := Trie.Canonical.empty 0
  entries _ _ h := h.elim
  root := rfl
  dbRoot := rfl
  stored _ hs hne := absurd (hs.eq_of_not_isNode rfl) hne
  hashed _ hs hne := absurd (hs.eq_of_not_isNode rfl) hne

/-- **EVERY ADMISSIBLE RUN REFLECTS ITS MAP.** -/
theorem run_reflects (h : Reflects permute inputs smt t)
    (hcf : CollisionFree permute inputs) (hrep : Represents t m) {ops : List SmtOp}
    (hadm : SmtOp.Admissible m ops) (hin : ∀ x ∈ runHashed permute smt ops, x ∈ inputs) :
    ∃ smt' t', run permute smt ops = .ok smt' ∧ Reflects permute inputs smt' t' ∧
      Represents t' (SmtOp.applyAll m ops) := by
  induction ops generalizing smt t m with
  | nil => exact ⟨smt, t, rfl, h, hrep⟩
  | cons op ops ih =>
      obtain ⟨hpre, hrest⟩ := hadm
      have hhead : ∀ x ∈ hashed permute smt op, x ∈ inputs :=
        fun x hx => hin x (List.mem_append_left _ hx)
      obtain ⟨smt', t', hok, hafter, hrep'⟩ := h.step hcf hrep hpre hhead
      rw [runHashed, hok] at hin
      obtain ⟨smt'', t'', hrun, hend⟩ := ih hafter hrep' hrest
        fun x hx => hin x (List.mem_append_right _ hx)
      exact ⟨smt'', t'', by rw [run, hok]; exact hrun, hend⟩

/-- The run of a list of calls from the empty tree. -/
theorem run_new_reflects {ops : List SmtOp} (hadm : SmtOp.Admissible (fun _ => none) ops)
    (hcf : CollisionFree permute (runHashed permute new ops)) :
    ∃ smt t, run permute new ops = .ok smt ∧
      Reflects permute (runHashed permute new ops) smt t ∧
      Represents t (SmtOp.applyAll (fun _ => none) ops) :=
  run_reflects new_reflects hcf (fun _ v => iff_of_false id (Option.some_ne_none v).symm) hadm
    fun _ hx => hx

/-! ## Reading the map back -/

/-- A node of the store, seen from the root along the records. -/
inductive Reachable (smt : SMT) : ℕ → Prop where
  | root : smt.root ≠ 0 → Reachable smt smt.root
  | child {n l r c : ℕ} : Reachable smt n → smt.db.get n = some [l, r] →
      c = l ∨ c = r → c ≠ 0 → Reachable smt c

theorem reachable_sub (h : Reflects permute inputs smt t) {n : ℕ}
    (hn : Reachable smt n) : ∃ s, Trie.Sub s t ∧ s ≠ .empty ∧ n = Tree.digest permute s := by
  induction hn with
  | root h0 =>
      refine ⟨t, Trie.Sub.refl, ?_, h.root⟩
      rintro rfl
      exact h0 h.root
  | @child n l r c _ hget hc h0 ih =>
      obtain ⟨s, hs, hne, rfl⟩ := ih
      rw [h.stored s hs hne] at hget
      cases s with
      | empty => exact absurd rfl hne
      | leaf k v =>
          have hlen := congrArg (Option.map List.length) hget
          exact absurd hlen (by simp [Tree.record])
      | node sl sr =>
          simp only [Tree.record, Option.some.injEq, List.cons.injEq, and_true] at hget
          obtain ⟨rfl, rfl⟩ := hget
          rcases hc with rfl | rfl
          · refine ⟨sl, (Trie.Sub.left Trie.Sub.refl).trans hs, ?_, rfl⟩
            rintro rfl
            exact h0 rfl
          · refine ⟨sr, (Trie.Sub.right Trie.Sub.refl).trans hs, ?_, rfl⟩
            rintro rfl
            exact h0 rfl

/-- What a map asks of the tree: `get` answers from it, and no node is missing. -/
structure Refines (smt : SMT) (m : ℕ → Option ℕ) : Prop where
  get : ∀ k : ℤ, ∃ res, smt.get k = .ok res ∧ res.found = (m (F1Field.e k)).isSome ∧
    ∀ v, m (F1Field.e k) = some v → res.value = v
  present : ∀ n, Reachable smt n → (smt.db.get n).isSome = true

theorem refines_of_reflects (h : Reflects permute inputs smt t)
    (hcf : CollisionFree permute inputs) (hrep : Represents t m) : smt.Refines m where
  get := by
    intro k
    cases hv : m (F1Field.e k) with
    | none =>
        obtain ⟨res, hget, hfound⟩ := h.get_of_not_mem hcf (hrep.not_mem hv)
        exact ⟨res, hget, hfound, nofun⟩
    | some v =>
        obtain ⟨res, hget, hfound, hvalue⟩ := h.get_of_mem hcf ((hrep _ v).mpr hv)
        exact ⟨res, hget, hfound, fun _ hv' => hvalue.trans (Option.some.inj hv')⟩
  present := by
    intro n hn
    obtain ⟨s, hs, hne, rfl⟩ := reachable_sub h hn
    rw [h.stored s hs hne]
    rfl

/-- **HISTORY INDEPENDENCE.** -/
theorem root_eq_of_map_eq {inputs' : List (List ℕ)} {smt' : SMT} {t' : Tree}
    (h : Reflects permute inputs smt t) (h' : Reflects permute inputs' smt' t')
    (hrep : Represents t m) (hrep' : Represents t' m) : smt.root = smt'.root := by
  have heq : t = t' := h.canonical.ext h'.canonical fun k v =>
    (hrep k v).trans (hrep' k v).symm
  rw [h.root, h'.root, heq]

/-- Deleting a key that was just added restores the root. -/
theorem root_add_delete (h : Reflects permute inputs smt t)
    (hcf : CollisionFree permute inputs) (hrep : Represents t m) {key value : ℕ}
    (hpre : SmtOp.Pre m (.add key value))
    (hin : ∀ x ∈ runHashed permute smt [.add key value, .delete key], x ∈ inputs) :
    ∃ smt', run permute smt [.add key value, .delete key] = .ok smt' ∧
      smt'.root = smt.root := by
  have hadm : SmtOp.Admissible m [.add key value, .delete key] := by
    refine ⟨hpre, ?_, trivial⟩
    show Function.update m key (some value) key ≠ none
    rw [Function.update_self]
    exact Option.some_ne_none value
  have hmap : SmtOp.applyAll m [.add key value, .delete key] = m := by
    show Function.update (Function.update m key (some value)) key none = m
    rw [Function.update_idem, ← hpre.1, Function.update_eq_self]
  obtain ⟨smt', t', hrun, h', hrep'⟩ := run_reflects h hcf hrep hadm hin
  rw [hmap] at hrep'
  exact ⟨smt', hrun, root_eq_of_map_eq h' h hrep' hrep⟩

/-- **THE SPARSE MERKLE TREE REFINES A FINITE MAP.**  After any admissible run from
    the empty tree `get` reads the map, and every node under the root is stored;
    runs that end in the same map end in the same root. -/
theorem smt_refines_map {ops ops' : List SmtOp}
    (hadm : SmtOp.Admissible (fun _ => none) ops)
    (hadm' : SmtOp.Admissible (fun _ => none) ops')
    (hcf : CollisionFree permute (runHashed permute new ops))
    (hcf' : CollisionFree permute (runHashed permute new ops')) :
    ∃ smt smt', run permute new ops = .ok smt ∧ run permute new ops' = .ok smt' ∧
      smt.Refines (SmtOp.applyAll (fun _ => none) ops) ∧
      smt'.Refines (SmtOp.applyAll (fun _ => none) ops') ∧
      (SmtOp.applyAll (fun _ => none) ops = SmtOp.applyAll (fun _ => none) ops' →
        smt.root = smt'.root) := by
  obtain ⟨smt, t, hrun, h, hrep⟩ := run_new_reflects hadm hcf
  obtain ⟨smt', t', hrun', h', hrep'⟩ := run_new_reflects hadm' hcf'
  refine ⟨smt, smt', hrun, hrun', refines_of_reflects h hcf hrep,
    refines_of_reflects h' hcf' hrep', ?_⟩
  intro hmap
  rw [← hmap] at hrep'
  exact root_eq_of_map_eq h h' hrep hrep'

/-! ## A run -/

namespace Sample

def leaf1 : ℕ :=
  17745286145841574461080870515538432642488178426701997089182084200349283295644

def leaf2 : ℕ :=
  14961597431134006044368514760277858710458702921165887975588400183255494616565

def leaf5 : ℕ :=
  19735322091264336512950257930646484565260209912040081148652494901448121943620

def leaf5' : ℕ :=
  2563574883079329440446693840870219444181257612370751972550505011460984445055

def fork : ℕ :=
  15280729622833640694979496390010225416866119288089768573634001110505894653646

def fork' : ℕ :=
  19131067364491705532867885263267542294214944985571187775438982260594131202846

def pushed : ℕ :=
  2996922252417443465966018502620271371886265112327727499202960396308391015872

def pushed' : ℕ :=
  2398246242048860919396458168851239908792048185259092728053985814299313239055

/-- Poseidon on the nodes of the runs below. -/
def table : List (List ℕ × ℕ) :=
  [([1, 10, 1], leaf1), ([5, 20, 1], leaf5), ([leaf1, leaf5], fork), ([fork, 0], pushed),
    ([0, pushed],
      18508676215879297097623875026733409214533276976775300711445773127911914420383),
    ([2, 30, 1], leaf2),
    ([leaf2, pushed],
      14700135256412991618051625478047443643194026978154580664078222849911364378233),
    ([5, 21, 1], leaf5'), ([leaf1, leaf5'], fork'), ([fork', 0], pushed'),
    ([leaf2, pushed'],
      21887599618855797937752100862115241746422863561365232095499024711448787759500),
    ([leaf2, leaf5'],
      914911609431152920276455117869356432542859364454314801943475797196059033761)]

def poseidon (inputs : List ℕ) : ℕ := (table.lookup inputs).getD 0

/-- Keys 1 and 5 share their two low bits; the deletion lets 5 rise again. -/
def ops : List SmtOp :=
  [.add 1 10, .add 5 20, .add 2 30, .update 5 21, .delete 1]

def ops' : List SmtOp := [.add 5 21, .add 2 30]

end Sample

theorem smt_refines_map_sample :
    ∃ smt smt', run Sample.poseidon new Sample.ops = .ok smt ∧
      run Sample.poseidon new Sample.ops' = .ok smt' ∧
      smt.Refines (SmtOp.applyAll (fun _ => none) Sample.ops) ∧
      smt'.Refines (SmtOp.applyAll (fun _ => none) Sample.ops') ∧
      (SmtOp.applyAll (fun _ => none) Sample.ops
          = SmtOp.applyAll (fun _ => none) Sample.ops' → smt.root = smt'.root) :=
  smt_refines_map (by decide +kernel) (by decide +kernel) (by decide +kernel)
    (by decide +kernel)

end SMT

end Albus.Core
