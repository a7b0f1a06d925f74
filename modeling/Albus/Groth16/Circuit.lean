import Albus.Groth16.Completeness
import Mathlib.Data.List.Sort

/-! # From a circuit to a QAP (`crates/groth16/src/lib.rs`, `mod assignments`)

    A circuit is known by the calls that its synthesis makes.  The terms of its constraints
    are recorded one by one and collected by variable.  What the rows say of a constraint
    is what the circuit said of it (`combination_collect`), in whatever order a hash map
    yields them, so that an assignment that satisfies the circuit satisfies the QAP. -/

namespace Albus.Groth16

open Albus.Lib

/-- `Index`. -/
inductive Index
  | input (i : ℕ)
  | aux (i : ℕ)
  deriving DecidableEq, Repr

/-- A linear combination: the terms in the order they were added. -/
abbrev LinearCombination (F : Type) := List (Index × F)

/-- A recorded term: the variable, its coefficient, the constraint. -/
abbrev Term (F : Type) := Index × F × ℕ

/-- `AnalyzeCircuit`. -/
structure AnalyzeCircuit (F : Type) where
  inputAssignment : List F
  numInputs : ℕ
  auxAssignment : List F
  numAux : ℕ
  numConstraints : ℕ
  extractAssignments : Bool
  aT : List (Term F)
  bT : List (Term F)
  cT : List (Term F)

/-- What a synthesis calls; a value that is not known is `none`. -/
inductive Call (F : Type)
  | alloc (f : Option F)
  | allocInput (f : Option F)
  | enforce (a b c : LinearCombination F)

section Circuit

variable {F : Type}

def AnalyzeCircuit.empty (extractAssignments : Bool) : AnalyzeCircuit F :=
  ⟨[], 0, [], 0, 0, extractAssignments, [], [], []⟩

/-- `alloc`. -/
def AnalyzeCircuit.alloc (cs : AnalyzeCircuit F) (f : Option F) : Option (AnalyzeCircuit F) :=
  if cs.extractAssignments then
    f.map fun x => { cs with auxAssignment := cs.auxAssignment ++ [x], numAux := cs.numAux + 1 }
  else some { cs with numAux := cs.numAux + 1 }

/-- `alloc_input`. -/
def AnalyzeCircuit.allocInput (cs : AnalyzeCircuit F) (f : Option F) : Option (AnalyzeCircuit F) :=
  if cs.extractAssignments then
    f.map fun x =>
      { cs with inputAssignment := cs.inputAssignment ++ [x], numInputs := cs.numInputs + 1 }
  else some { cs with numInputs := cs.numInputs + 1 }

/-- `eval` of `enforce`. -/
def evalTerms (lc : LinearCombination F) (output : List (Term F)) (currentConstraint : ℕ) :
    List (Term F) :=
  output ++ lc.map fun t => (t.1, t.2, currentConstraint)

/-- `enforce`. -/
def AnalyzeCircuit.enforce (cs : AnalyzeCircuit F) (a b c : LinearCombination F) :
    AnalyzeCircuit F :=
  { cs with
    aT := evalTerms a cs.aT cs.numConstraints
    bT := evalTerms b cs.bT cs.numConstraints
    cT := evalTerms c cs.cT cs.numConstraints
    numConstraints := cs.numConstraints + 1 }

def AnalyzeCircuit.call (cs : AnalyzeCircuit F) : Call F → Option (AnalyzeCircuit F)
  | .alloc f => cs.alloc f
  | .allocInput f => cs.allocInput f
  | .enforce a b c => some (cs.enforce a b c)

variable [Field F]

/-- `extract_assignments` and `extract_circuit`, before the latter's `qap`: the input "one", the
    calls of the synthesis, and a constraint for every input. -/
def extract (extractAssignments : Bool) (calls : List (Call F)) : Option (AnalyzeCircuit F) := do
  let cs ← (AnalyzeCircuit.empty extractAssignments).allocInput (some 1)
  let cs ← calls.foldlM AnalyzeCircuit.call cs
  return (List.range cs.numInputs).foldl (fun cs i => cs.enforce [(.input i, 1)] [] []) cs

/-- The variable of an index, the inputs first. -/
def Index.variable (p : ℕ) : Index → ℕ
  | .input i => i
  | .aux i => p + i

/-- The loop of `collect`: the map, and its keys in the order they came. -/
def collectTerm (p : ℕ) (state : Rows F × List ℕ) (t : Term F) : Rows F × List ℕ :=
  let i := t.1.variable p
  if i ∈ state.2 then
    (state.1.map fun row => if row.1 = i then (row.1, row.2 ++ [t.2]) else row, state.2)
  else (state.1 ++ [(i, [t.2])], state.2 ++ [i])

/-- `collect` of `AnalyzeCircuit::qap`; the map is yielded in the order of insertion. -/
def collect (v : List (Term F)) (p : ℕ) : Rows F × List ℕ :=
  let state := v.foldl (collectTerm p) ([], [])
  (state.1, state.2.insertionSort (· ≤ ·))

/-- `AnalyzeCircuit::qap`. -/
def AnalyzeCircuit.qap (cs : AnalyzeCircuit F) : QAP F :=
  let a := collect cs.aT cs.numInputs
  let b := collect cs.bT cs.numInputs
  let c := collect cs.cT cs.numInputs
  ⟨a.1, b.1, c.1, a.2, b.2⟩

/-! ## What is collected -/

theorem coefficient_append (rows rows' : Rows F) (y u : ℕ) :
    coefficient (rows ++ rows') y u = coefficient rows y u + coefficient rows' y u := by
  rw [coefficient, List.map_append, List.sum_append, coefficient, coefficient]

/-- A term pushed to the row of its variable. -/
theorem coefficient_push {rows : Rows F} {i : ℕ} (hnodup : (rows.map Prod.fst).Nodup)
    (hi : i ∈ rows.map Prod.fst) (t : F × ℕ) (y u : ℕ) :
    coefficient (rows.map fun row => if row.1 = i then (row.1, row.2 ++ [t]) else row) y u
      = coefficient rows y u + if i = y ∧ t.2 = u then t.1 else 0 := by
  induction rows with
  | nil => cases hi
  | cons row rows ih =>
    rw [List.map_cons, List.nodup_cons] at hnodup
    rw [List.map_cons, coefficient_cons, coefficient_cons]
    by_cases hrow : row.1 = i
    · -- the keys are distinct: the other rows stay as they are
      have hrest :
          (rows.map fun row => if row.1 = i then (row.1, row.2 ++ [t]) else row) = rows := by
        refine (List.map_congr_left ?_).trans (List.map_id rows)
        intro other hother
        refine if_neg (fun h => hnodup.1 ?_)
        exact hrow.trans h.symm ▸ List.mem_map_of_mem hother
      rw [hrest, if_pos hrow]
      by_cases hy : i = y
      · simp only [hrow, hy, if_true, true_and, List.map_append, List.sum_append, List.map_cons,
          List.map_nil, List.sum_cons, List.sum_nil, add_zero]
        ring
      · simp only [hrow, hy, if_false, false_and, add_zero]
    · have hi' : i ∈ rows.map Prod.fst :=
        (List.mem_cons.mp hi).resolve_left (fun h => hrow h.symm)
      rw [if_neg hrow, ih hnodup.2 hi', add_assoc]

/-- What the loop of `collect` has made of the terms it has seen. -/
structure Collected (p : ℕ) (v : List (Term F)) (state : Rows F × List ℕ) : Prop where
  keys : state.1.map Prod.fst = state.2
  nodup : state.2.Nodup
  mem : ∀ y, y ∈ state.2 ↔ ∃ t ∈ v, t.1.variable p = y
  coefficients : ∀ y u, coefficient state.1 y u
    = (v.map fun t => if t.1.variable p = y ∧ t.2.2 = u then t.2.1 else 0).sum
  terms : ∀ row ∈ state.1, ∀ xu ∈ row.2, ∃ t ∈ v, t.2 = xu

theorem collected_nil (p : ℕ) : Collected p ([] : List (Term F)) ([], []) where
  keys := rfl
  nodup := List.nodup_nil
  mem := by simp
  coefficients := fun _ _ => rfl
  terms := fun _ h => nomatch h

/-- One more term. -/
theorem Collected.step {p : ℕ} {v : List (Term F)} {state : Rows F × List ℕ}
    (h : Collected p v state) (t : Term F) :
    Collected p (v ++ [t]) (collectTerm p state t) := by
  have hmem : ∀ y, (∃ t' ∈ v ++ [t], t'.1.variable p = y) ↔ y ∈ state.2 ∨ y = t.1.variable p := by
    intro y
    rw [h.mem y]
    simp only [List.mem_append, List.mem_singleton, or_and_right, exists_or, exists_eq_left]
    exact or_congr_right eq_comm
  have hcoefficients : ∀ y u,
      ((v ++ [t]).map fun t => if t.1.variable p = y ∧ t.2.2 = u then t.2.1 else 0).sum
        = coefficient state.1 y u + if t.1.variable p = y ∧ t.2.2 = u then t.2.1 else 0 := by
    intro y u
    rw [List.map_append, List.sum_append, h.coefficients y u]
    simp
  by_cases hseen : t.1.variable p ∈ state.2
  · have hstate : collectTerm p state t = (state.1.map fun row =>
        if row.1 = t.1.variable p then (row.1, row.2 ++ [t.2]) else row, state.2) := if_pos hseen
    rw [hstate]
    refine ⟨?_, h.nodup, fun y => ?_, fun y u => ?_, ?_⟩
    · rw [List.map_map, ← h.keys]
      refine List.map_congr_left ?_
      intro row _
      rw [Function.comp_apply]
      split <;> rfl
    · rw [hmem y]
      refine ⟨Or.inl, ?_⟩
      rintro (hy | rfl)
      · exact hy
      · exact hseen
    · rw [hcoefficients y u, coefficient_push (h.keys ▸ h.nodup) (h.keys ▸ hseen)]
    · intro row hrow xu hxu
      obtain ⟨old, hold, rfl⟩ := List.mem_map.mp hrow
      by_cases hkey : old.1 = t.1.variable p
      · rw [if_pos hkey] at hxu
        rcases List.mem_append.mp hxu with hxu | hxu
        · obtain ⟨t', ht', heq⟩ := h.terms old hold xu hxu
          exact ⟨t', List.mem_append_left _ ht', heq⟩
        · exact ⟨t, List.mem_append_right _ List.mem_cons_self, (List.mem_singleton.mp hxu).symm⟩
      · rw [if_neg hkey] at hxu
        obtain ⟨t', ht', heq⟩ := h.terms old hold xu hxu
        exact ⟨t', List.mem_append_left _ ht', heq⟩
  · have hstate : collectTerm p state t
        = (state.1 ++ [(t.1.variable p, [t.2])], state.2 ++ [t.1.variable p]) := if_neg hseen
    rw [hstate]
    refine ⟨?_, ?_, fun y => ?_, fun y u => ?_, ?_⟩
    · rw [List.map_append, h.keys]
      rfl
    · exact List.nodup_append.mpr ⟨h.nodup, List.nodup_singleton _, fun y hy z hz hyz =>
        hseen (List.mem_singleton.mp hz ▸ hyz ▸ hy)⟩
    · rw [hmem y, List.mem_append, List.mem_singleton]
    · rw [hcoefficients y u, coefficient_append]
      congr 1
      simp [coefficient, ite_and]
    · intro row hrow xu hxu
      rcases List.mem_append.mp hrow with hrow | hrow
      · obtain ⟨t', ht', heq⟩ := h.terms row hrow xu hxu
        exact ⟨t', List.mem_append_left _ ht', heq⟩
      · obtain rfl := List.mem_singleton.mp hrow
        exact ⟨t, List.mem_append_right _ List.mem_cons_self, (List.mem_singleton.mp hxu).symm⟩

theorem collected_foldl (p : ℕ) (v : List (Term F)) :
    Collected p v (v.foldl (collectTerm p) ([], [])) := by
  induction v using List.reverseRecOn with
  | nil => exact collected_nil p
  | append_singleton v t ih =>
    rw [List.foldl_append]
    exact ih.step t

/-- The array of variables is that of those that occur: also of one whose coefficients cancel. -/
theorem mem_collect (p : ℕ) (v : List (Term F)) (y : ℕ) :
    y ∈ (collect v p).2 ↔ ∃ t ∈ v, t.1.variable p = y := by
  rw [collect, List.mem_insertionSort]
  exact (collected_foldl p v).mem y

/-- **THE ARRAY IS SORTED**, and holds every variable that has a row. -/
theorem collect_lists {p vars : ℕ} {v : List (Term F)} (hv : ∀ t ∈ v, t.1.variable p < vars) :
    Lists (collect v p).2 (collect v p).1 vars := by
  have h := collected_foldl p v
  refine Lists.of_rows ?_ ?_ ?_
  · have hsorted := List.pairwise_insertionSort (· ≤ ·) (v.foldl (collectTerm p) ([], [])).2
    have hdistinct := (List.perm_insertionSort (· ≤ ·) _).nodup_iff.mpr h.nodup
    exact (hsorted.and hdistinct).imp (fun hle => lt_of_le_of_ne hle.1 hle.2)
  · intro y hy
    obtain ⟨t, ht, rfl⟩ := (mem_collect p v y).mp hy
    exact hv t ht
  · intro row hrow
    rw [collect, List.mem_insertionSort, ← h.keys]
    exact List.mem_map_of_mem hrow

/-- What the terms recorded for constraint `u` add up to. -/
def termSum (p : ℕ) (v : List (Term F)) (x : ℕ → F) (u : ℕ) : F :=
  (v.map fun t => if t.2.2 = u then t.2.1 * x (t.1.variable p) else 0).sum

theorem termSum_append (p : ℕ) (v v' : List (Term F)) (x : ℕ → F) (u : ℕ) :
    termSum p (v ++ v') x u = termSum p v x u + termSum p v' x u := by
  rw [termSum, List.map_append, List.sum_append, termSum, termSum]

/-- **COLLECTING LOSES NOTHING**: the rows, in any order, combine to what was recorded. -/
theorem combination_collect {p vars : ℕ} {v : List (Term F)} {rows : Rows F}
    (hv : ∀ t ∈ v, t.1.variable p < vars) (horder : rows.Perm (collect v p).1) (x : ℕ → F) (u : ℕ) :
    combination rows vars x u = termSum p v x u := by
  have hcoefficient : ∀ y, coefficient rows y u
      = (v.map fun t => if t.1.variable p = y ∧ t.2.2 = u then t.2.1 else 0).sum := by
    intro y
    rw [← (collected_foldl p v).coefficients y u]
    exact (horder.map _).sum_eq
  simp only [combination, hcoefficient]
  clear hcoefficient horder
  induction v with
  | nil => simp [termSum]
  | cons t v ih =>
    have ht : t.1.variable p ∈ Finset.range vars :=
      Finset.mem_range.mpr (hv t List.mem_cons_self)
    have hrest := ih (fun t ht => hv t (List.mem_cons_of_mem _ ht))
    have hfirst : ∑ y ∈ Finset.range vars,
        (if t.1.variable p = y ∧ t.2.2 = u then t.2.1 else 0) * x y
          = if t.2.2 = u then t.2.1 * x (t.1.variable p) else 0 := by
      simp only [ite_and, ite_mul, zero_mul]
      rw [Finset.sum_ite_eq, if_pos ht]
    simp only [List.map_cons, List.sum_cons, add_mul, Finset.sum_add_distrib, hrest, hfirst,
      termSum]

theorem collect_fits {p vars n : ℕ} {v : List (Term F)} {rows : Rows F}
    (hv : ∀ t ∈ v, t.1.variable p < vars ∧ t.2.2 < n) (horder : rows.Perm (collect v p).1) :
    rows.Fits vars n := by
  have h := collected_foldl p v
  intro row hrow
  have hmem := horder.mem_iff.mp hrow
  refine ⟨?_, fun xu hxu => ?_⟩
  · obtain ⟨t, ht, hkey⟩ := (h.mem row.1).mp (h.keys ▸ List.mem_map_of_mem hmem)
    exact hkey ▸ (hv t ht).1
  · obtain ⟨t, ht, rfl⟩ := h.terms row hmem xu hxu
    exact (hv t ht).2

theorem Lists.perm {constraints : List ℕ} {rows rows' : Rows F} {vars : ℕ}
    (h : Lists constraints rows vars) (horder : rows'.Perm rows) :
    Lists constraints rows' vars := by
  refine ⟨h.sorted, h.bound, fun y u hne => h.nonzero y u ?_⟩
  have hsame : coefficient rows' y u = coefficient rows y u := (horder.map _).sum_eq
  rwa [← hsame]

/-! ## What is recorded -/

/-- A linear combination at an assignment. -/
def LinearCombination.value (p : ℕ) (lc : LinearCombination F) (x : ℕ → F) : F :=
  (lc.map fun t => t.2 * x (t.1.variable p)).sum

theorem termSum_evalTerms (p : ℕ) (lc : LinearCombination F) (output : List (Term F)) (k : ℕ)
    (x : ℕ → F) (u : ℕ) :
    termSum p (evalTerms lc output k) x u
      = termSum p output x u + if k = u then lc.value p x else 0 := by
  rw [evalTerms, termSum_append]
  congr 1
  rw [termSum, List.map_map]
  by_cases hk : k = u
  · simp only [Function.comp_def, hk, if_true, LinearCombination.value]
  · simp only [Function.comp_def, hk, if_false]
    exact List.sum_eq_zero (fun y hy => by
      obtain ⟨t, -, rfl⟩ := List.mem_map.mp hy
      rfl)

/-- A constraint of a circuit. -/
abbrev Constraint (F : Type) := LinearCombination F × LinearCombination F × LinearCombination F

/-- One of the three columns of recorded terms holds that part of every constraint. -/
def Records (v : List (Term F)) (lcs : List (LinearCombination F)) : Prop :=
  (∀ t ∈ v, t.2.2 < lcs.length ∧ ∃ lc ∈ lcs, (t.1, t.2.1) ∈ lc) ∧
    ∀ p x u, termSum p v x u = LinearCombination.value p (lcs.getD u []) x

theorem records_nil : Records ([] : List (Term F)) [] :=
  ⟨(fun _ h => nomatch h), fun _ _ _ => rfl⟩

/-- One more constraint. -/
theorem Records.evalTerms {v : List (Term F)} {lcs : List (LinearCombination F)} (h : Records v lcs)
    {k : ℕ} (hk : k = lcs.length) (lc : LinearCombination F) :
    Records (evalTerms lc v k) (lcs ++ [lc]) := by
  subst hk
  refine ⟨fun t ht => ?_, fun p x u => ?_⟩
  · rw [List.length_append, List.length_singleton]
    rcases List.mem_append.mp ht with ht | ht
    · obtain ⟨hk, lc', hlc', hmem⟩ := h.1 t ht
      exact ⟨by omega, lc', List.mem_append_left _ hlc', hmem⟩
    · obtain ⟨t', ht', rfl⟩ := List.mem_map.mp ht
      exact ⟨Nat.lt_succ_self _, lc, List.mem_append_right _ List.mem_cons_self, ht'⟩
  · rw [termSum_evalTerms, h.2 p x u]
    rcases lt_trichotomy u lcs.length with hu | hu | hu
    · rw [List.getD_append _ _ _ _ hu, if_neg (by omega), add_zero]
    · subst hu
      rw [List.getD_eq_default _ _ le_rfl, List.getD_append_right _ _ _ _ le_rfl, Nat.sub_self,
        if_pos rfl]
      exact zero_add _
    · rw [List.getD_eq_default _ _ hu.le, if_neg (by omega), add_zero,
        List.getD_eq_default _ _ (by rw [List.length_append, List.length_singleton]; omega)]

/-- What a circuit has recorded of its constraints. -/
structure AnalyzeCircuit.Recorded (cs : AnalyzeCircuit F) (constraints : List (Constraint F)) :
    Prop where
  count : cs.numConstraints = constraints.length
  aT : Records cs.aT (constraints.map fun abc => abc.1)
  bT : Records cs.bT (constraints.map fun abc => abc.2.1)
  cT : Records cs.cT (constraints.map fun abc => abc.2.2)

theorem AnalyzeCircuit.Recorded.enforce {cs : AnalyzeCircuit F} {constraints : List (Constraint F)}
    (h : cs.Recorded constraints) (a b c : LinearCombination F) :
    (cs.enforce a b c).Recorded (constraints ++ [(a, b, c)]) := by
  have hlength : ∀ f : Constraint F → LinearCombination F,
      cs.numConstraints = (constraints.map f).length := fun f => by rw [List.length_map, h.count]
  refine ⟨?_, ?_, ?_, ?_⟩
  · rw [AnalyzeCircuit.enforce, List.length_append, List.length_singleton, h.count]
  all_goals rw [List.map_append, List.map_singleton]
  · exact h.aT.evalTerms (hlength _) a
  · exact h.bT.evalTerms (hlength _) b
  · exact h.cT.evalTerms (hlength _) c

/-- The constraints of a synthesis. -/
def enforced : List (Call F) → List (Constraint F)
  | [] => []
  | .alloc _ :: calls => enforced calls
  | .allocInput _ :: calls => enforced calls
  | .enforce a b c :: calls => (a, b, c) :: enforced calls

/-- The constraint that is added for an input: it holds of any assignment. -/
def inputConstraint (i : ℕ) : Constraint F := ([(.input i, 1)], [], [])

/-- What holds of a circuit while its assignments are extracted. -/
structure AnalyzeCircuit.Extracting (cs : AnalyzeCircuit F) (constraints : List (Constraint F)) :
    Prop where
  flag : cs.extractAssignments = true
  inputs : cs.inputAssignment.length = cs.numInputs
  aux : cs.auxAssignment.length = cs.numAux
  one : cs.inputAssignment[0]? = some 1
  recorded : cs.Recorded constraints

theorem AnalyzeCircuit.Extracting.enforce {cs : AnalyzeCircuit F}
    {constraints : List (Constraint F)} (h : cs.Extracting constraints)
    (a b c : LinearCombination F) : (cs.enforce a b c).Extracting (constraints ++ [(a, b, c)]) :=
  ⟨h.flag, h.inputs, h.aux, h.one, h.recorded.enforce a b c⟩

/-- One call of the synthesis. -/
theorem AnalyzeCircuit.Extracting.call {cs cs' : AnalyzeCircuit F}
    {constraints : List (Constraint F)} (h : cs.Extracting constraints) {call : Call F}
    (hcall : cs.call call = some cs') : cs'.Extracting (constraints ++ enforced [call]) := by
  cases call with
  | alloc f =>
    rw [AnalyzeCircuit.call, AnalyzeCircuit.alloc, if_pos h.flag, Option.map_eq_some_iff] at hcall
    obtain ⟨x, -, rfl⟩ := hcall
    refine ⟨h.flag, h.inputs, ?_, h.one, ?_⟩
    · rw [List.length_append, List.length_singleton, h.aux]
    · rw [enforced, enforced, List.append_nil]
      exact ⟨h.recorded.count, h.recorded.aT, h.recorded.bT, h.recorded.cT⟩
  | allocInput f =>
    rw [AnalyzeCircuit.call, AnalyzeCircuit.allocInput, if_pos h.flag,
      Option.map_eq_some_iff] at hcall
    obtain ⟨x, -, rfl⟩ := hcall
    obtain ⟨hlt, -⟩ := List.getElem?_eq_some_iff.mp h.one
    refine ⟨h.flag, ?_, h.aux, ?_, ?_⟩
    · rw [List.length_append, List.length_singleton, h.inputs]
    · rw [List.getElem?_append_left hlt, h.one]
    · rw [enforced, enforced, List.append_nil]
      exact ⟨h.recorded.count, h.recorded.aT, h.recorded.bT, h.recorded.cT⟩
  | enforce a b c =>
    obtain rfl := Option.some.inj hcall
    exact h.enforce a b c

/-- A synthesis as a whole. -/
theorem AnalyzeCircuit.Extracting.calls {calls : List (Call F)} {cs cs' : AnalyzeCircuit F}
    {constraints : List (Constraint F)} (h : cs.Extracting constraints)
    (hcalls : calls.foldlM AnalyzeCircuit.call cs = some cs') :
    cs'.Extracting (constraints ++ enforced calls) := by
  induction calls generalizing cs constraints with
  | nil =>
    obtain rfl := Option.some.inj hcalls
    rw [enforced, List.append_nil]
    exact h
  | cons call calls ih =>
    rw [List.foldlM_cons, Option.bind_eq_bind, Option.bind_eq_some_iff] at hcalls
    obtain ⟨mid, hcall, hrest⟩ := hcalls
    have hsplit : enforced (call :: calls) = enforced [call] ++ enforced calls := by
      cases call <;> rfl
    rw [hsplit, ← List.append_assoc]
    exact ih (h.call hcall) hrest

/-- The constraints for the inputs. -/
theorem AnalyzeCircuit.Extracting.inputConstraints {cs : AnalyzeCircuit F}
    {constraints : List (Constraint F)} (h : cs.Extracting constraints) (is : List ℕ) :
    (is.foldl (fun cs i => cs.enforce [(.input i, 1)] [] []) cs).Extracting
      (constraints ++ is.map inputConstraint) := by
  induction is generalizing cs constraints with
  | nil =>
    rw [List.map_nil, List.append_nil]
    exact h
  | cons i is ih =>
    have hrest := ih (h.enforce [(.input i, 1)] [] [])
    rw [List.append_assoc] at hrest
    exact hrest

theorem foldl_enforce_numInputs (is : List ℕ) (cs : AnalyzeCircuit F) :
    (is.foldl (fun cs i => cs.enforce [(.input i, 1)] [] []) cs).numInputs = cs.numInputs := by
  induction is generalizing cs with
  | nil => rfl
  | cons i is ih => exact ih _

/-- **WHAT IS EXTRACTED**: as many values as variables, the first of them one, and the circuit's
    constraints with one more for every input. -/
theorem extract_extracting {calls : List (Call F)} {cs : AnalyzeCircuit F}
    (h : extract true calls = some cs) :
    cs.Extracting (enforced calls ++ (List.range cs.numInputs).map inputConstraint) := by
  rw [extract, Option.bind_eq_bind, Option.bind_eq_some_iff] at h
  obtain ⟨first, hfirst, h⟩ := h
  rw [Option.bind_eq_some_iff] at h
  obtain ⟨last, hcalls, h⟩ := h
  obtain rfl := Option.some.inj h
  obtain rfl := Option.some.inj hfirst
  have hstart : AnalyzeCircuit.Extracting
      { AnalyzeCircuit.empty true with
        inputAssignment := [] ++ [(1 : F)], numInputs := 0 + 1 } [] :=
    ⟨rfl, rfl, rfl, rfl, rfl, records_nil, records_nil, records_nil⟩
  have hend := (hstart.calls hcalls).inputConstraints (List.range last.numInputs)
  rw [foldl_enforce_numInputs]
  exact hend

/-- The circuit without its assignments, as `extract_circuit` has it. -/
def AnalyzeCircuit.forget (cs : AnalyzeCircuit F) : AnalyzeCircuit F :=
  { cs with inputAssignment := [], auxAssignment := [], extractAssignments := false }

omit [Field F] in
theorem AnalyzeCircuit.call_forget {cs cs' : AnalyzeCircuit F} {call : Call F}
    (h : cs.call call = some cs') : cs.forget.call call = some cs'.forget := by
  cases call with
  | alloc f =>
    rw [AnalyzeCircuit.call, AnalyzeCircuit.alloc] at h
    split at h
    · obtain ⟨x, -, rfl⟩ := Option.map_eq_some_iff.mp h
      rfl
    · obtain rfl := Option.some.inj h
      rfl
  | allocInput f =>
    rw [AnalyzeCircuit.call, AnalyzeCircuit.allocInput] at h
    split at h
    · obtain ⟨x, -, rfl⟩ := Option.map_eq_some_iff.mp h
      rfl
    · obtain rfl := Option.some.inj h
      rfl
  | enforce a b c =>
    obtain rfl := Option.some.inj h
    rfl

omit [Field F] in
theorem foldlM_call_forget {calls : List (Call F)} {cs cs' : AnalyzeCircuit F}
    (h : calls.foldlM AnalyzeCircuit.call cs = some cs') :
    calls.foldlM AnalyzeCircuit.call cs.forget = some cs'.forget := by
  induction calls generalizing cs with
  | nil =>
    obtain rfl := Option.some.inj h
    rfl
  | cons call calls ih =>
    rw [List.foldlM_cons, Option.bind_eq_bind, Option.bind_eq_some_iff] at h ⊢
    obtain ⟨mid, hcall, hrest⟩ := h
    exact ⟨mid.forget, AnalyzeCircuit.call_forget hcall, ih hrest⟩

theorem foldl_enforce_forget (is : List ℕ) (cs : AnalyzeCircuit F) :
    is.foldl (fun cs i => cs.enforce [(.input i, 1)] [] []) cs.forget
      = (is.foldl (fun cs i => cs.enforce [(.input i, 1)] [] []) cs).forget := by
  induction is generalizing cs with
  | nil => rfl
  | cons i is ih => exact ih (cs.enforce [(.input i, 1)] [] [])

/-- `extract_circuit` records what `extract_assignments` records. -/
theorem extract_forget {calls : List (Call F)} {cs : AnalyzeCircuit F}
    (h : extract true calls = some cs) : extract false calls = some cs.forget := by
  rw [extract, Option.bind_eq_bind, Option.bind_eq_some_iff] at h ⊢
  obtain ⟨first, hfirst, h⟩ := h
  rw [Option.bind_eq_some_iff] at h
  obtain ⟨last, hcalls, h⟩ := h
  obtain rfl := Option.some.inj h
  obtain rfl := Option.some.inj hfirst
  refine ⟨_, rfl, ?_⟩
  have hforgotten := foldlM_call_forget hcalls
  rw [Option.bind_eq_some_iff]
  exact ⟨last.forget, hforgotten, congrArg some (foldl_enforce_forget _ last)⟩

/-! ## The pipeline -/

/-- A variable that the circuit has allocated. -/
def Index.Allocated (numInputs numAux : ℕ) : Index → Prop
  | .input i => i < numInputs
  | .aux i => i < numAux

theorem Index.variable_lt {numInputs numAux : ℕ} {i : Index} (h : i.Allocated numInputs numAux) :
    i.variable numInputs < numInputs + numAux := by
  cases i with
  | input i => exact Nat.lt_add_right _ h
  | aux i => exact Nat.add_lt_add_left h _

/-- Every term names an allocated variable. -/
def Constraint.Allocated (numInputs numAux : ℕ) (abc : Constraint F) : Prop :=
  ∀ lc ∈ [abc.1, abc.2.1, abc.2.2], ∀ t ∈ lc, t.1.Allocated numInputs numAux

/-- The constraint holds of an assignment. -/
def Constraint.Holds (p : ℕ) (abc : Constraint F) (x : ℕ → F) : Prop :=
  abc.1.value p x * abc.2.1.value p x = abc.2.2.value p x

theorem inputConstraint_allocated {numInputs i : ℕ} (numAux : ℕ) (hi : i < numInputs) :
    (inputConstraint i : Constraint F).Allocated numInputs numAux := by
  intro lc hlc t ht
  simp only [inputConstraint, List.mem_cons, List.not_mem_nil, or_false] at hlc
  rcases hlc with rfl | rfl | rfl
  · obtain rfl := List.mem_singleton.mp ht
    exact hi
  · cases ht
  · cases ht

theorem inputConstraint_holds (p i : ℕ) (x : ℕ → F) :
    (inputConstraint i : Constraint F).Holds p x := by
  simp [Constraint.Holds, inputConstraint, LinearCombination.value]

/-- The same QAP, its rows in another order. -/
structure QAP.Reordered (qap qap' : QAP F) : Prop where
  a : qap.a.Perm qap'.a
  b : qap.b.Perm qap'.b
  c : qap.c.Perm qap'.c
  aConstraints : qap.aConstraints = qap'.aConstraints
  bConstraints : qap.bConstraints = qap'.bConstraints

/-- One column of recorded terms. -/
theorem Records.terms_lt {v : List (Term F)} {constraints : List (Constraint F)}
    {f : Constraint F → LinearCombination F} (h : Records v (constraints.map f))
    (hf : ∀ abc, f abc ∈ [abc.1, abc.2.1, abc.2.2]) {numInputs numAux : ℕ}
    (hallocated : ∀ abc ∈ constraints, abc.Allocated numInputs numAux) :
    ∀ t ∈ v, t.1.variable numInputs < numInputs + numAux ∧ t.2.2 < constraints.length := by
  intro t ht
  obtain ⟨hk, lc, hlc, hmem⟩ := h.1 t ht
  obtain ⟨abc, habc, rfl⟩ := List.mem_map.mp hlc
  rw [List.length_map] at hk
  exact ⟨Index.variable_lt (hallocated abc habc _ (hf abc) _ hmem), hk⟩

theorem Records.combination {v : List (Term F)} {constraints : List (Constraint F)}
    {f : Constraint F → LinearCombination F} (h : Records v (constraints.map f)) {p vars : ℕ}
    (hv : ∀ t ∈ v, t.1.variable p < vars) {rows : Rows F} (horder : rows.Perm (collect v p).1)
    (x : ℕ → F) {u : ℕ} (hu : u < constraints.length) :
    combination rows vars x u = (f constraints[u]).value p x := by
  rw [combination_collect hv horder, h.2,
    List.getD_eq_getElem _ _ (by rwa [List.length_map]), List.getElem_map]

/-- **THE PIPELINE**: an assignment extracted from a circuit that it satisfies, and the QAP
    extracted from the same circuit, make an honest prover. -/
theorem honest_of_extract {G₁ G₂ : Type} [AddCommGroup G₁] [Module F G₁] [AddCommGroup G₂]
    [Module F G₂] {fr : PrimeField F} {params : Parameters G₁ G₂} {t : Trapdoor F} {P : G₁} {Q : G₂}
    {calls : List (Call F)} {cs circuit : AnalyzeCircuit F} {qap : QAP F}
    (hassignments : extract true calls = some cs) (hcircuit : extract false calls = some circuit)
    (hqap : qap.Reordered circuit.qap)
    (hallocated : ∀ abc ∈ enforced calls, abc.Allocated cs.numInputs cs.numAux)
    (hholds : ∀ abc ∈ enforced calls,
      abc.Holds cs.numInputs (assignment cs.inputAssignment cs.auxAssignment))
    (hstandard : params.Standard fr t P Q qap cs.numInputs cs.numAux cs.numConstraints)
    (hroots : cs.numConstraints ≤ 2 ^ fr.S) :
    Honest fr params t P Q qap cs.inputAssignment cs.auxAssignment cs.numConstraints := by
  obtain rfl := Option.some.inj (hcircuit.symm.trans (extract_forget hassignments))
  have h := extract_extracting hassignments
  generalize hconstraints :
    enforced calls ++ (List.range cs.numInputs).map inputConstraint = constraints at h
  have hall : ∀ abc ∈ constraints, abc.Allocated cs.numInputs cs.numAux := by
    subst hconstraints
    intro abc habc
    rcases List.mem_append.mp habc with habc | habc
    · exact hallocated abc habc
    · obtain ⟨i, hi, rfl⟩ := List.mem_map.mp habc
      exact inputConstraint_allocated cs.numAux (List.mem_range.mp hi)
  have hsat : ∀ abc ∈ constraints,
      abc.Holds cs.numInputs (assignment cs.inputAssignment cs.auxAssignment) := by
    subst hconstraints
    intro abc habc
    rcases List.mem_append.mp habc with habc | habc
    · exact hholds abc habc
    · obtain ⟨i, -, rfl⟩ := List.mem_map.mp habc
      exact inputConstraint_holds _ i _
  have ha := h.recorded.aT.terms_lt (fun abc => by simp) hall
  have hb := h.recorded.bT.terms_lt (fun abc => by simp) hall
  have hc := h.recorded.cT.terms_lt (fun abc => by simp) hall
  rw [← h.recorded.count] at ha hb hc
  rw [← h.inputs, ← h.aux] at hstandard
  refine ⟨⟨?_, ?_, ?_⟩, ?_, ?_, hstandard, h.one, ?_, hroots⟩
  rotate_right
  · intro u hu
    have hlt : u < constraints.length := h.recorded.count ▸ hu
    rw [h.inputs, h.aux,
      h.recorded.aT.combination (fun t ht => (ha t ht).1) hqap.a _ hlt,
      h.recorded.bT.combination (fun t ht => (hb t ht).1) hqap.b _ hlt,
      h.recorded.cT.combination (fun t ht => (hc t ht).1) hqap.c _ hlt]
    exact hsat _ (List.getElem_mem hlt)
  all_goals rw [h.inputs, h.aux]
  · exact collect_fits ha hqap.a
  · exact collect_fits hb hqap.b
  · exact collect_fits hc hqap.c
  · rw [hqap.aConstraints]
    exact (collect_lists (fun t ht => (ha t ht).1)).perm hqap.a
  · rw [hqap.bConstraints]
    exact (collect_lists (fun t ht => (hb t ht).1)).perm hqap.b

end Circuit

end Albus.Groth16
