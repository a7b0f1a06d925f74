import Albus.Lib.Bytes
import Mathlib.Data.List.Nodup

/-! # Signal layout of a circuit's public inputs

    `utils/circuit.rs`.  A circuit lists its outputs and public signals as
    strings `name[d1]...[dk]`; `Signals::new` gives every name the span of
    public-input slots it occupies.  A later signal of the same name replaces
    the earlier one in the map, but keeps its own slots.  Sizes and the running
    count are `usize`: the program is built with overflow checks, so a product
    or a sum past `usize::MAX` aborts it (`none`). -/

namespace Albus.Program

open Albus.Lib

/-- `usize::MAX` on the 64-bit target. -/
def usizeMax : Nat := 2 ^ 64 - 1

def checkedUsize (n : Nat) : Option Nat :=
  if n ≤ usizeMax then some n else none

theorem checkedUsize_eq_some {n m : Nat} (h : checkedUsize n = some m) : m = n := by
  rw [checkedUsize] at h
  split at h
  · exact (Option.some.inj h).symm
  · exact nomatch h

theorem checkedUsize_le {n m : Nat} (h : checkedUsize n = some m) : n ≤ usizeMax := by
  rw [checkedUsize] at h
  split at h
  · assumption
  · exact nomatch h

/-- Digits only, at least one of them. -/
def parseDigits (cs : List Char) : Option Nat :=
  if cs ≠ [] ∧ cs.all Char.isDigit then
    some (cs.foldl (fun acc c => acc * 10 + (c.toNat - '0'.toNat)) 0)
  else none

/-- `str::parse::<usize>`: one leading `+` is allowed, overflow is an error. -/
def parseUsize (cs : List Char) : Option Nat :=
  let digits := match cs with
    | '+' :: rest => rest
    | cs => cs
  (parseDigits digits).bind checkedUsize

/-- `Signals::parse_signal` on the characters of the string.  The recursion is on
    a strictly shorter suffix, so `fuel` above the length is always enough. -/
def parseSignalAux : Nat → List Char → Option (List Char × Nat)
  | 0, s => some (s, 1)
  | fuel + 1, s =>
      let opn := s.idxOf '['
      let cls := s.idxOf ']'
      if opn < s.length ∧ cls < s.length ∧ opn < cls then
        let name := s.take opn
        match parseUsize ((s.take cls).drop (opn + 1)) with
        | some n => do
            let (_, m) ← parseSignalAux fuel (s.drop (cls + 1))
            let size ← checkedUsize (n * m)
            some (name, size)
        | none => some (name, 1)
      else some (s, 1)

/-- `Signals::parse_signal`: the name and the number of slots of a signal. -/
def parseSignal (s : String) : Option (String × Nat) :=
  (parseSignalAux (s.toList.length + 1) s.toList).map
    (fun (name, size) => (String.ofList name, size))

/-- `SignalValue`: the span of a signal. -/
structure SignalValue where
  index : Nat
  size : Nat
  deriving DecidableEq, Repr

/-- `Signals`.  `data` holds the map's insertions, latest first, so that looking
    a key up finds the latest one, as a `HashMap` does. -/
structure Signals where
  data : List (String × SignalValue)
  count : Nat
  deriving DecidableEq, Repr

namespace Signals

/-- One turn of the loop of `Signals::new`. -/
def push (acc : Signals) (signal : String) : Option Signals := do
  let (name, size) ← parseSignal signal
  let count ← checkedUsize (acc.count + size)
  some { data := (name, { index := acc.count, size }) :: acc.data, count }

/-- `Signals::new`. -/
def new (signals : List String) : Option Signals :=
  signals.foldlM push { data := [], count := 0 }

/-- `Signals::get`. -/
def get (s : Signals) (k : String) : Option SignalValue := s.data.lookup k

end Signals

example : Signals.new ["credentialProof[10]", "timestamp", "encryptedShare[3][4]"]
    = some { data := [("encryptedShare", ⟨11, 12⟩), ("timestamp", ⟨10, 1⟩),
        ("credentialProof", ⟨0, 10⟩)], count := 23 } := by decide

/-! ## Spans are disjoint -/

/-- The spans in `data` fill `[0, count)` from the right: each ends where the
    next newer one begins. -/
def Stacked : List (String × SignalValue) → Nat → Prop
  | [], top => top = 0
  | (_, v) :: rest, top => v.index + v.size = top ∧ Stacked rest v.index

theorem Stacked.end_le {data : List (String × SignalValue)} {top : Nat}
    (h : Stacked data top) : ∀ e ∈ data, e.2.index + e.2.size ≤ top := by
  induction data generalizing top with
  | nil => intro e he; exact nomatch he
  | cons hd rest ih =>
      obtain ⟨name, v⟩ := hd
      intro e he
      rcases List.mem_cons.mp he with heq | hmem
      · subst heq
        exact h.1.le
      · have h1 := ih h.2 e hmem
        have h2 : v.index + v.size = top := h.1
        omega

theorem push_stacked {acc acc' : Signals} {signal : String}
    (h : acc.push signal = some acc') (hs : Stacked acc.data acc.count) :
    Stacked acc'.data acc'.count := by
  rw [Signals.push] at h
  obtain ⟨⟨name, size⟩, -, h⟩ := Option.bind_eq_some_iff.mp h
  obtain ⟨count, hc, h⟩ := Option.bind_eq_some_iff.mp h
  rw [← Option.some.inj h, checkedUsize_eq_some hc]
  exact ⟨rfl, hs⟩

/-- What every turn of the loop preserves holds of the layout. -/
theorem new_invariant {P : Signals → Prop} (h0 : P { data := [], count := 0 })
    (hpush : ∀ acc acc' signal, acc.push signal = some acc' → P acc → P acc')
    {signals : List String} {s : Signals} (h : Signals.new signals = some s) : P s := by
  have key : ∀ (signals : List String) (acc s : Signals),
      signals.foldlM Signals.push acc = some s → P acc → P s := by
    intro signals
    induction signals with
    | nil =>
        intro acc s h hacc
        rw [List.foldlM_nil] at h
        exact Option.some.inj h ▸ hacc
    | cons signal rest ih =>
        intro acc s h hacc
        rw [List.foldlM_cons] at h
        obtain ⟨acc', hp, h⟩ := Option.bind_eq_some_iff.mp h
        exact ih acc' s h (hpush acc acc' signal hp hacc)
  exact key signals _ s h h0

theorem new_stacked {signals : List String} {s : Signals}
    (h : Signals.new signals = some s) : Stacked s.data s.count :=
  new_invariant (P := fun s => Stacked s.data s.count) rfl
    (fun _ _ _ hp hs => push_stacked hp hs) h

theorem new_count_le {signals : List String} {s : Signals}
    (h : Signals.new signals = some s) : s.count ≤ usizeMax := by
  refine new_invariant (P := fun s => s.count ≤ usizeMax) (Nat.zero_le _) ?_ h
  intro acc acc' signal hp _
  obtain ⟨⟨name, size⟩, -, hp⟩ := Option.bind_eq_some_iff.mp hp
  obtain ⟨count, hc, hp⟩ := Option.bind_eq_some_iff.mp hp
  rw [← Option.some.inj hp, checkedUsize_eq_some hc]
  exact checkedUsize_le hc

theorem mem_of_lookup {data : List (String × SignalValue)} {k : String}
    {v : SignalValue} (h : data.lookup k = some v) : (k, v) ∈ data := by
  obtain ⟨l₁, l₂, heq, -⟩ := List.lookup_eq_some_iff.mp h
  rw [heq]
  exact List.mem_append_right l₁ List.mem_cons_self

theorem lookup_disjoint {data : List (String × SignalValue)} {top : Nat}
    (hs : Stacked data top) {k k' : String} (hk : k ≠ k') {v v' : SignalValue}
    (h : data.lookup k = some v) (h' : data.lookup k' = some v') :
    v.index + v.size ≤ v'.index ∨ v'.index + v'.size ≤ v.index := by
  induction data generalizing top with
  | nil => exact nomatch h
  | cons hd rest ih =>
      obtain ⟨name, w⟩ := hd
      rw [List.lookup_cons] at h h'
      by_cases hn : k = name
      · have hn' : (k' == name) = false := by
          rw [beq_eq_false_iff_ne]
          exact fun heq => hk (hn.trans heq.symm)
        rw [hn, beq_self_eq_true] at h
        rw [hn'] at h'
        have hv : w = v := Option.some.inj h
        refine Or.inr ?_
        rw [← hv]
        exact hs.2.end_le _ (mem_of_lookup h')
      · rw [beq_eq_false_iff_ne.mpr hn] at h
        by_cases hn' : k' = name
        · rw [hn', beq_self_eq_true] at h'
          have hv : w = v' := Option.some.inj h'
          refine Or.inl ?_
          rw [← hv]
          exact hs.2.end_le _ (mem_of_lookup h)
        · rw [beq_eq_false_iff_ne.mpr hn'] at h'
          exact ih hs.2 h h'

/-- **DISJOINT SPANS**: two names never share a slot. -/
theorem Signals.get_disjoint {signals : List String} {s : Signals}
    (h : Signals.new signals = some s) {k k' : String} (hk : k ≠ k')
    {v v' : SignalValue} (hv : s.get k = some v) (hv' : s.get k' = some v') :
    v.index + v.size ≤ v'.index ∨ v'.index + v'.size ≤ v.index :=
  lookup_disjoint (new_stacked h) hk hv hv'

/-- No span reaches past the address space. -/
theorem Signals.get_end_le {signals : List String} {s : Signals}
    (h : Signals.new signals = some s) {k : String} {v : SignalValue}
    (hv : s.get k = some v) : v.index + v.size ≤ usizeMax :=
  le_trans ((new_stacked h).end_le _ (mem_of_lookup hv)) (new_count_le h)

/-! ## What a listed signal gets -/

/-- The names a list of signal strings declares, in order. -/
def signalNames (signals : List String) : List String :=
  signals.filterMap (fun signal => (parseSignal signal).map Prod.fst)

theorem push_data {acc acc' : Signals} {signal : String}
    (h : acc.push signal = some acc') : ∃ name size,
      parseSignal signal = some (name, size) ∧
      acc'.data = (name, ⟨acc.count, size⟩) :: acc.data := by
  rw [Signals.push] at h
  obtain ⟨⟨name, size⟩, hp, h⟩ := Option.bind_eq_some_iff.mp h
  obtain ⟨count, -, h⟩ := Option.bind_eq_some_iff.mp h
  exact ⟨name, size, hp, by rw [← Option.some.inj h]⟩

/-- The map's insertions are exactly the declared names, latest first, each with
    the size its string declares. -/
theorem new_data {signals : List String} {s : Signals}
    (h : Signals.new signals = some s) :
    s.data.map Prod.fst = (signalNames signals).reverse ∧
    ∀ signal ∈ signals, ∀ name size, parseSignal signal = some (name, size) →
      ∃ v, (name, v) ∈ s.data ∧ v.size = size := by
  have key : ∀ (signals : List String) (acc s : Signals),
      signals.foldlM Signals.push acc = some s →
      s.data.map Prod.fst = (signalNames signals).reverse ++ acc.data.map Prod.fst
      ∧ (∀ e ∈ acc.data, e ∈ s.data)
      ∧ ∀ signal ∈ signals, ∀ name size, parseSignal signal = some (name, size) →
          ∃ v, (name, v) ∈ s.data ∧ v.size = size := by
    intro signals
    induction signals with
    | nil =>
        intro acc s h
        rw [List.foldlM_nil] at h
        obtain rfl := Option.some.inj h
        exact ⟨rfl, fun e he => he, fun signal hs => nomatch hs⟩
    | cons signal rest ih =>
        intro acc s h
        rw [List.foldlM_cons] at h
        obtain ⟨acc', hpush, h⟩ := Option.bind_eq_some_iff.mp h
        obtain ⟨name, size, hp, hdata⟩ := push_data hpush
        obtain ⟨hmap, hsub, hall⟩ := ih acc' s h
        refine ⟨?_, ?_, ?_⟩
        · have hnames : signalNames (signal :: rest) = name :: signalNames rest := by
            simp [signalNames, hp]
          rw [hmap, hdata, hnames]
          simp
        · intro e he
          exact hsub e (by rw [hdata]; exact List.mem_cons_of_mem _ he)
        · intro signal' hs name' size' hp'
          rcases List.mem_cons.mp hs with heq | hmem
          · rw [heq, hp] at hp'
            obtain ⟨rfl, rfl⟩ := Prod.mk.inj (Option.some.inj hp')
            refine ⟨⟨acc.count, size⟩, hsub _ ?_, rfl⟩
            rw [hdata]
            exact List.mem_cons_self
          · exact hall signal' hmem name' size' hp'
  obtain ⟨hmap, -, hall⟩ := key signals _ s h
  exact ⟨by simpa using hmap, hall⟩

/-- Every listed string of a layout is a declaration. -/
theorem parses_of_new {signals : List String} {s : Signals}
    (h : Signals.new signals = some s) :
    ∀ signal ∈ signals, ∃ name size, parseSignal signal = some (name, size) := by
  have key : ∀ (signals : List String) (acc s : Signals),
      signals.foldlM Signals.push acc = some s →
      ∀ signal ∈ signals, ∃ name size, parseSignal signal = some (name, size) := by
    intro signals
    induction signals with
    | nil =>
        intro acc s _ signal hs
        exact nomatch hs
    | cons signal rest ih =>
        intro acc s h signal' hs
        rw [List.foldlM_cons] at h
        obtain ⟨acc', hpush, h⟩ := Option.bind_eq_some_iff.mp h
        rcases List.mem_cons.mp hs with rfl | hmem
        · obtain ⟨name, size, hp, -⟩ := push_data hpush
          exact ⟨name, size, hp⟩
        · exact ih acc' s h signal' hmem
  exact key signals _ s h

/-- What is in the map is found under its name. -/
theorem exists_lookup {β : Type} {data : List (String × β)} {k : String} {v : β}
    (h : (k, v) ∈ data) : ∃ v', data.lookup k = some v' := by
  refine Option.ne_none_iff_exists'.mp ?_
  intro hnone
  have hne := List.lookup_eq_none_iff.mp hnone _ h
  rw [bne_self_eq_false] at hne
  cases hne

theorem lookup_of_nodup {β : Type} {data : List (String × β)}
    (hn : (data.map Prod.fst).Nodup) {k : String} {v : β}
    (h : (k, v) ∈ data) : data.lookup k = some v := by
  obtain ⟨l₁, l₂, rfl⟩ := List.append_of_mem h
  refine List.lookup_eq_some_iff.mpr ⟨l₁, l₂, rfl, ?_⟩
  intro p hp
  rw [List.map_append, List.map_cons] at hn
  have hdisj := (List.nodup_append.mp hn).2.2 p.1 (List.mem_map_of_mem hp) k
    List.mem_cons_self
  rw [bne_iff_ne]
  exact fun heq => hdisj heq.symm

/-- In a layout of distinct names every listed signal is found with its size. -/
theorem Signals.get_of_mem {signals : List String} {s : Signals}
    (h : Signals.new signals = some s) (hn : (signalNames signals).Nodup)
    {signal name : String} {size : Nat} (hs : signal ∈ signals)
    (hp : parseSignal signal = some (name, size)) :
    ∃ v, s.get name = some v ∧ v.size = size := by
  obtain ⟨hmap, hall⟩ := new_data h
  obtain ⟨v, hv, hsize⟩ := hall signal hs name size hp
  refine ⟨v, lookup_of_nodup ?_ hv, hsize⟩
  rw [hmap]
  exact List.nodup_reverse.mpr hn

end Albus.Program
