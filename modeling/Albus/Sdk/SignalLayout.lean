import Albus.Program.SignalDecls
import Albus.Sdk.ProofInputBuilder
import Mathlib.Data.List.TakeWhile

/-! # One layout on both sides

    The program lays the public signals out in spans, by the products of their
    dimensions; the client reads the same strings into nested arrays, taking one
    input after the other.  A running index stands against a sum of products: the
    value that the client shows under a name, flattened, is what the program has in
    the span of that name. -/

namespace Albus.Sdk

open Albus.Lib Albus.Program

/-! ## getSignals -/

/-- A value of the map.  A number may be `undefined`: an input that is not there. -/
inductive NestedValue where
  | scalar (value : Option ℤ)
  | array (values : List NestedValue)

namespace NestedValue

mutual
/-- The numbers in row-major order. -/
def flatten : NestedValue → List (Option ℤ)
  | scalar value => [value]
  | array values => flattenAll values

def flattenAll : List NestedValue → List (Option ℤ)
  | [] => []
  | value :: values => flatten value ++ flattenAll values
end

/-- What `||=` does not replace. -/
def truthy : NestedValue → Bool
  | scalar none => false
  | scalar (some value) => value ≠ 0
  | array _ => true

/-- A scalar, or an array of values of one shape. -/
def HasShape : List ℕ → NestedValue → Prop
  | [], scalar _ => True
  | d :: dims, array values => values.length = d ∧ ∀ value ∈ values, HasShape dims value
  | _, _ => False

end NestedValue

/-- The names that every object has. -/
def objectPrototype : List String :=
  ["constructor", "__defineGetter__", "__defineSetter__", "hasOwnProperty",
    "__lookupGetter__", "__lookupSetter__", "isPrototypeOf", "propertyIsEnumerable",
    "toString", "valueOf", "__proto__", "toLocaleString"]

/-- The entries of the map, latest first. -/
abbrev SignalMap := List (String × NestedValue)

/-- `map[name]` is truthy. -/
def SignalMap.holds (map : SignalMap) (name : String) : Bool :=
  match map.lookup name with
  | some value => value.truthy
  | none => name ∈ objectPrototype

/-- `Array(size)` -/
def newArray (size : ℤ) : Except String ℕ :=
  if 0 ≤ size ∧ size ≤ maxArrayLength then .ok size.toNat
  else .error "RangeError: Invalid array length"

/-- `inputs[idx++]` -/
def readInput (inputs : List ℤ) (idx : ℕ) : Except String (NestedValue × ℕ) :=
  .ok (.scalar inputs[idx]?, idx + 1)

/-- `Array(n).fill(null).map(() => f())`, where `f` moves the index. -/
def mapTimes (f : ℕ → Except String (NestedValue × ℕ)) :
    ℕ → ℕ → Except String (List NestedValue × ℕ)
  | 0, idx => .ok ([], idx)
  | n + 1, idx => do
      let (value, idx) ← f idx
      let (values, idx) ← mapTimes f n idx
      .ok (value :: values, idx)

mutual
/-- `assignValue`: the value of a signal, and the index after it. -/
def assignValue (inputs : List ℤ) : ParseSignalResult → ℕ → Except String (NestedValue × ℕ)
  | .mk _ size next, idx => assignSized inputs size next idx

def assignSized (inputs : List ℤ) (size : ℤ) :
    Option ParseSignalResult → ℕ → Except String (NestedValue × ℕ)
  | some next, idx => do
      let n ← newArray size
      let (result, idx) ← mapTimes (assignValue inputs next) n idx
      .ok (if size ≤ 1 then result.headD (.scalar none) else .array result, idx)
  | none, idx =>
      if size ≤ 1 then readInput inputs idx
      else do
        let n ← newArray size
        let (result, idx) ← mapTimes (readInput inputs) n idx
        .ok (.array result, idx)
end

/-- A turn of the loop of `getSignals`: `map[sig.name] ||= assignValue(sig)`. -/
def assignSymbol (inputs : List ℤ) (acc : SignalMap × ℕ) (symbol : String) :
    Except String (SignalMap × ℕ) :=
  let sig := parseSignal symbol
  if acc.1.holds sig.name then .ok acc
  else do
    let (value, idx) ← assignValue inputs sig acc.2
    .ok ((sig.name, value) :: acc.1, idx)

def getSignals (symbols : List String) (inputs : List ℤ) : Except String SignalMap := do
  let (map, _) ← symbols.foldlM (assignSymbol inputs) ([], 0)
  .ok map

/-! ## What the client parses -/

/-- What `parseSignal` makes of a declared signal: a chain that ends in an empty name. -/
def parsed (name : String) : List ℕ → ParseSignalResult
  | [] => .mk name 0 none
  | d :: dims => .mk name d (some (parsed "" dims))

@[simp] theorem parsed_name (name : String) (dims : List ℕ) : (parsed name dims).name = name := by
  cases dims <;> rfl

theorem dropWhile_toDigits {p : Char → Bool} {d : ℕ} (h : ∀ c, c.isDigit → p c = false) :
    (Nat.toDigits 10 d).dropWhile p = Nat.toDigits 10 d := by
  cases hdigits : Nat.toDigits 10 d with
  | nil => rfl
  | cons c cs =>
      have hc : c.isDigit :=
        Nat.isDigit_of_mem_toDigits (by decide) (by decide) (hdigits ▸ List.mem_cons_self)
      rw [List.dropWhile_cons_of_neg]
      rw [h c hc]
      decide

theorem isSpace_of_isDigit (c : Char) (h : c.isDigit) : isSpace c = false := by
  simp only [Char.isDigit, Bool.and_eq_true, decide_eq_true_eq] at h
  have hlow : 48 ≤ c.toNat := h.1
  have hhigh : c.toNat ≤ 57 := h.2
  simp only [isSpace, decide_eq_false_iff_not, List.mem_cons, List.not_mem_nil, or_false]
  omega

theorem parseInt_toDigits {d : ℕ} (h : d < JsNumber.maxExact) :
    parseInt (Nat.toDigits 10 d) = some (d : ℤ) := by
  have htake : (Nat.toDigits 10 d).takeWhile Char.isDigit = Nat.toDigits 10 d := by
    rw [List.takeWhile_eq_self_iff]
    intro c hc
    exact Nat.isDigit_of_mem_toDigits (by decide) (by decide) hc
  rw [parseInt, dropWhile_toDigits isSpace_of_isDigit]
  split
  rename_i negative rest heq
  -- the first digit is no sign
  have hsign : (negative, rest) = (false, Nat.toDigits 10 d) := by
    rw [← heq]
    split
    · rename_i rest heq
      have hmem : '-' ∈ Nat.toDigits 10 d := heq ▸ List.mem_cons_self
      exact absurd rfl (ne_of_mem_toDigits hmem rfl)
    · rename_i rest heq
      have hmem : '+' ∈ Nat.toDigits 10 d := heq ▸ List.mem_cons_self
      exact absurd rfl (ne_of_mem_toDigits hmem rfl)
    · rfl
  obtain ⟨rfl, rfl⟩ := Prod.mk.inj hsign
  rw [htake, parseDigits_toDigits]
  show some (JsNumber.ofInt (d : ℤ)) = _
  rw [JsNumber.ofInt, if_pos (Int.natCast_nonneg d), Int.natAbs_natCast, JsNumber.ofNat_of_lt h]

theorem parseSignalAux_dims {name : List Char} (hopen : '[' ∉ name) (hclose : ']' ∉ name)
    {dims : List ℕ} (hmax : ∀ d ∈ dims, d < JsNumber.maxExact) {fuel : ℕ}
    (hfuel : dims.length ≤ fuel) :
    Sdk.parseSignalAux fuel (name ++ dimsText dims) = parsed (String.ofList name) dims := by
  induction dims generalizing name fuel with
  | nil =>
      have hplain : ¬ ((name ++ dimsText []).idxOf '[' < (name ++ dimsText []).length) := by
        rw [List.idxOf_lt_length_iff, dimsText, List.flatMap_nil, List.append_nil]
        exact hopen
      cases fuel with
      | zero => rw [Sdk.parseSignalAux, dimsText, List.flatMap_nil, List.append_nil, parsed]
      | succ fuel =>
          rw [Sdk.parseSignalAux]
          simp only [hplain, false_and, if_false]
          rw [dimsText, List.flatMap_nil, List.append_nil, parsed]
  | cons d dims ih =>
      obtain ⟨fuel, rfl⟩ : ∃ m, fuel = m + 1 := ⟨fuel - 1, by simp at hfuel; omega⟩
      have hnone : ∀ c : Char, c ∉ ([] : List Char) := fun c => List.not_mem_nil
      have htail := ih (hnone '[') (hnone ']')
        (fun d' hd' => hmax d' (List.mem_cons_of_mem _ hd')) (Nat.le_of_succ_le_succ hfuel)
      obtain ⟨hidx, hidx'⟩ := idxOf_brackets hopen hclose d (dimsText dims)
      obtain ⟨hname, hdigits, hdrop, hlt, hlen⟩ := cut_brackets name d (dimsText dims)
      rw [dimsText, List.flatMap_cons]
      show Sdk.parseSignalAux (fuel + 1) (name ++ (dimText d ++ dimsText dims)) = _
      rw [Sdk.parseSignalAux]
      simp only [hidx, hidx', hlen, hlt, hlt.trans hlen, and_self, if_true, hname, hdigits, hdrop,
        parseInt_toDigits (hmax d List.mem_cons_self)]
      rw [List.nil_append] at htail
      rw [htail]
      rfl

theorem parseSignal_parsed {decl : SignalDecl}
    (hmax : ∀ d ∈ decl.dims, d < JsNumber.maxExact) :
    Sdk.parseSignal decl.text = parsed decl.name decl.dims := by
  have hfuel : decl.dims.length ≤ decl.text.toList.length + 1 := by
    have hle := length_le_length_dimsText decl.dims
    rw [SignalDecl.text, String.toList_ofList, List.length_append]
    omega
  rw [Sdk.parseSignal]
  rw [SignalDecl.text, String.toList_ofList] at hfuel ⊢
  rw [parseSignalAux_dims decl.name_open decl.name_close hmax hfuel, String.ofList_toList]

/-! ## What the client assigns -/

/-- The inputs of a span, as the flattening gives them. -/
def spanInputs (inputs : List ℤ) (start size : ℕ) : List (Option ℤ) :=
  ((inputs.drop start).take size).map some

theorem spanInputs_add (inputs : List ℤ) (start m n : ℕ) :
    spanInputs inputs start (m + n)
      = spanInputs inputs start m ++ spanInputs inputs (start + m) n := by
  rw [spanInputs, spanInputs, spanInputs, List.take_add, List.map_append, List.drop_drop]

/-- The value holds the inputs of a span, in the shape of the dimensions; a dimension of
    one is not shown. -/
structure Holds (inputs : List ℤ) (start : ℕ) (dims : List ℕ) (value : NestedValue) : Prop where
  flatten : value.flatten = spanInputs inputs start dims.prod
  shape : value.HasShape (dims.filter fun d => 1 < d)

/-- A map that fills one span after the other, of one shape. -/
theorem mapTimes_holds {inputs : List ℤ} {dims : List ℕ}
    {f : ℕ → Except String (NestedValue × ℕ)}
    (hf : ∀ idx, idx + dims.prod ≤ inputs.length →
      ∃ value, f idx = .ok (value, idx + dims.prod) ∧ Holds inputs idx dims value)
    (n idx : ℕ) (hlen : idx + n * dims.prod ≤ inputs.length) :
    ∃ values, mapTimes f n idx = .ok (values, idx + n * dims.prod) ∧ values.length = n ∧
      NestedValue.flattenAll values = spanInputs inputs idx (n * dims.prod) ∧
      ∀ value ∈ values, value.HasShape (dims.filter fun d => 1 < d) := by
  induction n generalizing idx with
  | zero =>
      refine ⟨[], ?_, rfl, ?_, fun value hvalue => nomatch hvalue⟩
      · rw [mapTimes, Nat.zero_mul, Nat.add_zero]
      · rw [Nat.zero_mul, NestedValue.flattenAll, spanInputs, List.take_zero, List.map_nil]
  | succ n ih =>
      have hsucc : (n + 1) * dims.prod = dims.prod + n * dims.prod := by
        rw [Nat.succ_mul, Nat.add_comm]
      rw [hsucc] at hlen ⊢
      obtain ⟨value, hvalue, hholds⟩ := hf idx (by omega)
      obtain ⟨values, hvalues, hcount, hflat, hshapes⟩ := ih (idx + dims.prod) (by omega)
      refine ⟨value :: values, ?_, ?_, ?_, ?_⟩
      · rw [mapTimes, hvalue]
        show (mapTimes f n (idx + dims.prod) >>= _) = _
        rw [hvalues, ← Nat.add_assoc]
        rfl
      · rw [List.length_cons, hcount]
      · rw [NestedValue.flattenAll, hholds.flatten, hflat, spanInputs_add]
      · exact List.forall_mem_cons.mpr ⟨hholds.shape, hshapes⟩

/-- **ONE SIGNAL.**  The value of a declared signal holds the next inputs, as many as its
    dimensions multiply to, and the index moves past them. -/
theorem assignValue_holds {inputs : List ℤ} {dims : List ℕ} (hpos : ∀ d ∈ dims, 0 < d)
    (hmax : ∀ d ∈ dims, d ≤ maxArrayLength) (name : String) (idx : ℕ)
    (hlen : idx + dims.prod ≤ inputs.length) :
    ∃ value, assignValue inputs (parsed name dims) idx = .ok (value, idx + dims.prod) ∧
      Holds inputs idx dims value := by
  induction dims generalizing name idx with
  | nil =>
      rw [List.prod_nil] at hlen ⊢
      have hidx : idx < inputs.length := by omega
      refine ⟨.scalar inputs[idx]?, ?_, ?_, ?_⟩
      · rw [parsed, assignValue, assignSized, if_pos (by decide), readInput]
      · rw [NestedValue.flatten, spanInputs, List.prod_nil, List.take_one, List.head?_drop,
          List.getElem?_eq_getElem hidx]
        rfl
      · exact trivial
  | cons d dims ih =>
      have hd := hpos d List.mem_cons_self
      have harray : newArray d = .ok d := by
        have hle := hmax d List.mem_cons_self
        rw [newArray, if_pos ⟨Int.natCast_nonneg d, Int.ofNat_le.mpr hle⟩, Int.toNat_natCast]
      rw [List.prod_cons] at hlen ⊢
      obtain ⟨values, hvalues, hcount, hflat, hshapes⟩ :=
        mapTimes_holds (ih (fun d' hd' => hpos d' (List.mem_cons_of_mem _ hd'))
          (fun d' hd' => hmax d' (List.mem_cons_of_mem _ hd')) "") d idx hlen
      have hassign : assignValue inputs (parsed name (d :: dims)) idx
          = .ok (if (d : ℤ) ≤ 1 then values.headD (.scalar none) else .array values,
            idx + d * dims.prod) := by
        rw [parsed, assignValue, assignSized, harray]
        show (mapTimes _ d idx >>= _) = _
        rw [hvalues]
        rfl
      refine ⟨_, hassign, ?_⟩
      by_cases hone : d = 1
      · -- an array of one element is that element
        subst hone
        obtain ⟨value, rfl⟩ := List.length_eq_one_iff.mp hcount
        rw [if_pos (by decide)]
        refine ⟨?_, ?_⟩
        · rw [NestedValue.flattenAll, NestedValue.flattenAll, List.append_nil] at hflat
          rw [List.prod_cons]
          exact hflat
        · rw [List.filter_cons_of_neg (by decide)]
          exact hshapes value List.mem_cons_self
      · have hlt : 1 < d := by omega
        rw [if_neg (by omega)]
        refine ⟨?_, ?_⟩
        · rw [NestedValue.flatten, List.prod_cons]
          exact hflat
        · rw [List.filter_cons_of_pos (p := fun d => decide (1 < d)) (decide_eq_true hlt)]
          exact ⟨hcount, hshapes⟩

/-- A name that no earlier signal took is assigned. -/
theorem not_holds {map : SignalMap} {name : String} (hmap : name ∉ map.map Prod.fst)
    (hproto : name ∉ objectPrototype) : map.holds name = false := by
  have hnone : map.lookup name = none := by
    rw [List.lookup_eq_none_iff]
    intro entry hentry
    rw [bne_iff_ne]
    rintro rfl
    exact hmap (List.mem_map_of_mem hentry)
  rw [SignalMap.holds, hnone]
  exact decide_eq_false hproto

/-- The loop of `getSignals` on declared signals of new names. -/
theorem foldlM_assignSymbol {inputs : List ℤ} {decls : List SignalDecl}
    (hmax : ∀ decl ∈ decls, ∀ d ∈ decl.dims, d ≤ maxArrayLength) (map : SignalMap) (idx : ℕ)
    (hnames : (map.map Prod.fst ++ decls.map SignalDecl.name).Nodup)
    (hproto : ∀ decl ∈ decls, decl.name ∉ objectPrototype)
    (hlen : idx + totalSize decls ≤ inputs.length) :
    ∃ values : SignalMap, (decls.map SignalDecl.text).foldlM (assignSymbol inputs) (map, idx)
        = .ok (values.reverse ++ map, idx + totalSize decls) ∧
      values.map Prod.fst = decls.map SignalDecl.name ∧
      ∀ before decl after, decls = before ++ decl :: after → ∃ value,
        (decl.name, value) ∈ values ∧ Holds inputs (idx + totalSize before) decl.dims value := by
  induction decls generalizing map idx with
  | nil =>
      refine ⟨[], rfl, rfl, ?_⟩
      intro before decl after heq
      exact absurd heq (by simp)
  | cons decl decls ih =>
      have htotal : totalSize (decl :: decls) = decl.size + totalSize decls := by
        rw [totalSize, List.map_cons, List.sum_cons]
        rfl
      rw [htotal] at hlen ⊢
      have hdims := hmax decl List.mem_cons_self
      have hparsed : Sdk.parseSignal decl.text = parsed decl.name decl.dims := by
        refine parseSignal_parsed fun d hd => (hdims d hd).trans_lt ?_
        decide
      have hfresh : map.holds decl.name = false := by
        refine not_holds ?_ (hproto decl List.mem_cons_self)
        intro hmem
        exact (List.nodup_append.mp hnames).2.2 decl.name hmem decl.name List.mem_cons_self rfl
      obtain ⟨value, hassign, hholds⟩ := assignValue_holds decl.dims_pos hdims decl.name idx
        (le_trans (Nat.add_le_add_left (Nat.le_add_right _ _) idx) hlen)
      have hstep : assignSymbol inputs (map, idx) decl.text
          = .ok ((decl.name, value) :: map, idx + decl.size) := by
        rw [assignSymbol, hparsed, parsed_name]
        simp only [hfresh, Bool.false_eq_true, if_false]
        rw [hassign]
        rfl
      have hnames' : (((decl.name, value) :: map).map Prod.fst
          ++ decls.map SignalDecl.name).Nodup :=
        (List.perm_middle.nodup_iff).mp hnames
      obtain ⟨values, hrun, hfst, hall⟩ := ih
        (fun d hd => hmax d (List.mem_cons_of_mem _ hd)) _ (idx + decl.size) hnames'
        (fun d hd => hproto d (List.mem_cons_of_mem _ hd)) (by omega)
      refine ⟨(decl.name, value) :: values, ?_, ?_, ?_⟩
      · rw [List.map_cons, List.foldlM_cons, hstep]
        show List.foldlM _ _ _ = _
        rw [hrun, List.reverse_cons, List.append_assoc, Nat.add_assoc]
        rfl
      · rw [List.map_cons, List.map_cons, hfst]
      · intro before decl' after heq
        cases before with
        | nil =>
            obtain ⟨rfl, rfl⟩ := List.cons.inj heq
            exact ⟨value, List.mem_cons_self, hholds⟩
        | cons first before =>
            obtain ⟨rfl, rfl⟩ := List.cons.inj heq
            obtain ⟨value', hmem, hholds'⟩ := hall before decl' after rfl
            refine ⟨value', List.mem_cons_of_mem _ hmem, ?_⟩
            rw [totalSize, List.map_cons, List.sum_cons, ← Nat.add_assoc]
            exact hholds'

/-- No array is longer. -/
abbrev JsArray (α : Type) := { l : List α // l.length ≤ maxArrayLength }

theorem le_totalSize {decls : List SignalDecl} {decl : SignalDecl} (h : decl ∈ decls) :
    ∀ d ∈ decl.dims, d ≤ totalSize decls := by
  intro d hd
  have hprod : d ≤ decl.size :=
    Nat.le_of_dvd (List.prod_pos decl.dims_pos) (List.dvd_prod hd)
  exact hprod.trans (List.single_le_sum (fun _ _ => Nat.zero_le _) _
    (List.mem_map_of_mem h))

/-- **ONE SIGNAL LAYOUT.**  For every list of declared signals with distinct names that
    are no names of every object, and all inputs at least as many: the program gives the
    signals consecutive spans that fill its layout, each as long as the product of the
    dimensions, and the client gives each name a value that holds exactly the inputs of
    the program's span of that name. -/
theorem one_signal_layout (decls : List SignalDecl)
    (hnames : (decls.map SignalDecl.name).Nodup)
    (hproto : ∀ decl ∈ decls, decl.name ∉ objectPrototype) (inputs : JsArray ℤ)
    (hlen : totalSize decls ≤ inputs.val.length) :
    ∃ signals map, Signals.new (decls.map SignalDecl.text) = some signals ∧
      getSignals (decls.map SignalDecl.text) inputs.val = .ok map ∧
      signals.count = totalSize decls ∧
      ∀ before decl after, decls = before ++ decl :: after →
        signals.get decl.name = some ⟨totalSize before, decl.dims.prod⟩ ∧
        ∃ value, map.lookup decl.name = some value ∧
          value.flatten
            = ((inputs.val.drop (totalSize before)).take decl.dims.prod).map some ∧
          value.HasShape (decl.dims.filter fun d => 1 < d) := by
  have hmax : ∀ decl ∈ decls, ∀ d ∈ decl.dims, d ≤ maxArrayLength := by
    intro decl hdecl d hd
    exact ((le_totalSize hdecl d hd).trans hlen).trans inputs.property
  have hfits : totalSize decls ≤ usizeMax :=
    (hlen.trans inputs.property).trans (by decide)
  obtain ⟨values, hrun, hfst, hall⟩ := foldlM_assignSymbol hmax [] 0 hnames hproto
    (by rw [Nat.zero_add]; exact hlen)
  rw [List.append_nil] at hrun
  refine ⟨_, values.reverse, new_texts hfits, ?_, rfl, ?_⟩
  · rw [getSignals, hrun]
    rfl
  · rintro before decl after rfl
    obtain ⟨value, hmem, hholds⟩ := hall before decl after rfl
    rw [Nat.zero_add] at hholds
    refine ⟨get_span hnames rfl, value, ?_, hholds.flatten, hholds.shape⟩
    refine lookup_of_nodup ?_ (List.mem_reverse.mpr hmem)
    rw [List.map_reverse, hfst]
    exact List.nodup_reverse.mpr hnames

namespace LayoutSample

def minAge : SignalDecl := ⟨"minAge", [], by decide, by decide, by decide⟩

def issuerPk : SignalDecl := ⟨"issuerPk", [2], by decide, by decide, by decide⟩

def encryptedShare : SignalDecl := ⟨"encryptedShare", [3, 1, 4], by decide, by decide, by decide⟩

/-- The inputs 0, 1, 2, and so on. -/
def inputs : JsArray ℤ := ⟨(List.range 16).map fun n => (n : ℤ), by decide⟩

end LayoutSample

open LayoutSample in
theorem one_signal_layout_sample :
    ∃ signals map, Signals.new ["minAge", "issuerPk[2]", "encryptedShare[3][1][4]"]
        = some signals ∧
      getSignals ["minAge", "issuerPk[2]", "encryptedShare[3][1][4]"] inputs.val = .ok map ∧
      signals.count = 15 ∧ signals.get "encryptedShare" = some ⟨3, 12⟩ ∧
      ∃ value, map.lookup "encryptedShare" = some value ∧ value.HasShape [3, 4] ∧
        value.flatten = [3, 4, 5, 6, 7, 8, 9, 10, 11, 12, 13, 14].map some := by
  obtain ⟨signals, map, hnew, hget, hcount, hall⟩ :=
    one_signal_layout [minAge, issuerPk, encryptedShare] (by decide) (by decide) inputs
      (by decide)
  obtain ⟨hspan, value, hvalue, hflat, hshape⟩ := hall [minAge, issuerPk] encryptedShare [] rfl
  have htexts : [minAge, issuerPk, encryptedShare].map SignalDecl.text
      = ["minAge", "issuerPk[2]", "encryptedShare[3][1][4]"] := by decide
  rw [htexts] at hnew hget
  exact ⟨signals, map, hnew, hget, hcount, hspan, value, hvalue, hshape, hflat⟩

end Albus.Sdk
