import Albus.Sdk.SignalLayout

/-! # Signal names out of a symbol file

    `loadSignals` reads the symbol file of a compiled circuit line by line, keeps the
    last line of every signal, and takes its indices for the dimensions less one, the
    first two of them, an index of zero for no dimension.  The program lays the public
    inputs out by the names it makes of that.  They describe the signals exactly where
    nothing is lost: no third dimension counts, and no dimension counts behind a first
    one of length one. -/

namespace Albus.Circuits

open Albus.Lib Albus.Program Albus.Sdk

/-! ## utils.ts -/

/-- `signal.next` -/
def next : ParseSignalResult → Option ParseSignalResult
  | .mk _ _ next => next

inductive SignalType where
  | output
  | pub
  | prv
  deriving DecidableEq

/-- What `loadSignals` keeps of a name. -/
structure LoadedSignal where
  sig : ParseSignalResult
  type : SignalType

/-- An object with its own keys in the order they were added.  No key is an array index,
    which would come first. -/
abbrev SignalObject := List (String × LoadedSignal)

/-- `acc[key] = value`; `__proto__` is no key but the object's prototype. -/
def setKey (acc : SignalObject) (key : String) (value : LoadedSignal) : SignalObject :=
  if key = "__proto__" then acc
  else if key ∈ acc.map Prod.fst then
    acc.map fun entry => if entry.1 = key then (key, value) else entry
  else acc ++ [(key, value)]

/-- `Number(s)` of a decimal, or of nothing at all; `none` for `NaN`. -/
def number (s : List Char) : Option ℕ :=
  if s = [] then some 0 else (parseDigits s).map JsNumber.ofNat

/-- `s.replace('main.', '')`: the first one. -/
def dropMain : List Char → List Char
  | [] => []
  | c :: cs =>
      if "main.".toList.isPrefixOf (c :: cs) then (c :: cs).drop "main.".toList.length
      else c :: dropMain cs

/-- `parseSignal` on characters; the function is the one of the SDK. -/
def parseSignal (s : List Char) : ParseSignalResult := Sdk.parseSignal (String.ofList s)

/-- The callback of `loadSymbols`, for one symbol. -/
def applySymbol (nOutputs nPubInputs : ℕ) (acc : SignalObject) (idx : Option ℕ)
    (name : List Char) : SignalObject :=
  let sig := parseSignal (dropMain name)
  if sig.name = "" then acc
  else
    let type :=
      match idx with
      | none => SignalType.prv
      | some idx =>
          if idx ≤ nOutputs then .output
          else if idx ≤ nOutputs + nPubInputs then .pub
          else .prv
    setKey acc sig.name ⟨sig, type⟩

/-- A turn of `reduce` in `loadSymbols`. -/
def loadSymbol (nOutputs nPubInputs : ℕ) (acc : SignalObject) (line : List Char) :
    SignalObject :=
  match line.splitOn ',' with
  | idx :: _ :: _ :: name :: _ => applySymbol nOutputs nPubInputs acc (number idx) name
  | _ => acc

/-- `loadSymbols`, with the callback of `loadSignals`. -/
def loadSymbols (symData : String) (nOutputs nPubInputs limit : ℕ) : SignalObject :=
  ((symData.toList.splitOn '\n').take limit).foldl (loadSymbol nOutputs nPubInputs) []

/-- `[size + 1]`, for a positive size. -/
def sizeText (size : ℤ) : List Char := dimText (JsNumber.ofInt (size + 1)).toNat

/-- The input string of a loaded signal. -/
def inputText (name : String) (sig : ParseSignalResult) : String :=
  String.ofList (name.toList ++
    if 0 < sig.size then
      sizeText sig.size ++
        match next sig with
        | some next => if 0 < next.size then sizeText next.size else []
        | none => []
    else [])

structure LoadedSignals where
  output : List String
  pub : List String
  prv : List String
  deriving DecidableEq

/-- `loadSignals` -/
def loadSignals (symData : String) (nOutputs nPubInputs nPrvInputs : ℕ) : LoadedSignals :=
  let signals := loadSymbols symData nOutputs nPubInputs (nOutputs + nPubInputs + nPrvInputs)
  let inputs (type : SignalType) : List String :=
    (signals.filter fun entry => entry.2.type = type).map fun entry =>
      inputText entry.1 entry.2.sig
  { output := inputs .output
    pub := inputs .pub
    prv := inputs .prv }

example : loadSignals
    "1,1,3,main.b\n2,2,3,main.a[0]\n3,3,3,main.a[1]\n4,4,3,main.k\n5,5,2,main.n.in" 1 2 1
    = ⟨["b"], ["a[2]"], ["k"]⟩ := by decide +kernel

/-! ## Symbol files -/

/-- `[$_]*[a-zA-Z][a-zA-Z$_0-9]*` -/
def IsIdentifier (s : List Char) : Prop :=
  (∀ c ∈ s, c.isAlphanum ∨ c = '_' ∨ c = '$') ∧
  ∃ c cs, s.dropWhile (fun c => c = '_' ∨ c = '$') = c :: cs ∧ c.isAlpha

/-- An output or an input of the main component. -/
structure MainSignal extends SignalDecl where
  identifier : IsIdentifier name.toList

/-- The indices of an array in row-major order. -/
def indices : List ℕ → List (List ℕ)
  | [] => [[]]
  | d :: dims => (List.range d).flatMap fun i => (indices dims).map (i :: ·)

/-- `main.name[i1]...[ik]` -/
def symbolName (decl : MainSignal) (ix : List ℕ) : List Char :=
  "main.".toList ++ (decl.name.toList ++ dimsText ix)

/-- The symbols of the signals, numbered from `start`. -/
def symbolsFrom (start : ℕ) : List MainSignal → List (ℕ × List Char)
  | [] => []
  | decl :: decls =>
      ((indices decl.dims).zipIdx start).map (fun e => (e.2, symbolName decl e.1))
        ++ symbolsFrom (start + decl.size) decls

/-- A line of a symbol file; two of its fields are not used. -/
structure SymbolLine where
  idx : ℕ
  varIdx : List Char
  componentIdx : List Char
  name : List Char
  varIdx_plain : ',' ∉ varIdx ∧ '\n' ∉ varIdx
  componentIdx_plain : ',' ∉ componentIdx ∧ '\n' ∉ componentIdx

def SymbolLine.text (line : SymbolLine) : List Char :=
  [','].intercalate [Nat.toDigits 10 line.idx, line.varIdx, line.componentIdx, line.name]

/-- The slots of a list of signals. -/
def slots (decls : List MainSignal) : ℕ :=
  totalSize (decls.map MainSignal.toSignalDecl)

/-- The symbol file of a circuit: the signals of the main component one after the other,
    numbered from one, and then whatever else it has. -/
structure SymbolFile where
  outputs : List MainSignal
  pubInputs : List MainSignal
  prvInputs : List MainSignal
  lines : List SymbolLine
  rest : List (List Char)
  names : ((outputs ++ pubInputs ++ prvInputs).map fun decl => decl.name).Nodup
  symbols : lines.map (fun line => (line.idx, line.name))
    = symbolsFrom 1 (outputs ++ pubInputs ++ prvInputs)
  rest_plain : ∀ line ∈ rest, '\n' ∉ line
  /-- No string is longer. -/
  length : (['\n'].intercalate (lines.map SymbolLine.text ++ rest)).length < 2 ^ 53

namespace SymbolFile

def text (file : SymbolFile) : String :=
  String.ofList (['\n'].intercalate (file.lines.map SymbolLine.text ++ file.rest))

/-- What `loadSignals` makes of the file, with the numbers the compiler reports. -/
def loaded (file : SymbolFile) : LoadedSignals :=
  loadSignals file.text (slots file.outputs) (slots file.pubInputs) (slots file.prvInputs)

/-- The outputs and public inputs: what the program lays out. -/
def laidOut (file : SymbolFile) : List MainSignal := file.outputs ++ file.pubInputs

/-- The loaded names describe the layout: parsed by the program they give every output
    and public input its index and size, and as many slots as there are. -/
def Describes (file : SymbolFile) : Prop :=
  ∃ signals, Signals.new (file.loaded.output ++ file.loaded.pub) = some signals ∧
    signals.count = slots file.outputs + slots file.pubInputs ∧
    ∀ before decl after, file.laidOut = before ++ decl :: after →
      signals.get decl.name = some ⟨slots before, decl.size⟩

end SymbolFile

/-! ## The lines -/

theorem IsIdentifier.notMem {s : List Char} (h : IsIdentifier s) {c : Char}
    (hc : c.isAlphanum = false) (hunderscore : c ≠ '_') (hdollar : c ≠ '$') : c ∉ s := by
  intro hmem
  rcases h.1 c hmem with halpha | heq | heq
  · rw [hc] at halpha
    exact nomatch halpha
  · exact hunderscore heq
  · exact hdollar heq

theorem IsIdentifier.ne_nil {s : List Char} (h : IsIdentifier s) : s ≠ [] := by
  rintro rfl
  obtain ⟨c, cs, heq, -⟩ := h.2
  exact nomatch heq

theorem notMem_dimsText {c : Char} (hdigit : c.isDigit = false) (hopen : c ≠ '[')
    (hclose : c ≠ ']') (ix : List ℕ) : c ∉ dimsText ix := by
  intro hmem
  obtain ⟨d, -, hd⟩ := List.mem_flatMap.mp hmem
  rcases List.mem_cons.mp hd with heq | hmem
  · exact hopen heq
  · rcases List.mem_append.mp hmem with hdigits | hlast
    · exact ne_of_mem_toDigits hdigits hdigit rfl
    · exact hclose (List.mem_singleton.mp hlast)

/-- What separates fields and lines is in no name. -/
theorem notMem_symbolName {c : Char} (hc : c = ',' ∨ c = '\n') (decl : MainSignal)
    (ix : List ℕ) : c ∉ symbolName decl ix := by
  have hname : c ∉ decl.name.toList := by
    rcases hc with rfl | rfl
    · exact decl.identifier.notMem rfl (by decide) (by decide)
    · exact decl.identifier.notMem rfl (by decide) (by decide)
  have hdims : c ∉ dimsText ix := by
    rcases hc with rfl | rfl
    · exact notMem_dimsText rfl (by decide) (by decide) ix
    · exact notMem_dimsText rfl (by decide) (by decide) ix
  have hmain : c ∉ "main.".toList := by
    rcases hc with rfl | rfl
    · decide
    · decide
  rw [symbolName, List.mem_append, List.mem_append]
  rintro (h | h | h)
  · exact hmain h
  · exact hname h
  · exact hdims h

theorem mem_symbolsFrom {start : ℕ} {decls : List MainSignal} {e : ℕ × List Char}
    (h : e ∈ symbolsFrom start decls) : ∃ decl ∈ decls, ∃ ix, e.2 = symbolName decl ix := by
  induction decls generalizing start with
  | nil => exact nomatch h
  | cons decl decls ih =>
      rcases List.mem_append.mp h with hmem | hmem
      · obtain ⟨e', -, rfl⟩ := List.mem_map.mp hmem
        exact ⟨decl, List.mem_cons_self, e'.1, rfl⟩
      · obtain ⟨decl', hdecl', ix, heq⟩ := ih hmem
        exact ⟨decl', List.mem_cons_of_mem _ hdecl', ix, heq⟩

theorem length_indices (dims : List ℕ) : (indices dims).length = dims.prod := by
  induction dims with
  | nil => rfl
  | cons d dims ih =>
      rw [indices, List.prod_cons, List.length_flatMap]
      simp only [List.length_map, ih, List.map_const', List.sum_replicate, List.length_range,
        smul_eq_mul]

theorem length_symbolsFrom (start : ℕ) (decls : List MainSignal) :
    (symbolsFrom start decls).length = slots decls := by
  induction decls generalizing start with
  | nil => rfl
  | cons decl decls ih =>
      rw [symbolsFrom, List.length_append, List.length_map, List.length_zipIdx, length_indices,
        ih, slots, slots, totalSize, totalSize, List.map_cons, List.map_cons, List.sum_cons]
      rfl

/-- The last symbol of a signal has the dimensions less one. -/
theorem indices_eq_concat {dims : List ℕ} (hpos : ∀ d ∈ dims, 0 < d) :
    ∃ ixs, indices dims = ixs ++ [dims.map (· - 1)] := by
  induction dims with
  | nil => exact ⟨[], rfl⟩
  | cons d dims ih =>
      obtain ⟨ixs, hixs⟩ := ih fun d' hd' => hpos d' (List.mem_cons_of_mem _ hd')
      obtain ⟨m, rfl⟩ : ∃ m, d = m + 1 :=
        ⟨d - 1, by have := hpos d List.mem_cons_self; omega⟩
      rw [indices, List.range_succ, List.flatMap_append, List.flatMap_singleton, hixs,
        List.map_append, ← List.append_assoc]
      exact ⟨_, rfl⟩

/-! ## What is loaded -/

theorem length_le_intercalate {ls : List (List Char)} (h : ∀ l ∈ ls, l ≠ [])
    (rest : List (List Char)) : ls.length ≤ (['\n'].intercalate (ls ++ rest)).length := by
  induction ls with
  | nil => exact Nat.zero_le _
  | cons l ls ih =>
      have hl : 1 ≤ l.length := List.length_pos_of_ne_nil (h l List.mem_cons_self)
      have ih := ih fun l' hl' => h l' (List.mem_cons_of_mem _ hl')
      by_cases hnil : ls ++ rest = []
      · rw [List.append_eq_nil_iff] at hnil
        rw [hnil.1, hnil.2, List.singleton_append, List.intercalate_singleton]
        exact hl
      · rw [List.cons_append, List.intercalate_cons_of_ne_nil hnil, List.length_append,
          List.length_append, List.length_cons]
        omega

theorem SymbolLine.text_ne_nil (line : SymbolLine) : line.text ≠ [] := by
  rw [SymbolLine.text, List.intercalate_cons_cons]
  simp

namespace SymbolFile

variable (file : SymbolFile)

/-- All signals of the main component. -/
def signals : List MainSignal := file.outputs ++ file.pubInputs ++ file.prvInputs

theorem length_lines : file.lines.length = slots file.signals := by
  rw [← length_symbolsFrom 1, signals, ← file.symbols, List.length_map]

theorem slots_append (decls decls' : List MainSignal) :
    slots (decls ++ decls') = slots decls + slots decls' := by
  rw [slots, slots, slots, totalSize, totalSize, totalSize, List.map_append, List.map_append,
    List.sum_append]

theorem slots_lt : slots file.signals < 2 ^ 53 := by
  have hle : file.lines.length
      ≤ (['\n'].intercalate (file.lines.map SymbolLine.text ++ file.rest)).length := by
    rw [← List.length_map SymbolLine.text]
    refine length_le_intercalate ?_ _
    intro l hl
    obtain ⟨line, -, rfl⟩ := List.mem_map.mp hl
    exact line.text_ne_nil
  rw [← file.length_lines]
  exact hle.trans_lt file.length

theorem symbolName_of_mem {line : SymbolLine} (h : line ∈ file.lines) :
    ∃ decl ∈ file.signals, ∃ ix, line.name = symbolName decl ix :=
  mem_symbolsFrom (file.symbols ▸ List.mem_map_of_mem h : (line.idx, line.name) ∈ _)

theorem text_plain {line : SymbolLine} (h : line ∈ file.lines) : '\n' ∉ line.text := by
  obtain ⟨decl, -, ix, hname⟩ := file.symbolName_of_mem h
  have hdigits : '\n' ∉ Nat.toDigits 10 line.idx := fun hmem => ne_of_mem_toDigits hmem rfl rfl
  have hlast : '\n' ∉ line.name := hname ▸ notMem_symbolName (Or.inr rfl) decl ix
  rw [SymbolLine.text]
  simp only [List.intercalate_cons_cons, List.intercalate_singleton, List.mem_append,
    List.mem_singleton, not_or]
  exact ⟨⟨hdigits, by decide⟩, ⟨line.varIdx_plain.2, by decide⟩,
    ⟨line.componentIdx_plain.2, by decide⟩, hlast⟩

/-- The lines that are read are those of the main component's signals. -/
theorem take_splitOn :
    (file.text.toList.splitOn '\n').take file.lines.length = file.lines.map SymbolLine.text := by
  rw [text, String.toList_ofList]
  by_cases hnil : file.lines.map SymbolLine.text ++ file.rest = []
  · have hlines : file.lines = [] := by
      rw [List.append_eq_nil_iff, List.map_eq_nil_iff] at hnil
      exact hnil.1
    rw [hlines]
    rfl
  · rw [List.splitOn_intercalate _ _ hnil]
    · exact List.take_left' (List.length_map _)
    · intro l hl
      rcases List.mem_append.mp hl with hmem | hmem
      · obtain ⟨line, hline, rfl⟩ := List.mem_map.mp hmem
        exact file.text_plain hline
      · exact file.rest_plain l hmem

end SymbolFile

/-- A line comes to its symbol. -/
theorem loadSymbol_text {line : SymbolLine} (hname : ',' ∉ line.name)
    (hidx : line.idx < 2 ^ 53) (nOutputs nPubInputs : ℕ) (acc : SignalObject) :
    loadSymbol nOutputs nPubInputs acc line.text
      = applySymbol nOutputs nPubInputs acc (some line.idx) line.name := by
  have hdigits : ',' ∉ Nat.toDigits 10 line.idx := fun hmem => ne_of_mem_toDigits hmem rfl rfl
  have hplain : ∀ l ∈ [Nat.toDigits 10 line.idx, line.varIdx, line.componentIdx, line.name],
      ',' ∉ l := by
    simp only [List.forall_mem_cons]
    exact ⟨hdigits, line.varIdx_plain.1, line.componentIdx_plain.1, hname,
      fun l hl => nomatch hl⟩
  have hnumber : number (Nat.toDigits 10 line.idx) = some line.idx := by
    rw [number, if_neg Nat.toDigits_ne_nil, parseDigits_toDigits, Option.map_some,
      JsNumber.ofNat_of_lt hidx]
  rw [loadSymbol, SymbolLine.text, List.splitOn_intercalate _ hplain (by simp)]
  show applySymbol _ _ _ (number _) _ = _
  rw [hnumber]

/-- The type of a symbol by its number. -/
def typeOf (nOutputs nPubInputs idx : ℕ) : SignalType :=
  if idx ≤ nOutputs then .output
  else if idx ≤ nOutputs + nPubInputs then .pub
  else .prv

theorem dropMain_main (cs : List Char) : dropMain ("main.".toList ++ cs) = cs := rfl

theorem parsed_ne_empty (decl : MainSignal) : decl.name ≠ "" := by
  intro hempty
  refine decl.identifier.ne_nil ?_
  rw [hempty]
  rfl

/-- A symbol is set under the name of its signal. -/
theorem applySymbol_symbolName {decl : MainSignal} {ix : List ℕ}
    (hix : ∀ i ∈ ix, i < JsNumber.maxExact) (nOutputs nPubInputs idx : ℕ)
    (acc : SignalObject) :
    applySymbol nOutputs nPubInputs acc (some idx) (symbolName decl ix)
      = setKey acc decl.name ⟨parsed decl.name ix, typeOf nOutputs nPubInputs idx⟩ := by
  have hparsed : parseSignal (dropMain (symbolName decl ix)) = parsed decl.name ix := by
    rw [symbolName, dropMain_main, parseSignal, Sdk.parseSignal, String.toList_ofList,
      parseSignalAux_dims decl.name_open decl.name_close hix, String.ofList_toList]
    have hle := length_le_length_dimsText ix
    rw [List.length_append]
    omega
  rw [applySymbol, hparsed, parsed_name, if_neg (parsed_ne_empty decl)]
  rfl

/-- Setting a key again keeps its place. -/
theorem setKey_again {acc : SignalObject} {key : String} (hkey : key ≠ "__proto__")
    (hacc : key ∉ acc.map Prod.fst) {st : SignalObject} (value : LoadedSignal)
    (hst : st = acc ∨ ∃ old, st = acc ++ [(key, old)]) :
    setKey st key value = acc ++ [(key, value)] := by
  rcases hst with rfl | ⟨old, rfl⟩
  · rw [setKey, if_neg hkey, if_neg hacc]
  · have hmem : key ∈ (acc ++ [(key, old)]).map Prod.fst := by simp
    have hkeep : acc.map (fun entry => if entry.1 = key then (key, value) else entry) = acc := by
      conv_rhs => rw [← List.map_id acc]
      refine List.map_congr_left fun entry hentry => if_neg ?_
      rintro rfl
      exact hacc (List.mem_map_of_mem hentry)
    rw [setKey, if_neg hkey, if_pos hmem, List.map_append, hkeep, List.map_singleton, if_pos rfl]

/-- What is kept of a signal: the indices of its last symbol. -/
def lastIndices (decl : MainSignal) : List ℕ := decl.dims.map (· - 1)

/-- What is loaded of signals whose symbols are numbered from `start`. -/
def loadedFrom (nOutputs nPubInputs : ℕ) (start : ℕ) : List MainSignal → SignalObject
  | [] => []
  | decl :: decls =>
      (if decl.name = "__proto__" then []
        else [(decl.name, ⟨parsed decl.name (lastIndices decl),
          typeOf nOutputs nPubInputs (start + decl.size - 1)⟩)])
        ++ loadedFrom nOutputs nPubInputs (start + decl.size) decls

/-- A turn of the loop on a symbol, its text put aside. -/
def loadEntry (nOutputs nPubInputs : ℕ) (acc : SignalObject) (e : ℕ × List Char) :
    SignalObject :=
  applySymbol nOutputs nPubInputs acc (some e.1) e.2

/-- Every index in the enumeration is below its dimension. -/
theorem lt_of_mem_indices {dims ix : List ℕ} (h : ix ∈ indices dims) {bound : ℕ}
    (hdims : ∀ d ∈ dims, d ≤ bound) : ∀ i ∈ ix, i < bound := by
  induction dims generalizing ix with
  | nil =>
      rw [List.mem_singleton.mp h]
      intro i hi
      exact nomatch hi
  | cons d dims ih =>
      obtain ⟨i, hi, hmem⟩ := List.mem_flatMap.mp h
      obtain ⟨ix', hix', rfl⟩ := List.mem_map.mp hmem
      refine List.forall_mem_cons.mpr ⟨?_, ?_⟩
      · exact (List.mem_range.mp hi).trans_le (hdims d List.mem_cons_self)
      · exact ih hix' fun d' hd' => hdims d' (List.mem_cons_of_mem _ hd')

/-- The symbols of one signal leave one entry, at the end: that of the last. -/
theorem foldl_signal {decl : MainSignal} (hdims : ∀ d ∈ decl.dims, d ≤ JsNumber.maxExact)
    (nOutputs nPubInputs start : ℕ) {acc : SignalObject}
    (hacc : decl.name ∉ acc.map Prod.fst) :
    (((indices decl.dims).zipIdx start).map fun e => (e.2, symbolName decl e.1)).foldl
        (loadEntry nOutputs nPubInputs) acc
      = acc ++ if decl.name = "__proto__" then []
        else [(decl.name, ⟨parsed decl.name (lastIndices decl),
          typeOf nOutputs nPubInputs (start + decl.size - 1)⟩)] := by
  have hix : ∀ e ∈ (indices decl.dims).zipIdx start, ∀ i ∈ e.1, i < JsNumber.maxExact := by
    intro e he
    exact lt_of_mem_indices (List.fst_mem_of_mem_zipIdx he) hdims
  have hentry : ∀ e ∈ (indices decl.dims).zipIdx start, ∀ st,
      loadEntry nOutputs nPubInputs st (e.2, symbolName decl e.1)
        = setKey st decl.name ⟨parsed decl.name e.1, typeOf nOutputs nPubInputs e.2⟩ :=
    fun e he st => applySymbol_symbolName (hix e he) _ _ _ _
  rw [List.foldl_map]
  by_cases hproto : decl.name = "__proto__"
  · -- the prototype is set, again and again
    have hstay : ∀ es : List (List ℕ × ℕ), (∀ e ∈ es, e ∈ (indices decl.dims).zipIdx start) →
        es.foldl (fun st e => loadEntry nOutputs nPubInputs st (e.2, symbolName decl e.1)) acc
          = acc := by
      intro es
      induction es with
      | nil => exact fun _ => rfl
      | cons e es ih =>
          intro hes
          rw [List.foldl_cons, hentry e (hes e List.mem_cons_self), setKey, if_pos hproto]
          exact ih fun e' he' => hes e' (List.mem_cons_of_mem _ he')
    rw [hstay _ fun e he => he, if_pos hproto, List.append_nil]
  · obtain ⟨ixs, hixs⟩ := indices_eq_concat decl.dims_pos
    have hlen : ixs.length + 1 = decl.size := by
      rw [SignalDecl.size, ← length_indices, hixs, List.length_append, List.length_singleton]
    -- before the last symbol there is at most an entry of the same name
    have hbefore : ∀ es : List (List ℕ × ℕ), (∀ e ∈ es, e ∈ (indices decl.dims).zipIdx start) →
        ∀ st, (st = acc ∨ ∃ old, st = acc ++ [(decl.name, old)]) →
        es.foldl (fun st e => loadEntry nOutputs nPubInputs st (e.2, symbolName decl e.1)) st
            = acc ∨
          ∃ old, es.foldl
            (fun st e => loadEntry nOutputs nPubInputs st (e.2, symbolName decl e.1)) st
            = acc ++ [(decl.name, old)] := by
      intro es
      induction es with
      | nil => exact fun _ st hst => hst
      | cons e es ih =>
          intro hes st hst
          rw [List.foldl_cons, hentry e (hes e List.mem_cons_self),
            setKey_again hproto hacc _ hst]
          exact ih (fun e' he' => hes e' (List.mem_cons_of_mem _ he')) _ (Or.inr ⟨_, rfl⟩)
    have hsplit : (indices decl.dims).zipIdx start
        = ixs.zipIdx start ++ [(lastIndices decl, start + ixs.length)] := by
      rw [hixs, List.zipIdx_append]
      rfl
    have hlast : (lastIndices decl, start + ixs.length) ∈ (indices decl.dims).zipIdx start := by
      rw [hsplit]
      exact List.mem_append_right _ List.mem_cons_self
    have hrest := hbefore (ixs.zipIdx start)
      (fun e he => hsplit ▸ List.mem_append_left _ he) acc (Or.inl rfl)
    rw [hsplit, List.foldl_append, List.foldl_cons, List.foldl_nil, hentry _ hlast,
      setKey_again hproto hacc _ hrest, if_neg hproto]
    have hidx : start + decl.size - 1 = start + ixs.length := by omega
    rw [hidx]

/-- All signals, one after the other. -/
theorem foldl_symbolsFrom {decls : List MainSignal}
    (hdims : ∀ decl ∈ decls, ∀ d ∈ decl.dims, d ≤ JsNumber.maxExact)
    (nOutputs nPubInputs start : ℕ) {acc : SignalObject}
    (hnames : (acc.map Prod.fst ++ decls.map fun decl => decl.name).Nodup) :
    (symbolsFrom start decls).foldl (loadEntry nOutputs nPubInputs) acc
      = acc ++ loadedFrom nOutputs nPubInputs start decls := by
  induction decls generalizing start acc with
  | nil => exact (List.append_nil acc).symm
  | cons decl decls ih =>
      have hfresh : decl.name ∉ acc.map Prod.fst := by
        intro hmem
        exact (List.nodup_append.mp hnames).2.2 _ hmem _ List.mem_cons_self rfl
      rw [symbolsFrom, List.foldl_append,
        foldl_signal (hdims decl List.mem_cons_self) _ _ _ hfresh, loadedFrom,
        ← List.append_assoc]
      refine ih (fun d hd => hdims d (List.mem_cons_of_mem _ hd)) _ ?_
      -- the new entry takes the name from the front of the signals still to come
      rw [List.map_append]
      by_cases hproto : decl.name = "__proto__"
      · rw [if_pos hproto, List.map_nil, List.append_nil]
        rw [List.map_cons] at hnames
        exact hnames.sublist ((List.Sublist.refl _).append (List.sublist_cons_self _ _))
      · rw [if_neg hproto, List.map_singleton, List.append_assoc]
        exact hnames

/-- The numbers of the symbols of a list of signals. -/
theorem idx_of_mem_symbolsFrom {start : ℕ} {decls : List MainSignal} {e : ℕ × List Char}
    (h : e ∈ symbolsFrom start decls) : e.1 < start + slots decls := by
  induction decls generalizing start with
  | nil => exact nomatch h
  | cons decl decls ih =>
      have hslots : slots (decl :: decls) = decl.size + slots decls := by
        rw [slots, totalSize, List.map_cons, List.map_cons, List.sum_cons]
        rfl
      rw [hslots]
      rcases List.mem_append.mp h with hmem | hmem
      · obtain ⟨e', he', rfl⟩ := List.mem_map.mp hmem
        have hlt := List.snd_lt_of_mem_zipIdx he'
        rw [length_indices] at hlt
        have hsize : decl.dims.prod = decl.size := rfl
        show e'.2 < _
        omega
      · have hlt := ih hmem
        omega

theorem le_slots {decls : List MainSignal} {decl : MainSignal} (h : decl ∈ decls) :
    ∀ d ∈ decl.dims, d ≤ slots decls :=
  le_totalSize (List.mem_map_of_mem h)

/-- **WHAT IS LOADED**: of every signal, in order, the indices of its last symbol. -/
theorem SymbolFile.loadSymbols_text (file : SymbolFile) (nOutputs nPubInputs : ℕ) :
    loadSymbols file.text nOutputs nPubInputs file.lines.length
      = loadedFrom nOutputs nPubInputs 1 file.signals := by
  have hdims : ∀ decl ∈ file.signals, ∀ d ∈ decl.dims, d ≤ JsNumber.maxExact :=
    fun decl hdecl d hd => (le_slots hdecl d hd).trans file.slots_lt.le
  have hline : ∀ lines : List SymbolLine, (∀ line ∈ lines, line ∈ file.lines) → ∀ acc,
      (lines.map SymbolLine.text).foldl (loadSymbol nOutputs nPubInputs) acc
        = (lines.map fun line => (line.idx, line.name)).foldl (loadEntry nOutputs nPubInputs)
          acc := by
    intro lines
    induction lines with
    | nil => exact fun _ _ => rfl
    | cons line lines ih =>
        intro hlines acc
        have hmem := hlines line List.mem_cons_self
        obtain ⟨decl, -, ix, hname⟩ := file.symbolName_of_mem hmem
        have hsymbol : (line.idx, line.name) ∈ symbolsFrom 1 file.signals :=
          file.symbols ▸ List.mem_map_of_mem hmem
        have hidx := idx_of_mem_symbolsFrom hsymbol
        have hlt := file.slots_lt
        rw [List.map_cons, List.map_cons, List.foldl_cons, List.foldl_cons,
          loadSymbol_text (hname ▸ notMem_symbolName (Or.inl rfl) decl ix)]
        · exact ih (fun l hl => hlines l (List.mem_cons_of_mem _ hl)) _
        · -- numbers go up to the number of slots
          simp only at hidx
          omega
  rw [loadSymbols, file.take_splitOn, hline _ (fun _ h => h), file.symbols]
  exact foldl_symbolsFrom hdims _ _ _ file.names

/-! ## What the names say -/

/-- The dimensions that the names keep: the first two, up to a dimension of one. -/
def recoveredDims : List ℕ → List ℕ
  | [] => []
  | [d] => if d = 1 then [] else [d]
  | d :: d' :: _ => if d = 1 then [] else if d' = 1 then [d] else [d, d']

theorem mem_recoveredDims {dims : List ℕ} {d : ℕ} (h : d ∈ recoveredDims dims) : d ∈ dims := by
  match dims with
  | [] => exact nomatch h
  | [e] =>
      rw [recoveredDims] at h
      split at h
      · exact nomatch h
      · exact h
  | e :: e' :: _ =>
      rw [recoveredDims] at h
      split at h
      · exact nomatch h
      · split at h
        · rw [List.mem_singleton.mp h]
          exact List.mem_cons_self
        · rcases List.mem_cons.mp h with rfl | hmem
          · exact List.mem_cons_self
          · rw [List.mem_singleton.mp hmem]
            exact List.mem_cons_of_mem _ List.mem_cons_self

/-- The signal that its loaded name declares. -/
def recovered (decl : MainSignal) : SignalDecl where
  name := decl.name
  dims := recoveredDims decl.dims
  name_open := decl.name_open
  name_close := decl.name_close
  dims_pos := fun d hd => decl.dims_pos d (mem_recoveredDims hd)

theorem sizeText_pred {d : ℕ} (hpos : 0 < d) (hmax : d < JsNumber.maxExact) :
    sizeText ((d - 1 : ℕ) : ℤ) = dimText d := by
  have hsucc : ((d - 1 : ℕ) : ℤ) + 1 = (d : ℤ) := by omega
  rw [sizeText, hsucc, JsNumber.ofInt, if_pos (Int.natCast_nonneg d), Int.natAbs_natCast,
    JsNumber.ofNat_of_lt hmax, Int.toNat_natCast]

/-- **A LOADED NAME** declares the recovered dimensions. -/
theorem inputText_recovered {decl : MainSignal} (hmax : ∀ d ∈ decl.dims, d < JsNumber.maxExact) :
    inputText decl.name (parsed decl.name (lastIndices decl)) = (recovered decl).text := by
  rw [inputText, SignalDecl.text]
  refine congrArg (fun dims => String.ofList (decl.name.toList ++ dims)) ?_
  show _ = dimsText (recoveredDims decl.dims)
  rw [lastIndices]
  have hpos := decl.dims_pos
  generalize decl.dims = dims at hmax hpos
  obtain _ | ⟨d, _ | ⟨d', dims⟩⟩ := dims
  · rfl
  · have hd := hpos d List.mem_cons_self
    by_cases hone : d = 1
    · rw [recoveredDims, if_pos hone, hone]
      rfl
    · rw [recoveredDims, if_neg hone]
      have hsize : (0 : ℤ) < ((d - 1 : ℕ) : ℤ) := by omega
      show (if (0 : ℤ) < ((d - 1 : ℕ) : ℤ) then sizeText ((d - 1 : ℕ) : ℤ) ++ [] else []) = _
      rw [if_pos hsize, sizeText_pred hd (hmax d List.mem_cons_self)]
      rfl
  · have hd := hpos d List.mem_cons_self
    have hd' := hpos d' (List.mem_cons_of_mem _ List.mem_cons_self)
    by_cases hone : d = 1
    · rw [recoveredDims, if_pos hone, hone]
      rfl
    · rw [recoveredDims, if_neg hone]
      have hsize : (0 : ℤ) < ((d - 1 : ℕ) : ℤ) := by omega
      show (if (0 : ℤ) < ((d - 1 : ℕ) : ℤ) then sizeText ((d - 1 : ℕ) : ℤ) ++
        (if (0 : ℤ) < ((d' - 1 : ℕ) : ℤ) then sizeText ((d' - 1 : ℕ) : ℤ) else []) else []) = _
      rw [if_pos hsize, sizeText_pred hd (hmax d List.mem_cons_self)]
      by_cases hone' : d' = 1
      · rw [if_pos hone', hone']
        rfl
      · have hsize' : (0 : ℤ) < ((d' - 1 : ℕ) : ℤ) := by omega
        rw [if_neg hone', if_pos hsize',
          sizeText_pred hd' (hmax d' (List.mem_cons_of_mem _ List.mem_cons_self))]
        exact congrArg (dimText d ++ ·) (List.append_nil _).symm

/-- Nothing is lost: no dimension past the second counts, and none counts behind a first
    one of length one. -/
structure Kept (dims : List ℕ) : Prop where
  deep : ∀ d ∈ dims.drop 2, d = 1
  first : dims.head? = some 1 → ∀ d ∈ dims, d = 1

theorem prod_eq_one_iff {dims : List ℕ} : dims.prod = 1 ↔ ∀ d ∈ dims, d = 1 := by
  induction dims with
  | nil => simp
  | cons d dims ih => simp [ih]

theorem recoveredDims_prod (d : ℕ) (dims : List ℕ) :
    (recoveredDims (d :: dims)).prod = if d = 1 then 1 else d * (dims.take 1).prod := by
  match dims with
  | [] =>
      rw [recoveredDims]
      split
      · rfl
      · rfl
  | d' :: dims =>
      rw [recoveredDims]
      by_cases hone : d = 1
      · rw [if_pos hone, if_pos hone]
        rfl
      · rw [if_neg hone, if_neg hone]
        by_cases hone' : d' = 1
        · rw [if_pos hone', hone']
          simp
        · rw [if_neg hone']
          simp

/-- The recovered dimensions have the size of the signal exactly when nothing is lost. -/
theorem recoveredDims_prod_iff {dims : List ℕ} (hpos : ∀ d ∈ dims, 0 < d) :
    (recoveredDims dims).prod = dims.prod ↔ Kept dims := by
  cases dims with
  | nil => exact ⟨fun _ => ⟨(fun d hd => nomatch hd), (fun h => nomatch h)⟩, fun _ => rfl⟩
  | cons d dims =>
      have hd := hpos d List.mem_cons_self
      have htail : 0 < (dims.take 1).prod :=
        List.prod_pos fun d' hd' => hpos d' (List.mem_cons_of_mem _ (List.mem_of_mem_take hd'))
      have hsplit : dims.prod = (dims.take 1).prod * (dims.drop 1).prod := by
        rw [← List.prod_append, List.take_append_drop]
      rw [recoveredDims_prod, List.prod_cons]
      by_cases hone : d = 1
      · subst hone
        rw [if_pos rfl, Nat.one_mul, eq_comm, prod_eq_one_iff]
        constructor
        · intro h
          exact ⟨fun d' hd' => h d' (List.mem_of_mem_drop hd'),
            fun _ => List.forall_mem_cons.mpr ⟨rfl, h⟩⟩
        · rintro ⟨-, hfirst⟩
          exact (List.forall_mem_cons.mp (hfirst rfl)).2
      · rw [if_neg hone, hsplit, ← Nat.mul_assoc, eq_comm]
        constructor
        · intro h
          have hrest : (dims.drop 1).prod = 1 :=
            Nat.mul_left_cancel (Nat.mul_pos hd htail) (h.trans (Nat.mul_one _).symm)
          exact ⟨prod_eq_one_iff.mp hrest, fun h => absurd (Option.some.inj h) hone⟩
        · rintro ⟨hdeep, -⟩
          have hrest : (dims.drop 1).prod = 1 := prod_eq_one_iff.mpr hdeep
          rw [hrest, Nat.mul_one]

theorem recovered_size_le (decl : MainSignal) : (recovered decl).size ≤ decl.size := by
  show (recoveredDims decl.dims).prod ≤ decl.dims.prod
  have hpos := decl.dims_pos
  generalize decl.dims = dims at hpos
  cases dims with
  | nil => exact le_rfl
  | cons d dims =>
      have hall := List.prod_pos fun d' hd' => hpos d' (List.mem_cons_of_mem _ hd')
      rw [recoveredDims_prod, List.prod_cons]
      split
      · exact Nat.mul_pos (hpos d List.mem_cons_self) hall
      · refine Nat.mul_le_mul_left d (Nat.le_of_dvd hall ?_)
        exact (List.take_sublist 1 dims).prod_dvd_prod

theorem slots_cons (decl : MainSignal) (decls : List MainSignal) :
    slots (decl :: decls) = decl.size + slots decls := by
  rw [slots, totalSize, List.map_cons, List.map_cons, List.sum_cons]
  rfl

theorem loadedFrom_append (nOutputs nPubInputs start : ℕ) (decls decls' : List MainSignal) :
    loadedFrom nOutputs nPubInputs start (decls ++ decls')
      = loadedFrom nOutputs nPubInputs start decls
        ++ loadedFrom nOutputs nPubInputs (start + slots decls) decls' := by
  induction decls generalizing start with
  | nil => rfl
  | cons decl decls ih =>
      rw [List.cons_append, loadedFrom, loadedFrom, ih, slots_cons, List.append_assoc,
        Nat.add_assoc]

/-- Signals whose symbols are numbered in a range of one type are of that type. -/
theorem type_of_mem_loadedFrom {nOutputs nPubInputs start : ℕ} {decls : List MainSignal}
    {type : SignalType}
    (htype : ∀ idx, start ≤ idx → idx < start + slots decls →
      typeOf nOutputs nPubInputs idx = type) :
    ∀ entry ∈ loadedFrom nOutputs nPubInputs start decls, entry.2.type = type := by
  induction decls generalizing start with
  | nil =>
      intro entry hentry
      exact nomatch hentry
  | cons decl decls ih =>
      have hsize : 0 < decl.size := List.prod_pos decl.dims_pos
      rw [slots_cons] at htype
      intro entry hentry
      rcases List.mem_append.mp hentry with hmem | hmem
      · split at hmem
        · exact nomatch hmem
        · rw [List.mem_singleton.mp hmem]
          exact htype _ (by omega) (by omega)
      · exact ih (fun idx hle hlt => htype idx (by omega) (by omega)) entry hmem

theorem filter_of_type {st : SignalObject} {type type' : SignalType}
    (h : ∀ entry ∈ st, entry.2.type = type) :
    st.filter (fun entry => entry.2.type = type') = if type = type' then st else [] := by
  by_cases heq : type = type'
  · rw [if_pos heq, List.filter_eq_self]
    intro entry hentry
    exact decide_eq_true ((h entry hentry).trans heq)
  · rw [if_neg heq, List.filter_eq_nil_iff]
    intro entry hentry
    rw [decide_eq_true_eq, h entry hentry]
    exact heq

/-- The signals that are loaded. -/
def listed (decls : List MainSignal) : List MainSignal :=
  decls.filter fun decl => decl.name ≠ "__proto__"

theorem texts_loadedFrom {decls : List MainSignal}
    (hmax : ∀ decl ∈ decls, ∀ d ∈ decl.dims, d < JsNumber.maxExact)
    (nOutputs nPubInputs start : ℕ) :
    (loadedFrom nOutputs nPubInputs start decls).map
        (fun entry => inputText entry.1 entry.2.sig)
      = ((listed decls).map recovered).map SignalDecl.text := by
  induction decls generalizing start with
  | nil => rfl
  | cons decl decls ih =>
      have htail := ih (fun d hd => hmax d (List.mem_cons_of_mem _ hd)) (start + decl.size)
      rw [loadedFrom, List.map_append, htail, listed, listed]
      by_cases hproto : decl.name = "__proto__"
      · rw [if_pos hproto, List.filter_cons_of_neg (by simp [hproto])]
        rfl
      · rw [if_neg hproto, List.filter_cons_of_pos (by simp [hproto]), List.map_singleton,
          inputText_recovered (hmax decl List.mem_cons_self)]
        rfl

namespace SymbolFile

variable (file : SymbolFile)

theorem slots_signals :
    slots file.signals = slots file.outputs + slots file.pubInputs + slots file.prvInputs := by
  rw [signals, slots_append, slots_append]

/-- **THE LOADED NAMES** of the outputs and of the public inputs. -/
theorem loaded_eq :
    file.loaded.output = ((listed file.outputs).map recovered).map SignalDecl.text ∧
    file.loaded.pub = ((listed file.pubInputs).map recovered).map SignalDecl.text := by
  have hmax : ∀ decl ∈ file.signals, ∀ d ∈ decl.dims, d < JsNumber.maxExact :=
    fun decl hdecl d hd => (le_slots hdecl d hd).trans_lt file.slots_lt
  have hlimit : slots file.outputs + slots file.pubInputs + slots file.prvInputs
      = file.lines.length := by rw [file.length_lines, file.slots_signals]
  have hsymbols : loadSymbols file.text (slots file.outputs) (slots file.pubInputs)
      (slots file.outputs + slots file.pubInputs + slots file.prvInputs)
      = loadedFrom (slots file.outputs) (slots file.pubInputs) 1 file.outputs
        ++ loadedFrom (slots file.outputs) (slots file.pubInputs) (1 + slots file.outputs)
          file.pubInputs
        ++ loadedFrom (slots file.outputs) (slots file.pubInputs)
          (1 + slots (file.outputs ++ file.pubInputs)) file.prvInputs := by
    rw [hlimit, file.loadSymbols_text, signals, loadedFrom_append, loadedFrom_append]
  -- the three parts are of the three types
  have houtputs : ∀ entry ∈ loadedFrom (slots file.outputs) (slots file.pubInputs) 1
      file.outputs, entry.2.type = .output :=
    type_of_mem_loadedFrom fun idx hle hlt => if_pos (by omega)
  have hpub : ∀ entry ∈ loadedFrom (slots file.outputs) (slots file.pubInputs)
      (1 + slots file.outputs) file.pubInputs, entry.2.type = .pub :=
    type_of_mem_loadedFrom fun idx hle hlt =>
      (if_neg (by omega)).trans (if_pos (by omega))
  have hprv : ∀ entry ∈ loadedFrom (slots file.outputs) (slots file.pubInputs)
      (1 + slots (file.outputs ++ file.pubInputs)) file.prvInputs, entry.2.type = .prv := by
    refine type_of_mem_loadedFrom fun idx hle hlt => ?_
    rw [slots_append] at hle
    exact (if_neg (by omega)).trans (if_neg (by omega))
  constructor
  · show ((loadSymbols _ _ _ _).filter fun entry => entry.2.type = .output).map _ = _
    rw [hsymbols, List.filter_append, List.filter_append, filter_of_type houtputs,
      filter_of_type hpub, filter_of_type hprv, if_pos rfl, if_neg (by decide),
      if_neg (by decide), List.append_nil, List.append_nil]
    refine texts_loadedFrom (fun decl hdecl => hmax decl ?_) _ _ _
    exact List.mem_append_left _ (List.mem_append_left _ hdecl)
  · show ((loadSymbols _ _ _ _).filter fun entry => entry.2.type = .pub).map _ = _
    rw [hsymbols, List.filter_append, List.filter_append, filter_of_type houtputs,
      filter_of_type hpub, filter_of_type hprv, if_neg (by decide), if_pos rfl,
      if_neg (by decide), List.nil_append, List.append_nil]
    refine texts_loadedFrom (fun decl hdecl => hmax decl ?_) _ _ _
    exact List.mem_append_left _ (List.mem_append_right _ hdecl)

theorem listed_append (decls decls' : List MainSignal) :
    listed (decls ++ decls') = listed decls ++ listed decls' := List.filter_append ..

/-- What the program makes of the loaded names. -/
theorem new_loaded :
    Signals.new (file.loaded.output ++ file.loaded.pub)
      = some
        { data := (spansFrom 0 ((listed file.laidOut).map recovered)).reverse
          count := totalSize ((listed file.laidOut).map recovered) } := by
  have hfits : totalSize ((listed file.laidOut).map recovered) ≤ usizeMax := by
    have hle : totalSize ((listed file.laidOut).map recovered) ≤ slots file.laidOut := by
      rw [totalSize, slots, totalSize, List.map_map, List.map_map, listed]
      refine (List.Sublist.sum_le_sum ((List.filter_sublist).map _) ?_).trans ?_
      · exact fun _ _ => Nat.zero_le _
      · exact List.sum_le_sum fun decl _ => recovered_size_le decl
    have hlt := file.slots_lt
    rw [slots_signals] at hlt
    have hlaid : slots file.laidOut = slots file.outputs + slots file.pubInputs :=
      slots_append _ _
    have hmax : usizeMax = 2 ^ 64 - 1 := rfl
    omega
  obtain ⟨houtput, hpub⟩ := file.loaded_eq
  rw [houtput, hpub, ← List.map_append, ← List.map_append, ← listed_append]
  exact new_texts hfits

/-- **LOADED NAMES DESCRIBE THE LAYOUT EXACTLY WHERE NOTHING IS LOST.**  For every symbol
    file, the names that `loadSignals` makes of the outputs and public inputs give the
    program every signal's true index and size, and the true number of slots, if and
    only if none of the signals is `__proto__`, none has a dimension beyond the second
    other than one, and none has another dimension than one behind a first of one. -/
theorem describes_iff :
    file.Describes ↔ ∀ decl ∈ file.laidOut, decl.name ≠ "__proto__" ∧ Kept decl.dims := by
  have hnames : (file.laidOut.map fun decl => decl.name).Nodup := by
    refine file.names.sublist (List.Sublist.map _ ?_)
    exact List.sublist_append_left _ _
  constructor
  · rintro ⟨signals, hnew, -, hall⟩ decl hdecl
    obtain rfl := Option.some.inj (file.new_loaded.symm.trans hnew)
    obtain ⟨before, after, hsplit⟩ := List.append_of_mem hdecl
    have hget := mem_of_lookup (hall before decl after hsplit)
    -- the span found under the name is that of a loaded signal, so of this one
    obtain ⟨decl', hdecl', hname, hsize⟩ := mem_spansFrom (List.mem_reverse.mp hget)
    obtain ⟨decl', hlisted, rfl⟩ := List.mem_map.mp hdecl'
    obtain ⟨hmem, hproto⟩ := List.mem_filter.mp hlisted
    obtain rfl : decl' = decl := List.inj_on_of_nodup_map hnames hmem hdecl hname
    exact ⟨of_decide_eq_true hproto, (recoveredDims_prod_iff decl'.dims_pos).mp hsize⟩
  · intro hkept
    have hlisted : listed file.laidOut = file.laidOut := by
      rw [listed, List.filter_eq_self]
      intro decl hdecl
      exact decide_eq_true (hkept decl hdecl).1
    have hsize : ∀ decl ∈ file.laidOut, (recovered decl).size = decl.size := by
      intro decl hdecl
      exact (recoveredDims_prod_iff decl.dims_pos).mpr (hkept decl hdecl).2
    have htotal : ∀ decls : List MainSignal, (∀ decl ∈ decls, decl ∈ file.laidOut) →
        totalSize (decls.map recovered) = slots decls := by
      intro decls hdecls
      rw [totalSize, slots, totalSize, List.map_map, List.map_map]
      exact congrArg List.sum (List.map_congr_left fun decl hdecl => hsize decl (hdecls decl hdecl))
    have hnew := file.new_loaded
    rw [hlisted] at hnew
    refine ⟨_, hnew, ?_, ?_⟩
    · exact (htotal _ fun decl hdecl => hdecl).trans (slots_append _ _)
    · intro before decl after hsplit
      have hdecl : decl ∈ file.laidOut := hsplit ▸ List.mem_append_right _ List.mem_cons_self
      have hbefore : ∀ d ∈ before, d ∈ file.laidOut :=
        fun d hd => hsplit ▸ List.mem_append_left _ hd
      have hlaid : file.laidOut.map recovered
          = before.map recovered ++ recovered decl :: after.map recovered := by
        rw [hsplit, List.map_append, List.map_cons]
      have hnodup : ((before.map recovered ++ recovered decl :: after.map recovered).map
          SignalDecl.name).Nodup := by
        rw [← hlaid, List.map_map]
        exact hnames
      have hdata : (⟨(spansFrom 0 (file.laidOut.map recovered)).reverse,
          totalSize (file.laidOut.map recovered)⟩ : Signals).data
          = (spansFrom 0 (before.map recovered ++ recovered decl :: after.map recovered)).reverse :=
        congrArg (fun decls => (spansFrom 0 decls).reverse) hlaid
      have hget := get_span hnodup hdata
      rw [htotal before hbefore, hsize decl hdecl] at hget
      exact hget

end SymbolFile

namespace SymbolSample

theorem x_identifier : IsIdentifier "x".toList := by
  have hlist : "x".toList = ['x'] := rfl
  rw [hlist]
  refine ⟨?_, 'x', [], rfl, rfl⟩
  intro c hc
  rw [List.mem_singleton.mp hc]
  exact Or.inl rfl

/-- A public input of dimensions one and three. -/
def x : MainSignal where
  name := "x"
  dims := [1, 3]
  name_open := by decide
  name_close := by decide
  dims_pos := by decide
  identifier := x_identifier

def line (idx : ℕ) (ix : List ℕ) : SymbolLine where
  idx := idx
  varIdx := ['1']
  componentIdx := ['0']
  name := symbolName x ix
  varIdx_plain := by decide
  componentIdx_plain := by decide

def file : SymbolFile where
  outputs := []
  pubInputs := [x]
  prvInputs := []
  lines := [line 1 [0, 0], line 2 [0, 1], line 3 [0, 2]]
  rest := [[]]
  names := by decide
  symbols := by decide
  rest_plain := by decide
  length := by decide

end SymbolSample

open SymbolSample in
/-- **A FIRST DIMENSION OF ONE HIDES THE SECOND**: the three slots of `x[1][3]` become
    one. -/
theorem loaded_names_fail :
    file.text = "1,1,0,main.x[0][0]\n2,1,0,main.x[0][1]\n3,1,0,main.x[0][2]\n" ∧
    file.loaded.pub = ["x"] ∧ ¬ file.Describes := by
  have hloaded : file.loaded = ⟨[], ["x"], []⟩ := by decide +kernel
  refine ⟨by decide +kernel, congrArg LoadedSignals.pub hloaded, ?_⟩
  rintro ⟨signals, hnew, hcount, -⟩
  rw [hloaded] at hnew
  have hone : Signals.new ["x"] = some ⟨[("x", ⟨0, 1⟩)], 1⟩ := by decide
  obtain rfl := Option.some.inj (hone.symm.trans hnew)
  exact absurd hcount (by decide)

end Albus.Circuits
