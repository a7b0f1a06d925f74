import Albus.Program.Signals
import Mathlib.Algebra.Order.BigOperators.GroupWithZero.List

/-! # Signals as a circuit declares them

    A signal is a scalar or an array of any number of dimensions, none of them
    empty, and its text is its name followed by its dimensions.  `Signals::new` on
    the texts gives the signals consecutive spans, each as long as the product of
    its dimensions. -/

namespace Albus.Program

open Albus.Lib

/-- A declared signal: a name without brackets, and its dimensions. -/
structure SignalDecl where
  name : String
  dims : List ℕ
  name_open : '[' ∉ name.toList
  name_close : ']' ∉ name.toList
  dims_pos : ∀ d ∈ dims, 0 < d

/-- `[d]` -/
def dimText (d : ℕ) : List Char := '[' :: Nat.toDigits 10 d ++ [']']

/-- `[d1]...[dk]` -/
def dimsText (dims : List ℕ) : List Char := dims.flatMap dimText

namespace SignalDecl

def size (decl : SignalDecl) : ℕ := decl.dims.prod

/-- `name[d1]...[dk]` -/
def text (decl : SignalDecl) : String :=
  String.ofList (decl.name.toList ++ dimsText decl.dims)

end SignalDecl

/-! ## Brackets and digits -/

theorem parseDigits_toDigits (d : ℕ) : parseDigits (Nat.toDigits 10 d) = some d := by
  have hdigits : (Nat.toDigits 10 d).all Char.isDigit = true := by
    rw [List.all_eq_true]
    intro c hc
    exact Nat.isDigit_of_mem_toDigits (by decide) (by decide) hc
  rw [parseDigits, if_pos ⟨Nat.toDigits_ne_nil, hdigits⟩]
  refine congrArg some ?_
  have hvalue := Nat.ofDigitChars_ten_toDigits (n := d)
  rw [Nat.ofDigitChars_eq_foldl] at hvalue
  simpa only [Nat.mul_comm] using hvalue

/-- No digit is a sign or a bracket. -/
theorem ne_of_mem_toDigits {c c' : Char} {d : ℕ} (hc : c ∈ Nat.toDigits 10 d)
    (hc' : c'.isDigit = false) : c ≠ c' := by
  rintro rfl
  have hdigit := Nat.isDigit_of_mem_toDigits (by decide) (by decide) hc
  rw [hc'] at hdigit
  exact nomatch hdigit

theorem parseUsize_toDigits {d : ℕ} (h : d ≤ usizeMax) :
    parseUsize (Nat.toDigits 10 d) = some d := by
  simp only [parseUsize]
  split
  · rename_i rest heq
    have hplus : '+' ∈ Nat.toDigits 10 d := by
      rw [heq]
      exact List.mem_cons_self
    exact absurd rfl (ne_of_mem_toDigits hplus rfl)
  · rw [parseDigits_toDigits]
    exact if_pos h

/-- Where the first pair of brackets stands. -/
theorem idxOf_brackets {name : List Char} (hopen : '[' ∉ name) (hclose : ']' ∉ name) (d : ℕ)
    (rest : List Char) :
    (name ++ (dimText d ++ rest)).idxOf '[' = name.length ∧
    (name ++ (dimText d ++ rest)).idxOf ']' = name.length + (Nat.toDigits 10 d).length + 1 := by
  have hdigits : ']' ∉ Nat.toDigits 10 d := by
    intro hmem
    have hne : ']' ≠ ']' := ne_of_mem_toDigits hmem rfl
    exact hne rfl
  rw [dimText]
  constructor
  · rw [List.idxOf_append_of_notMem hopen]
    simp
  · rw [List.idxOf_append_of_notMem hclose, List.cons_append, List.cons_append,
      List.idxOf_cons_ne _ (by decide), List.append_assoc, List.idxOf_append_of_notMem hdigits]
    simp [Nat.add_assoc]

/-- The text, cut at its first pair of brackets. -/
theorem cut_brackets (name : List Char) (d : ℕ) (rest : List Char) :
    let s := name ++ (dimText d ++ rest)
    let cls := name.length + (Nat.toDigits 10 d).length + 1
    s.take name.length = name ∧ (s.take cls).drop (name.length + 1) = Nat.toDigits 10 d ∧
      s.drop (cls + 1) = rest ∧ name.length < cls ∧ cls < s.length := by
  intro s cls
  have hs : s = (name ++ '[' :: Nat.toDigits 10 d) ++ (']' :: rest) := by
    simp [s, dimText]
  have hlen : (name ++ '[' :: Nat.toDigits 10 d).length = cls := by
    simp only [List.length_append, List.length_cons]
    omega
  refine ⟨List.take_left, ?_, ?_, by omega, ?_⟩
  · rw [hs, List.take_left' hlen]
    show (name ++ ([_] ++ _)).drop _ = _
    rw [← List.append_assoc]
    exact List.drop_left' (by simp)
  · rw [hs]
    show ((_ : List Char) ++ ([_] ++ rest)).drop _ = _
    rw [← List.append_assoc]
    exact List.drop_left' (by rw [List.length_append, hlen]; rfl)
  · rw [hs, List.length_append, hlen, List.length_cons]
    omega

/-! ## The layout -/

/-- `parse_signal` on a text: the name, and the product of the dimensions. -/
theorem parseSignalAux_text {name : List Char} (hopen : '[' ∉ name) (hclose : ']' ∉ name)
    {dims : List ℕ} (hpos : ∀ d ∈ dims, 0 < d) (hmax : dims.prod ≤ usizeMax) {fuel : ℕ}
    (hfuel : dims.length ≤ fuel) :
    parseSignalAux fuel (name ++ dimsText dims) = some (name, dims.prod) := by
  induction dims generalizing name fuel with
  | nil =>
      have hplain : ¬ ((name ++ dimsText []).idxOf '[' < (name ++ dimsText []).length) := by
        rw [List.idxOf_lt_length_iff, dimsText, List.flatMap_nil, List.append_nil]
        exact hopen
      cases fuel with
      | zero => rw [parseSignalAux, dimsText, List.flatMap_nil, List.append_nil, List.prod_nil]
      | succ fuel =>
          rw [parseSignalAux]
          simp only [hplain, false_and, if_false]
          rw [dimsText, List.flatMap_nil, List.append_nil, List.prod_nil]
  | cons d dims ih =>
      obtain ⟨fuel, rfl⟩ : ∃ m, fuel = m + 1 := ⟨fuel - 1, by simp at hfuel; omega⟩
      have hrest : 0 < dims.prod :=
        List.prod_pos fun d' hd' => hpos d' (List.mem_cons_of_mem _ hd')
      have hd := hpos d List.mem_cons_self
      rw [List.prod_cons] at hmax
      have hdmax : d ≤ usizeMax := (Nat.le_mul_of_pos_right d hrest).trans hmax
      have hrestmax : dims.prod ≤ usizeMax := (Nat.le_mul_of_pos_left _ hd).trans hmax
      have hnone : ∀ c : Char, c ∉ ([] : List Char) := fun c => List.not_mem_nil
      have htail := ih (hnone '[') (hnone ']')
        (fun d' hd' => hpos d' (List.mem_cons_of_mem _ hd')) hrestmax
        (Nat.le_of_succ_le_succ hfuel)
      obtain ⟨hidx, hidx'⟩ := idxOf_brackets hopen hclose d (dimsText dims)
      obtain ⟨hname, hdigits, hdrop, hlt, hlen⟩ := cut_brackets name d (dimsText dims)
      rw [dimsText, List.flatMap_cons]
      show parseSignalAux (fuel + 1) (name ++ (dimText d ++ dimsText dims)) = _
      rw [parseSignalAux]
      simp only [hidx, hidx', hlen, hlt, hlt.trans hlen, and_self, if_true, hname, hdigits, hdrop,
        parseUsize_toDigits hdmax]
      rw [List.nil_append] at htail
      rw [htail]
      show (checkedUsize (d * dims.prod)).bind _ = _
      rw [checkedUsize, if_pos hmax]
      rfl

theorem length_le_length_dimsText (dims : List ℕ) : dims.length ≤ (dimsText dims).length := by
  induction dims with
  | nil => exact Nat.zero_le _
  | cons d dims ih =>
      rw [dimsText, List.flatMap_cons, List.length_append, List.length_cons]
      have hpos : 1 ≤ (dimText d).length := by simp [dimText]
      show dims.length + 1 ≤ (dimText d).length + (dimsText dims).length
      omega

theorem parseSignal_text {decl : SignalDecl} (hmax : decl.size ≤ usizeMax) :
    parseSignal decl.text = some (decl.name, decl.size) := by
  have hfuel : decl.dims.length ≤ decl.text.toList.length + 1 := by
    have hle := length_le_length_dimsText decl.dims
    rw [SignalDecl.text, String.toList_ofList, List.length_append]
    omega
  rw [parseSignal]
  rw [SignalDecl.text, String.toList_ofList] at hfuel ⊢
  rw [parseSignalAux_text decl.name_open decl.name_close decl.dims_pos hmax hfuel]
  show some (String.ofList decl.name.toList, decl.dims.prod) = _
  rw [String.ofList_toList]
  rfl

/-- The slots of all signals. -/
def totalSize (decls : List SignalDecl) : ℕ := (decls.map SignalDecl.size).sum

/-- The spans of the signals, one after the other. -/
def spansFrom (start : ℕ) : List SignalDecl → List (String × SignalValue)
  | [] => []
  | decl :: decls =>
      (decl.name, ⟨start, decl.size⟩) :: spansFrom (start + decl.size) decls

theorem spansFrom_append (start : ℕ) (decls decls' : List SignalDecl) :
    spansFrom start (decls ++ decls')
      = spansFrom start decls ++ spansFrom (start + totalSize decls) decls' := by
  induction decls generalizing start with
  | nil => rfl
  | cons decl decls ih =>
      rw [List.cons_append, spansFrom, spansFrom, ih, List.cons_append, totalSize, totalSize,
        List.map_cons, List.sum_cons, Nat.add_assoc]

theorem map_fst_spansFrom (start : ℕ) (decls : List SignalDecl) :
    (spansFrom start decls).map Prod.fst = decls.map SignalDecl.name := by
  induction decls generalizing start with
  | nil => rfl
  | cons decl decls ih => rw [spansFrom, List.map_cons, List.map_cons, ih]

theorem mem_spansFrom {start : ℕ} {decls : List SignalDecl} {k : String} {v : SignalValue}
    (h : (k, v) ∈ spansFrom start decls) : ∃ decl ∈ decls, decl.name = k ∧ decl.size = v.size := by
  induction decls generalizing start with
  | nil => exact nomatch h
  | cons decl decls ih =>
      rcases List.mem_cons.mp h with heq | hmem
      · obtain ⟨rfl, rfl⟩ := Prod.mk.inj heq
        exact ⟨decl, List.mem_cons_self, rfl, rfl⟩
      · obtain ⟨decl', hdecl', hname, hsize⟩ := ih hmem
        exact ⟨decl', List.mem_cons_of_mem _ hdecl', hname, hsize⟩

/-- **CONSECUTIVE SPANS.**  The layout of declared signals that fit the address space:
    one span after the other, as long as its dimensions multiply to. -/
theorem new_texts {decls : List SignalDecl} (hmax : totalSize decls ≤ usizeMax) :
    Signals.new (decls.map SignalDecl.text)
      = some { data := (spansFrom 0 decls).reverse, count := totalSize decls } := by
  have key : ∀ (decls : List SignalDecl) (acc : Signals),
      acc.count + totalSize decls ≤ usizeMax →
      (decls.map SignalDecl.text).foldlM Signals.push acc
        = some ⟨(spansFrom acc.count decls).reverse ++ acc.data, acc.count + totalSize decls⟩ := by
    intro decls
    induction decls with
    | nil =>
        intro acc _
        rfl
    | cons decl decls ih =>
        intro acc hacc
        have htotal : totalSize (decl :: decls) = decl.size + totalSize decls := by
          rw [totalSize, List.map_cons, List.sum_cons]
          rfl
        rw [htotal] at hacc ⊢
        have hpush : acc.push decl.text
            = some ⟨(decl.name, ⟨acc.count, decl.size⟩) :: acc.data, acc.count + decl.size⟩ := by
          rw [Signals.push, parseSignal_text (by omega)]
          show (checkedUsize (acc.count + decl.size)).bind _ = _
          rw [checkedUsize, if_pos (by omega)]
          rfl
        rw [List.map_cons, List.foldlM_cons, hpush]
        show List.foldlM _ _ _ = _
        rw [ih _ (by simp only; omega)]
        simp only [spansFrom, List.reverse_cons, List.append_assoc, List.cons_append,
          List.nil_append, Nat.add_assoc]
  have hall := key decls { data := [], count := 0 } (by simpa using hmax)
  simpa [Signals.new] using hall

/-- The span of one of them, found by its name. -/
theorem get_span {before after : List SignalDecl} {decl : SignalDecl} {s : Signals}
    (hnames : ((before ++ decl :: after).map SignalDecl.name).Nodup)
    (hdata : s.data = (spansFrom 0 (before ++ decl :: after)).reverse) :
    s.get decl.name = some ⟨totalSize before, decl.size⟩ := by
  refine lookup_of_nodup ?_ ?_
  · rw [hdata, List.map_reverse, map_fst_spansFrom]
    exact List.nodup_reverse.mpr hnames
  · rw [hdata, List.mem_reverse, spansFrom_append, Nat.zero_add]
    exact List.mem_append_right _ List.mem_cons_self

end Albus.Program
