import Mathlib.Data.List.Prime
import Mathlib.FieldTheory.Finite.Basic
import Mathlib.NumberTheory.LucasPrimality
import Mathlib.RingTheory.RootsOfUnity.PrimitiveRoots

/-! # Primality by Lucas's test

    A residue whose order is `p - 1` shows that `p` is prime.  A table lists numbers,
    each with such a residue and with the factorization of its predecessor into primes
    known so far; running through the table is a decidable check
    (`generator_of_checked`). -/

namespace Albus.Lib

/-- `a ^ n % m`, one byte of the exponent at a time; `fuel` bounds their number. -/
def powMod (m : ℕ) : ℕ → ℕ → ℕ → ℕ
  | 0, _, _ => 1
  | fuel + 1, a, n => powMod m fuel (a ^ 256 % m) (n / 256) * a ^ (n % 256) % m

theorem natCast_powMod {m fuel a n : ℕ} (hn : n < 256 ^ fuel) :
    (powMod m fuel a n : ZMod m) = (a : ZMod m) ^ n := by
  induction fuel generalizing a n with
  | zero =>
      obtain rfl : n = 0 := by simpa using hn
      rw [powMod, Nat.cast_one, pow_zero]
  | succ fuel ih =>
      have hrest : n / 256 < 256 ^ fuel := by
        rw [pow_succ] at hn
        omega
      rw [powMod, ZMod.natCast_mod, Nat.cast_mul, ih hrest, ZMod.natCast_mod,
        Nat.cast_pow, Nat.cast_pow, ← pow_mul, ← pow_add, Nat.div_add_mod]

/-- A row of the table. -/
structure Lucas where
  p : ℕ
  /-- Its order is `p - 1`. -/
  residue : ℕ
  /-- The primes of `p - 1`, with their exponents. -/
  factors : List (ℕ × ℕ)

namespace Lucas

/-- The row passes the test, where `fuel` bounds the bytes of `p`. -/
def Passes (fuel : ℕ) (known : List ℕ) (c : Lucas) : Prop :=
  1 < c.p ∧ c.p < 256 ^ fuel ∧ (∀ f ∈ c.factors, f.1 ∈ known) ∧
    (c.factors.map fun f => f.1 ^ f.2).prod = c.p - 1 ∧
    powMod c.p fuel c.residue (c.p - 1) = 1 ∧
    ∀ f ∈ c.factors, powMod c.p fuel c.residue ((c.p - 1) / f.1) % c.p ≠ 1

instance (fuel : ℕ) (known : List ℕ) (c : Lucas) : Decidable (c.Passes fuel known) :=
  inferInstanceAs (Decidable (_ ∧ _ ∧ _ ∧ _ ∧ _ ∧ _))

variable {fuel : ℕ} {known : List ℕ}

/-- The residue of a row has the order of the whole group. -/
theorem Passes.isPrimitiveRoot {c : Lucas} (h : c.Passes fuel known)
    (hknown : ∀ q ∈ known, q.Prime) : IsPrimitiveRoot (c.residue : ZMod c.p) (c.p - 1) := by
  obtain ⟨hp, hfuel, hfactors, hprod, hone, hne⟩ := h
  have hcast : ∀ n ≤ c.p - 1, (c.residue : ZMod c.p) ^ n
      = (powMod c.p fuel c.residue n : ZMod c.p) := by
    intro n hn
    rw [natCast_powMod (by omega)]
  rw [IsPrimitiveRoot.iff_orderOf]
  refine orderOf_eq_of_pow_and_pow_div_prime (by omega) ?_ ?_
  · rw [hcast _ (Nat.le_refl _), hone, Nat.cast_one]
  · intro q hq hdvd
    -- a prime of the product is one of the listed primes
    rw [← hprod] at hdvd
    obtain ⟨x, hx, hqx⟩ := (Prime.dvd_prod_iff hq.prime).mp hdvd
    obtain ⟨f, hf, rfl⟩ := List.mem_map.mp hx
    have hqf : q = f.1 := (Nat.prime_dvd_prime_iff_eq hq (hknown _ (hfactors f hf))).mp
      (hq.dvd_of_dvd_pow hqx)
    intro hpow
    rw [hqf, hcast _ (Nat.div_le_self _ _)] at hpow
    have hmod := (ZMod.natCast_eq_natCast_iff' _ 1 _).mp (hpow.trans Nat.cast_one.symm)
    rw [Nat.mod_eq_of_lt hp] at hmod
    exact hne f hf hmod

theorem Passes.prime {c : Lucas} (h : c.Passes fuel known)
    (hknown : ∀ q ∈ known, q.Prime) : c.p.Prime := by
  have hroot := h.isPrimitiveRoot hknown
  refine lucas_primality c.p (c.residue : ZMod c.p) hroot.pow_eq_one ?_
  intro q hq hdvd
  have hpos : 0 < c.p - 1 := Nat.sub_pos_of_lt h.1
  exact hroot.pow_ne_one_of_pos_of_lt (Nat.div_pos (Nat.le_of_dvd hpos hdvd) hq.pos).ne'
    (Nat.div_lt_self hpos hq.one_lt)

/-- The rows in order, each against the numbers above it. -/
def Checked (fuel : ℕ) : List ℕ → List Lucas → Prop
  | _, [] => True
  | known, c :: table => c.Passes fuel known ∧ Checked fuel (c.p :: known) table

instance decidableChecked (fuel : ℕ) :
    ∀ known table, Decidable (Checked fuel known table)
  | _, [] => inferInstanceAs (Decidable True)
  | known, c :: table =>
    haveI := decidableChecked fuel (c.p :: known) table
    inferInstanceAs (Decidable (_ ∧ _))

/-- **A CHECKED TABLE LISTS PRIMES**, each with a generator of its group. -/
theorem generator_of_checked {table : List Lucas} (h : Checked fuel known table)
    (hknown : ∀ q ∈ known, q.Prime) :
    ∀ c ∈ table, c.p.Prime ∧ IsPrimitiveRoot (c.residue : ZMod c.p) (c.p - 1) := by
  induction table generalizing known with
  | nil => nofun
  | cons c table ih =>
      intro c' hc'
      have hc := h.1.prime hknown
      rcases List.mem_cons.mp hc' with rfl | hc'
      · exact ⟨hc, h.1.isPrimitiveRoot hknown⟩
      · refine ih h.2 ?_ c' hc'
        intro q hq
        rcases List.mem_cons.mp hq with rfl | hq
        · exact hc
        · exact hknown q hq

theorem prime_of_checked {table : List Lucas} (h : Checked fuel known table)
    (hknown : ∀ q ∈ known, q.Prime) : ∀ c ∈ table, c.p.Prime :=
  fun c hc => (generator_of_checked h hknown c hc).1

end Lucas

/-- The powers of a generator are all residues but zero. -/
theorem exists_pow_eq {p : ℕ} [Fact p.Prime] {g : ZMod p} (hg : IsPrimitiveRoot g (p - 1))
    {x : ZMod p} (hx : x ≠ 0) : ∃ k : ℕ, g ^ k = x := by
  have hp : p - 1 ≠ 0 := by
    have hlt := (Fact.out : p.Prime).one_lt
    omega
  have : NeZero (p - 1) := ⟨hp⟩
  obtain ⟨k, -, hk⟩ := hg.eq_pow_of_pow_eq_one (ZMod.pow_card_sub_one_eq_one hx)
  exact ⟨k, hk⟩

end Albus.Lib
