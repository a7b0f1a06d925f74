import Albus.Lib.Bytes
import Mathlib.Data.Nat.Log

/-! # Little-endian words

    A number as `w` bytes, least significant first, and back.  The wire formats
    mix both byte orders, so a section is the bridge: reversing a byte string
    exchanges the two readings. -/

namespace Albus.Lib

/-- The number a byte string denotes, least significant byte first. -/
def leNat : List UInt8 → Nat
  | [] => 0
  | b :: bs => b.toNat + 256 * leNat bs

/-- The `w` low bytes of a number, least significant first. -/
def leBytes : Nat → Nat → List UInt8
  | 0, _ => []
  | w + 1, n => UInt8.ofNat n :: leBytes w (n / 256)

@[simp] theorem leNat_nil : leNat [] = 0 := rfl

theorem leNat_cons (b : UInt8) (bs : List UInt8) :
    leNat (b :: bs) = b.toNat + 256 * leNat bs := rfl

@[simp] theorem leBytes_zero (n : Nat) : leBytes 0 n = [] := rfl

theorem leBytes_succ (w n : Nat) :
    leBytes (w + 1) n = UInt8.ofNat n :: leBytes w (n / 256) := rfl

@[simp] theorem length_leBytes (w n : Nat) : (leBytes w n).length = w := by
  induction w generalizing n with
  | zero => rfl
  | succ w ih => rw [leBytes_succ, List.length_cons, ih]

theorem leNat_append (as bs : List UInt8) :
    leNat (as ++ bs) = leNat as + 256 ^ as.length * leNat bs := by
  induction as with
  | nil => simp
  | cons a as ih =>
      rw [List.cons_append, leNat_cons, leNat_cons, ih, List.length_cons, pow_succ]
      ring

/-- Writing and reading back keeps the low bytes of the number. -/
theorem leNat_leBytes (w n : Nat) : leNat (leBytes w n) = n % 256 ^ w := by
  induction w generalizing n with
  | zero => simp [Nat.mod_one]
  | succ w ih =>
      have hbyte : (UInt8.ofNat n).toNat = n % 256 := UInt8.toNat_ofNat'
      rw [leBytes_succ, leNat_cons, ih, hbyte, pow_succ', Nat.mod_mul]

theorem leNat_leBytes_of_lt {w n : Nat} (h : n < 256 ^ w) : leNat (leBytes w n) = n := by
  rw [leNat_leBytes, Nat.mod_eq_of_lt h]

/-- Reading and writing back is the identity. -/
theorem leBytes_leNat (bs : List UInt8) : leBytes bs.length (leNat bs) = bs := by
  induction bs with
  | nil => rfl
  | cons b bs ih =>
      have hb : b.toNat < 256 := b.toNat_lt
      have hhead : UInt8.ofNat (b.toNat + 256 * leNat bs) = b := by
        apply UInt8.toNat_inj.mp
        rw [UInt8.toNat_ofNat']
        omega
      have htail : (b.toNat + 256 * leNat bs) / 256 = leNat bs := by omega
      rw [List.length_cons, leBytes_succ, leNat_cons, hhead, htail, ih]

theorem leNat_lt (bs : List UInt8) : leNat bs < 256 ^ bs.length := by
  have hmod := leNat_leBytes bs.length (leNat bs)
  rw [leBytes_leNat] at hmod
  rw [hmod]
  exact Nat.mod_lt _ (Nat.pow_pos (by omega))

/-- Two byte strings of one length denote different numbers. -/
theorem leNat_inj {as bs : List UInt8} (hlen : as.length = bs.length)
    (h : leNat as = leNat bs) : as = bs := by
  rw [← leBytes_leNat as, ← leBytes_leNat bs, hlen, h]

/-- A word is its low part followed by its high part. -/
theorem leBytes_add (v w n : Nat) :
    leBytes (v + w) n = leBytes v n ++ leBytes w (n / 256 ^ v) := by
  induction v generalizing n with
  | zero => simp
  | succ v ih =>
      rw [Nat.succ_add, leBytes_succ, leBytes_succ, ih, List.cons_append, pow_succ',
        Nat.div_div_eq_div_mul]

/-- The high bytes do not matter. -/
theorem leBytes_mod (w n : Nat) : leBytes w (n % 256 ^ w) = leBytes w n := by
  apply leNat_inj
  · rw [length_leBytes, length_leBytes]
  · rw [leNat_leBytes, leNat_leBytes, Nat.mod_mod]

/-! ## Integers -/

/-- The digits of an integer above the first, rounded down. -/
theorem emod_mul_ediv {a : ℤ} (ha : 0 < a) (r b : ℤ) : r % (a * b) / a = r / a % b := by
  have hsplit : r % (a * b) = r + a * -(b * (r / a / b)) := by
    rw [Int.emod_def, Int.ediv_ediv_of_nonneg ha.le]
    ring
  rw [hsplit, Int.add_mul_ediv_left _ _ ha.ne', Int.emod_def, Int.sub_eq_add_neg]

/-- The `w` low bytes of an integer, in two's complement. -/
def lowBytes (w : ℕ) (r : ℤ) : List UInt8 := leBytes w (r % 256 ^ w).toNat

@[simp] theorem length_lowBytes (w : ℕ) (r : ℤ) : (lowBytes w r).length = w := length_leBytes w _

theorem lowBytes_natCast (w n : ℕ) : lowBytes w n = leBytes w n := by
  have hmod : ((n : ℤ) % 256 ^ w).toNat = n % 256 ^ w := by
    rw [← Int.toNat_natCast (n % 256 ^ w)]
    norm_cast
  rw [lowBytes, hmod, leBytes_mod]

/-- The low part of an integer, then its high part. -/
theorem lowBytes_add (v w : ℕ) (r : ℤ) :
    lowBytes (v + w) r = lowBytes v r ++ lowBytes w (r / 256 ^ v) := by
  have hpos : ∀ k : ℕ, (0 : ℤ) < 256 ^ k := fun k => pow_pos (by norm_num) k
  obtain ⟨m, hm⟩ : ∃ m : ℕ, r % 256 ^ (v + w) = m :=
    ⟨_, (Int.toNat_of_nonneg (Int.emod_nonneg r (hpos _).ne')).symm⟩
  have hlow : lowBytes v r = leBytes v m := by
    rw [← lowBytes_natCast, lowBytes, lowBytes, ← hm, pow_add, Int.emod_emod_of_dvd _ ⟨_, rfl⟩]
  have hhigh : r / 256 ^ v % 256 ^ w = ((m / 256 ^ v : ℕ) : ℤ) := by
    rw [← emod_mul_ediv (hpos v), ← pow_add, hm]
    norm_cast
  rw [lowBytes, hm, Int.toNat_natCast, leBytes_add, hlow, lowBytes, hhigh, Int.toNat_natCast]

theorem leNat_lowBytes {w : ℕ} {r : ℤ} (h0 : 0 ≤ r) (hlt : r < 256 ^ w) :
    (leNat (lowBytes w r) : ℤ) = r := by
  rw [lowBytes, Int.emod_eq_of_lt h0 hlt, leNat_leBytes_of_lt, Int.toNat_of_nonneg h0]
  exact (Int.toNat_lt h0).mpr (by exact_mod_cast hlt)

theorem lowBytes_leNat {w : ℕ} {bs : List UInt8} (h : bs.length = w) :
    lowBytes w (leNat bs) = bs := by
  rw [lowBytes_natCast, ← h, leBytes_leNat]

/-! ## The two byte orders -/

/-- The `w` low bytes of a number, most significant first. -/
def beBytes (w n : Nat) : List UInt8 := (leBytes w n).reverse

@[simp] theorem length_beBytes (w n : Nat) : (beBytes w n).length = w := by
  rw [beBytes, List.length_reverse, length_leBytes]

/-- **REVERSING A BYTE STRING** exchanges the two readings. -/
theorem leNat_reverse (bs : List UInt8) : leNat bs.reverse = beNat bs := by
  induction bs using List.reverseRecOn with
  | nil => rfl
  | append_singleton bs b ih =>
      rw [List.reverse_append, List.reverse_singleton, List.singleton_append, leNat_cons, ih,
        beNat_concat]
      ring

theorem beNat_reverse (bs : List UInt8) : beNat bs.reverse = leNat bs := by
  rw [← leNat_reverse, List.reverse_reverse]

theorem beNat_beBytes_of_lt {w n : Nat} (h : n < 256 ^ w) : beNat (beBytes w n) = n := by
  rw [beBytes, beNat_reverse, leNat_leBytes_of_lt h]

theorem beBytes_inj {w m n : Nat} (hm : m < 256 ^ w) (hn : n < 256 ^ w)
    (h : beBytes w m = beBytes w n) : m = n := by
  rw [← beNat_beBytes_of_lt hm, h, beNat_beBytes_of_lt hn]

theorem beNat_inj {as bs : List UInt8} (hlen : as.length = bs.length)
    (h : beNat as = beNat bs) : as = bs := by
  rw [← leNat_reverse, ← leNat_reverse] at h
  exact List.reverse_inj.mp
    (leNat_inj (by rw [List.length_reverse, List.length_reverse, hlen]) h)

/-! ## Fixed-size arrays -/

/-- A byte string where an array of fixed size is expected. -/
def fixedArray (n : Nat) (bs : List UInt8) : Option (Bytes n) :=
  if h : bs.length = n then some ⟨bs.toArray, by simpa using h⟩ else none

theorem fixedArray_of_length {n : Nat} {bs : List UInt8} (h : bs.length = n) :
    ∃ b : Bytes n, fixedArray n bs = some b ∧ b.toList = bs := by
  rw [fixedArray, dif_pos h]
  exact ⟨_, rfl, rfl⟩

theorem mapM_fixedArray {n : Nat} {bss : List (List UInt8)} (h : ∀ bs ∈ bss, bs.length = n) :
    ∃ arrays : List (Bytes n), bss.mapM (fixedArray n) = some arrays ∧
      arrays.map Vector.toList = bss := by
  induction bss with
  | nil => exact ⟨[], rfl, rfl⟩
  | cons bs bss ih =>
      obtain ⟨b, hb, hlist⟩ := fixedArray_of_length (h bs List.mem_cons_self)
      obtain ⟨arrays, harrays, hlists⟩ := ih fun x hx => h x (List.mem_cons_of_mem _ hx)
      refine ⟨b :: arrays, ?_, ?_⟩
      · rw [List.mapM_cons, hb, harrays]
        rfl
      · rw [List.map_cons, hlist, hlists]

end Albus.Lib
