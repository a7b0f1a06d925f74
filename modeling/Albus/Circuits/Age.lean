import Albus.Circuits.Date

/-! # The age check

    `utils/age.circom` and the lines of `ageProof.circom` and `kyc.circom` under
    "Age validation".  The current date, the parsed date of birth and both bounds
    of the comparison are assigned with `<--`, so the constraints compare numbers
    the prover chose: `AgeVerifier` does not even mention `minAge` and `maxAge` in
    a constraint.  With honest hints the check is sound up to the early stop of
    `timestampToDate` in February. -/

namespace Albus.Circuits

open Albus.Lib
open Albus.Lib.Calendar (IsLoose dayNumber dateNum IsDate.anniversary
  dayNumber_le_of_dateNum_ge dayNumber_le_of_dateNum_le)

/-! ## AgeRange -/

namespace AgeRange

structure Signals where
  bits : ℕ → F
  minAge : F
  maxAge : F

/-- `AgeRange()`, also the age part of `Config()` in `kyc.circom`. -/
structure Constraints (lib : Circomlib) (x : F) (s : Signals) : Prop where
  bits : lib.num2Bits 256 x s.bits
  minAge : s.minAge = bin2Num 8 0 s.bits
  maxAge : s.maxAge = bin2Num 8 8 s.bits

end AgeRange

/-- The two low bytes of a range. -/
def minAgeOf (range : F) : ℕ := range.val % 256

def maxAgeOf (range : F) : ℕ := range.val / 256 % 256

/-- Honest bits give the two bytes. -/
theorem AgeRange.Constraints.bytes {lib : Circomlib} {x : F} {s : AgeRange.Signals}
    (h : AgeRange.Constraints lib x s) (hbits : CanonicalBits x s.bits) :
    s.minAge = (minAgeOf x : F) ∧ s.maxAge = (maxAgeOf x : F) := by
  rw [h.minAge, h.maxAge, bin2Num_canonical hbits (by norm_num),
    bin2Num_canonical hbits (by norm_num), pow_zero, Nat.div_one]
  exact ⟨rfl, rfl⟩

theorem AgeRange.exists_constraints {lib : Circomlib} (hlib : lib.Arithmetic) (x : F) :
    ∃ s, AgeRange.Constraints lib x s ∧ CanonicalBits x s.bits :=
  ⟨⟨natBits x.val, _, _⟩, ⟨num2Bits_natBits hlib x, rfl, rfl⟩, fun _ _ => rfl⟩

/-! ## AgeVerifier -/

namespace AgeVerifier

structure Signals where
  currentDate : ℕ → F
  /-- `isGreater.in[1]` and `isLess.in[1]`. -/
  isGreaterIn : F
  isLessIn : F
  isGreaterOut : F
  isLessOut : F
  valid : F

/-- `AgeVerifier()`. -/
structure Constraints (lib : Circomlib) (s : Signals) : Prop where
  isGreater : lib.greaterEqThan 32 (dateToNum s.currentDate) s.isGreaterIn s.isGreaterOut
  isLess : lib.lessEqThan 32 (dateToNum s.currentDate) s.isLessIn s.isLessOut
  result : lib.and s.isGreaterOut s.isLessOut s.valid

structure Hints (birthDate : ℕ → F) (minAge maxAge : F) (s : Signals) : Prop where
  isGreaterIn : s.isGreaterIn = if 0 < signed minAge
    then dateToNum birthDate + minAge * 10000 else dateToNum s.currentDate
  isLessIn : s.isLessIn = if 0 < signed maxAge
    then dateToNum birthDate + maxAge * 10000 else dateToNum s.currentDate

end AgeVerifier

/-! ## Age validation -/

namespace AgeCheck

structure Signals where
  parse : ParseDate.Signals
  age : AgeVerifier.Signals

/-- `age.birthDate <== ParseDate()(birthDate)`, `age.valid === 1`. -/
structure Constraints (lib : Circomlib) (birthDate : F) (s : Signals) : Prop where
  parse : ParseDate.Constraints lib birthDate s.parse
  age : AgeVerifier.Constraints lib s.age
  valid : s.age.valid = 1

/-- With `age.currentDate <-- timestampToDate(timestamp)`. -/
structure Hints (timestamp birthDate minAge maxAge : F) (s : Signals) : Prop where
  parse : ParseDate.Hints birthDate s.parse
  currentDate : ∃ y m d, timestampToDate (signed timestamp) = some (y, m, d) ∧
    s.age.currentDate 0 = y ∧ s.age.currentDate 1 = m ∧ s.age.currentDate 2 = d
  age : AgeVerifier.Hints s.parse.out minAge maxAge s.age

end AgeCheck

/-- **WHAT THE AGE CHECK IS FOR**: the day of the timestamp is not before the
    `minAge`-th birthday and not after the `maxAge`-th, a bound of zero being no
    bound. -/
def AgeHolds (timestamp : ℕ) (birth : DateString) (minAge maxAge : ℕ) : Prop :=
  (0 < minAge → birth.birthday minAge ≤ dayOf timestamp) ∧
  (0 < maxAge → dayOf timestamp ≤ birth.birthday maxAge)

instance (timestamp : ℕ) (birth : DateString) (minAge maxAge : ℕ) :
    Decidable (AgeHolds timestamp birth minAge maxAge) :=
  inferInstanceAs (Decidable (_ ∧ _))

/-- The month loop of `timestampToDate` does not stop more than a day past the end
    of February. -/
def KeepsFebruary (timestamp : ℕ) : Prop :=
  ∀ date ∈ timestampToDate timestamp,
    date.2.1 = 2 → date.2.2 ≤ Calendar.daysInMonth date.1 2 + 1

instance (timestamp : ℕ) : Decidable (KeepsFebruary timestamp) :=
  inferInstanceAs (Decidable (∀ date ∈ timestampToDate timestamp, _))

/-- Later birthdays come later. -/
theorem birthday_lt (birth : DateString) {a b : ℕ} (h : a < b) :
    birth.birthday a < birth.birthday b := by
  have hend := (birth.valid.anniversary (birth.year + a)).dayNumber_lt
  have hstart := Calendar.dayNumber_ge (birth.year + b) birth.month birth.day
  have hyear := Calendar.daysBeforeYear_lt (by omega : birth.year + a < birth.year + b)
  rw [DateString.birthday]
  exact lt_of_lt_of_le hend (le_trans hyear hstart)

theorem timestampToDate_year_lt {timestamp y m d : ℕ}
    (h : timestampToDate timestamp = some (y, m, d)) : y < 10000 := by
  have hlt : timestamp < 4294967295 := by
    unfold timestampToDate at h
    split at h
    · omega
    · exact nomatch h
  obtain ⟨-, hday⟩ := timestampToDate_spec h
  have hyear := Calendar.daysBeforeYear_bounds y
  have h1970 := Calendar.daysBeforeYear_bounds 1970
  have hstart := Calendar.dayNumber_ge y m d
  have hepoch : dayNumber 1970 1 1 = Calendar.daysBeforeYear 1970 := by
    simp only [dayNumber, Nat.sub_self, Calendar.daysThrough, Nat.add_zero]
  rw [dayOf] at hday
  omega

/-- A date written as a number, as a signal. -/
theorem val_dateNum {y m d : ℕ} (hy : y < 20000) (hm : m ≤ 13) (hd : d ≤ 31) :
    ((dateNum y m d : ℕ) : F).val = dateNum y m d ∧ dateNum y m d < 2 ^ 32 := by
  have hlt : dateNum y m d < 2 ^ 32 := by
    rw [dateNum]
    omega
  exact ⟨ZMod.val_natCast_of_lt (lt_trans hlt (lt_trans (by norm_num) two_pow_252_lt)), hlt⟩

/-- A birthday of an age of one byte is in range. -/
theorem val_birthday (birth : DateString) {n : ℕ} (hn : n < 256) :
    ((dateNum (birth.year + n) birth.month birth.day : ℕ) : F).val
        = dateNum (birth.year + n) birth.month birth.day ∧
      dateNum (birth.year + n) birth.month birth.day < 2 ^ 32 := by
  have hyear := birth.year_lt
  exact val_dateNum (by omega) (le_trans birth.valid.month_le (by norm_num)) birth.day_le

theorem and_one_one {lib : Circomlib} (hlib : lib.Arithmetic) : lib.and 1 1 1 := by
  have htrue : (1 : F) = ofProp True := ((ofProp_eq_one_iff True).mpr trivial).symm
  rw [htrue, hlib.and True True]
  exact ((ofProp_eq_one_iff True).mpr trivial).trans
    ((ofProp_eq_one_iff (True ∧ True)).mpr ⟨trivial, trivial⟩).symm

/-- The bound the hint computes for an age: the birthday as a number, or the
    current date for an age of zero. -/
theorem bound_eq {birth : DateString} {out current : ℕ → F}
    (hout : out 0 = birth.year ∧ out 1 = birth.month ∧ out 2 = birth.day) {n : ℕ}
    (hn : n < 256) :
    (if 0 < signed (n : F) then dateToNum out + (n : F) * 10000 else dateToNum current)
      = if 0 < n then ((dateNum (birth.year + n) birth.month birth.day : ℕ) : F)
        else dateToNum current := by
  have hsigned : signed (n : F) = n := signed_natCast (by
    have : (256 : ℕ) ≤ bn254r / 2 := by decide
    omega)
  rw [hsigned, dateToNum_natCast hout.1 hout.2.1 hout.2.2]
  have hiff : ((0 : ℤ) < n) ↔ 0 < n := by omega
  simp only [hiff]
  split
  · unfold dateNum
    push_cast
    ring
  · rfl

/-- **HONEST HINTS MAKE THE AGE CHECK SOUND**, for a maximal age as long as the
    date does not run past February. -/
theorem AgeCheck.Constraints.sound {lib : Circomlib} (hlib : lib.Arithmetic)
    {timestamp : F} (hts : timestamp.val < 4294967295) {birth : DateString}
    {minAge maxAge : ℕ} (hmin : minAge < 256) (hmax : maxAge < 256)
    (hfeb : 0 < maxAge → KeepsFebruary timestamp.val) {s : AgeCheck.Signals}
    (h : AgeCheck.Constraints lib (beNat birth.bytes : F) s)
    (hh : AgeCheck.Hints timestamp (beNat birth.bytes : F) minAge maxAge s) :
    AgeHolds timestamp.val birth minAge maxAge := by
  have hsigned : signed timestamp = timestamp.val := by
    rw [signed]
    rw [if_pos]
    have : (4294967295 : ℕ) ≤ bn254r / 2 := by decide
    omega
  have hout := h.parse.out_eq hlib hh.parse
  obtain ⟨y, m, d, hdate, hcy, hcm, hcd⟩ := hh.currentDate
  rw [hsigned] at hdate
  obtain ⟨hloose, hday⟩ := timestampToDate_spec hdate
  have hm13 : m ≤ 13 := by
    rcases hloose.month_le with hm | ⟨hm, -⟩ <;> omega
  have hy := timestampToDate_year_lt hdate
  have hcur := dateToNum_natCast hcy hcm hcd
  obtain ⟨hcurval, hcurlt⟩ := val_dateNum (lt_trans hy (by norm_num)) hm13 hloose.day_le
  have hgreater := h.age.isGreater
  have hless := h.age.isLess
  have hresult := h.age.result
  rw [hh.age.isGreaterIn, bound_eq hout hmin, hcur] at hgreater
  rw [hh.age.isLessIn, bound_eq hout hmax, hcur] at hless
  -- both comparisons are of numbers in range, so their outputs are truth values
  have hgreater' : ∃ (p : Prop) (_ : Decidable p), s.age.isGreaterOut = ofProp p ∧
      (p → 0 < minAge →
        dateNum (birth.year + minAge) birth.month birth.day ≤ dateNum y m d) := by
    obtain ⟨hbval, hblt⟩ := val_birthday birth hmin
    by_cases hpos : 0 < minAge
    · rw [if_pos hpos, hlib.greaterEqThan 32 _ _ _ (by norm_num) (by rw [hcurval]; exact hcurlt)
        (by rw [hbval]; exact hblt), hcurval, hbval] at hgreater
      exact ⟨_, _, hgreater, fun hp _ => hp⟩
    · rw [if_neg hpos, hlib.greaterEqThan 32 _ _ _ (by norm_num) (by rw [hcurval]; exact hcurlt)
        (by rw [hcurval]; exact hcurlt)] at hgreater
      exact ⟨_, _, hgreater, fun _ hp => absurd hp hpos⟩
  have hless' : ∃ (p : Prop) (_ : Decidable p), s.age.isLessOut = ofProp p ∧
      (p → 0 < maxAge →
        dateNum y m d ≤ dateNum (birth.year + maxAge) birth.month birth.day) := by
    obtain ⟨hbval, hblt⟩ := val_birthday birth hmax
    by_cases hpos : 0 < maxAge
    · rw [if_pos hpos, hlib.lessEqThan 32 _ _ _ (by norm_num) (by rw [hcurval]; exact hcurlt)
        (by rw [hbval]; exact hblt), hcurval, hbval] at hless
      exact ⟨_, _, hless, fun hp _ => hp⟩
    · rw [if_neg hpos, hlib.lessEqThan 32 _ _ _ (by norm_num) (by rw [hcurval]; exact hcurlt)
        (by rw [hcurval]; exact hcurlt)] at hless
      exact ⟨_, _, hless, fun _ hp => absurd hp hpos⟩
  obtain ⟨p, hp, hgout, hple⟩ := hgreater'
  obtain ⟨q, hq, hlout, hqle⟩ := hless'
  rw [hgout, hlout, hlib.and p q] at hresult
  rw [h.valid] at hresult
  obtain ⟨hptrue, hqtrue⟩ := (ofProp_eq_one_iff _).mp hresult.symm
  rw [AgeHolds, ← hday]
  constructor
  · intro hpos
    exact dayNumber_le_of_dateNum_ge hloose (birth.valid.anniversary _) (hple hptrue hpos)
  · intro hpos
    refine dayNumber_le_of_dateNum_le hloose ?_ (birth.valid.anniversary _)
      (hqle hqtrue hpos)
    exact hfeb hpos (y, m, d) hdate

/-- An honest prover of the right age passes. -/
theorem AgeCheck.exists_honest {lib : Circomlib} (hlib : lib.Arithmetic) {timestamp : F}
    {birth : DateString} {y m d : ℕ}
    (hdate : timestampToDate (signed timestamp) = some (y, m, d)) (hy : y < 20000)
    (hm : m ≤ 13) (hd : d ≤ 31) {minAge maxAge : ℕ} (hmin : minAge < 256)
    (hmax : maxAge < 256)
    (hle : 0 < minAge →
      dateNum (birth.year + minAge) birth.month birth.day ≤ dateNum y m d)
    (hge : 0 < maxAge →
      dateNum y m d ≤ dateNum (birth.year + maxAge) birth.month birth.day) :
    ∃ s, AgeCheck.Constraints lib (beNat birth.bytes : F) s ∧
      AgeCheck.Hints timestamp (beNat birth.bytes : F) minAge maxAge s := by
  let parse := ParseDate.honest (beNat birth.bytes : F)
  let current : ℕ → F := fun i => [(y : F), m, d].getD i 0
  have hc : ParseDate.Constraints lib (beNat birth.bytes : F) parse :=
    ParseDate.honest_constraints hlib _
  have hh : ParseDate.Hints (beNat birth.bytes : F) parse := ParseDate.honest_hints _
  have hout := hc.out_eq hlib hh
  have hcur : dateToNum current = (dateNum y m d : F) := dateToNum_natCast rfl rfl rfl
  obtain ⟨hcurval, hcurlt⟩ := val_dateNum hy hm hd
  let bound : ℕ → F := fun n =>
    if 0 < signed (n : F) then dateToNum parse.out + (n : F) * 10000 else dateToNum current
  refine ⟨⟨parse, ⟨current, bound minAge, bound maxAge, 1, 1, 1⟩⟩, ⟨hc, ⟨?_, ?_, ?_⟩, rfl⟩,
    ⟨hh, ⟨y, m, d, hdate, rfl, rfl, rfl⟩, ⟨rfl, rfl⟩⟩⟩
  · show lib.greaterEqThan 32 (dateToNum current) (bound minAge) 1
    rw [show bound minAge = _ from bound_eq hout hmin, hcur]
    by_cases hpos : 0 < minAge
    · obtain ⟨hbval, hblt⟩ := val_birthday birth hmin
      rw [if_pos hpos, hlib.greaterEqThan 32 _ _ _ (by norm_num) (by rw [hcurval]; exact hcurlt)
        (by rw [hbval]; exact hblt), hcurval, hbval]
      exact ((ofProp_eq_one_iff _).mpr (hle hpos)).symm
    · rw [if_neg hpos, hlib.greaterEqThan 32 _ _ _ (by norm_num) (by rw [hcurval]; exact hcurlt)
        (by rw [hcurval]; exact hcurlt)]
      exact ((ofProp_eq_one_iff _).mpr le_rfl).symm
  · show lib.lessEqThan 32 (dateToNum current) (bound maxAge) 1
    rw [show bound maxAge = _ from bound_eq hout hmax, hcur]
    by_cases hpos : 0 < maxAge
    · obtain ⟨hbval, hblt⟩ := val_birthday birth hmax
      rw [if_pos hpos, hlib.lessEqThan 32 _ _ _ (by norm_num) (by rw [hcurval]; exact hcurlt)
        (by rw [hbval]; exact hblt), hcurval, hbval]
      exact ((ofProp_eq_one_iff _).mpr (hge hpos)).symm
    · rw [if_neg hpos, hlib.lessEqThan 32 _ _ _ (by norm_num) (by rw [hcurval]; exact hcurlt)
        (by rw [hcurval]; exact hcurlt)]
      exact ((ofProp_eq_one_iff _).mpr le_rfl).symm
  · exact and_one_one hlib

/-- **THE AGE CHECK EXCLUDES NO INPUT**: with the date and the bounds zero it is
    satisfied. -/
theorem AgeCheck.exists_constraints {lib : Circomlib} (hlib : lib.Arithmetic)
    (birthDate : F) : ∃ s, AgeCheck.Constraints lib birthDate s := by
  have hzero : dateToNum (fun _ => 0) = 0 := by
    rw [dateToNum]
    ring
  have hval : (0 : F).val < 2 ^ 32 := by
    rw [ZMod.val_zero]
    norm_num
  refine ⟨⟨ParseDate.honest birthDate, ⟨fun _ => 0, 0, 0, 1, 1, 1⟩⟩,
    ParseDate.honest_constraints hlib birthDate, ⟨?_, ?_, ?_⟩, rfl⟩
  · show lib.greaterEqThan 32 (dateToNum fun _ => 0) 0 1
    rw [hzero, hlib.greaterEqThan 32 _ _ _ (by norm_num) hval hval]
    exact ((ofProp_eq_one_iff _).mpr le_rfl).symm
  · show lib.lessEqThan 32 (dateToNum fun _ => 0) 0 1
    rw [hzero, hlib.lessEqThan 32 _ _ _ (by norm_num) hval hval]
    exact ((ofProp_eq_one_iff _).mpr le_rfl).symm
  · exact and_one_one hlib

end Albus.Circuits
