import IdentityCommon.Ecma.Double

/-!
# Dates

Dates as time values: a whole number of milliseconds in a range around the epoch, or nothing for an
invalid date, which compares with no date.

## Main definitions

- `TimeValue`, `Date` — time values, and dates
- `timeClip` — the date of a number of milliseconds, `new Date(ms)`
- `Date.getTime`, `Date.le`, `Date.lt` — the number of milliseconds, and comparisons
- `secondsToDate` — the date of a number of seconds

## Main results

- `secondsToDate_eq_none` — the seconds that have no date
- `timeClip_le`, `timeClip_not_lt` — where a date lies, from the number that it is made of
-/

namespace IdentityCommon.Ecma

/-- The largest time value. -/
def maxTime : ℤ := 8640000000000000

structure TimeValue where
  ms : ℤ
  inRange : |ms| ≤ maxTime

/-- A date, that is invalid where it has no time value. -/
abbrev Date := Option TimeValue

/-- `ToIntegerOrInfinity`: the fraction is dropped. -/
def trunc (q : ℚ) : ℤ := if 0 ≤ q then ⌊q⌋ else ⌈q⌉

theorem trunc_le {q : ℚ} {n : ℤ} (h : q ≤ n) : trunc q ≤ n := by
  rw [trunc]
  split_ifs with hq
  · exact_mod_cast (Int.floor_le q).trans h
  · exact Int.ceil_le.mpr h

theorem le_trunc {q : ℚ} {n : ℤ} (h : n ≤ q) : n ≤ trunc q := by
  rw [trunc]
  split_ifs with hq
  · exact Int.le_floor.mpr h
  · exact_mod_cast h.trans (Int.le_ceil q)

theorem abs_trunc_sub_le (q : ℚ) : |(trunc q : ℚ) - q| ≤ 1 := by
  rw [trunc, abs_le]
  have hfloor := Int.floor_le q
  have hfloor' := Int.lt_floor_add_one q
  have hceil := Int.le_ceil q
  have hceil' := Int.ceil_lt_add_one q
  split_ifs <;> constructor <;> linarith

theorem trunc_intCast (n : ℤ) : trunc n = n := le_antisymm (trunc_le le_rfl) (le_trunc le_rfl)

theorem abs_trunc_le {q : ℚ} {n : ℤ} (h : |q| ≤ n) : |trunc q| ≤ n := by
  obtain ⟨hlow, hhigh⟩ := abs_le.mp h
  refine abs_le.mpr ⟨le_trunc ?_, trunc_le hhigh⟩
  push_cast
  exact hlow

/-- `new Date(ms)`. -/
def timeClip : Double → Date
  | .finite x => if h : |x.value| ≤ maxTime then some ⟨trunc x.value, abs_trunc_le h⟩ else none
  | _ => none

theorem TimeValue.abs_ms_le (t : TimeValue) : |t.ms| ≤ 2 ^ 53 := t.inRange.trans (by decide)

def TimeValue.toFinite (t : TimeValue) : Finite := .ofInt t.ms t.abs_ms_le

namespace Date

def getTime : Date → Double
  | none => .nan
  | some t => .finite t.toFinite

/-- `date <= other`. -/
def le (date other : Date) : Bool := date.getTime.le other.getTime

/-- `other > date`. -/
def lt (date other : Date) : Bool := date.getTime.lt other.getTime

@[simp] theorem none_le (date : Date) : le none date = false := rfl

@[simp] theorem lt_none (date : Date) : lt date none = false := Double.lt_nan _

@[simp] theorem some_le (t u : TimeValue) : le (some t) (some u) = true ↔ t.ms ≤ u.ms := by
  simp [le, getTime, TimeValue.toFinite]

@[simp] theorem some_lt (t u : TimeValue) : lt (some t) (some u) = true ↔ t.ms < u.ms := by
  simp [lt, getTime, TimeValue.toFinite]

end Date

def thousand : Double := .finite (.ofInt 1000 (by decide))

def secondsToDate (seconds : Double) : Date := timeClip (seconds.mul thousand)

/-! ## The date of a number -/

theorem round_intCast {n : ℤ} (h : |n| ≤ 2 ^ 53) : binary64.round n = n :=
  FloatFormat.round_eq_self binary64_precision (FloatFormat.representable_intCast h (by decide))

theorem round_le_intCast {q : ℚ} {n : ℤ} (hn : |n| ≤ 2 ^ 53) (h : q ≤ n) : binary64.round q ≤ n :=
  FloatFormat.round_le binary64_precision (FloatFormat.representable_intCast hn (by decide)) h

theorem intCast_le_round {q : ℚ} {n : ℤ} (hn : |n| ≤ 2 ^ 53) (h : n ≤ q) : n ≤ binary64.round q :=
  FloatFormat.le_round binary64_precision (FloatFormat.representable_intCast hn (by decide)) h

theorem maxTime_lt_overflow : (maxTime : ℚ) < overflow :=
  lt_of_le_of_lt (by norm_num [maxTime]) (lt_overflow (n := 53) (by decide))

theorem abs_round_le_maxTime {q : ℚ} (h : |q| ≤ maxTime) : |binary64.round q| ≤ maxTime := by
  obtain ⟨hlow, hhigh⟩ := abs_le.mp h
  refine abs_le.mpr ⟨?_, round_le_intCast (by decide) hhigh⟩
  have := intCast_le_round (n := -maxTime) (by decide) (by push_cast; exact hlow)
  exact_mod_cast this

theorem timeClip_ofRat {q : ℚ} (h : |binary64.round q| ≤ maxTime) :
    timeClip (Double.ofRat q) = some ⟨trunc (binary64.round q), abs_trunc_le h⟩ := by
  rw [Double.ofRat, dif_pos (h.trans_lt maxTime_lt_overflow), timeClip, dif_pos h]

theorem timeClip_ofRat_eq_none {q : ℚ} (h : maxTime < |binary64.round q|) :
    timeClip (Double.ofRat q) = none := by
  rw [Double.ofRat]
  split_ifs
  · rw [timeClip, dif_neg (not_le.mpr h)]
  · rfl

/-- A number after an instant has no date, or one after the instant. -/
theorem timeClip_not_le {q : ℚ} {now : TimeValue} (h : now.ms + 1 ≤ q) :
    (timeClip (Double.ofRat q)).le (some now) = false := by
  by_cases hq : |binary64.round q| ≤ maxTime
  · have hrange := abs_le.mp now.inRange
    have hnow : |now.ms + 1| ≤ 2 ^ 53 := by
      rw [maxTime] at hrange
      exact abs_le.mpr ⟨by omega, by omega⟩
    have hlt := le_trunc (intCast_le_round hnow (q := q) (by push_cast; exact h))
    rw [timeClip_ofRat hq, Bool.eq_false_iff, Ne, Date.some_le]
    dsimp only
    omega
  · rw [timeClip_ofRat_eq_none (not_le.mp hq)]
    rfl

theorem timeClip_not_lt {q : ℚ} {now : TimeValue} (h : q ≤ now.ms) :
    Date.lt (some now) (timeClip (Double.ofRat q)) = false := by
  by_cases hq : |binary64.round q| ≤ maxTime
  · have hle := trunc_le (round_le_intCast now.abs_ms_le h)
    rw [timeClip_ofRat hq, Bool.eq_false_iff, Ne, Date.some_lt]
    exact not_lt.mpr hle
  · rw [timeClip_ofRat_eq_none (not_le.mp hq)]
    exact Date.lt_none _

theorem timeClip_le {q : ℚ} {now : TimeValue} (hlow : -maxTime ≤ q) (h : q ≤ now.ms) :
    (timeClip (Double.ofRat q)).le (some now) = true := by
  have hq : |q| ≤ maxTime :=
    abs_le.mpr ⟨hlow, h.trans (by exact_mod_cast (abs_le.mp now.inRange).2)⟩
  rw [timeClip_ofRat (abs_round_le_maxTime hq), Date.some_le]
  exact trunc_le (round_le_intCast now.abs_ms_le h)

theorem timeClip_lt {q : ℚ} {now : TimeValue} (h : now.ms + 1 ≤ q) (hhigh : q ≤ maxTime) :
    Date.lt (some now) (timeClip (Double.ofRat q)) = true := by
  have hrange := abs_le.mp now.inRange
  have hq : |q| ≤ maxTime := by
    refine abs_le.mpr ⟨?_, hhigh⟩
    have : (-maxTime : ℚ) ≤ now.ms := by exact_mod_cast hrange.1
    linarith
  have hnow : |now.ms + 1| ≤ 2 ^ 53 := by
    rw [maxTime] at hrange
    exact abs_le.mpr ⟨by omega, by omega⟩
  have hle := le_trunc (intCast_le_round hnow (q := q) (by push_cast; exact h))
  rw [timeClip_ofRat (abs_round_le_maxTime hq), Date.some_lt]
  dsimp only
  omega

/-! ## The date of a number of seconds -/

theorem secondsToDate_finite (x : Finite) :
    secondsToDate (.finite x) = timeClip (Double.ofRat (x.value * 1000)) := rfl

/-- A finite double of at least `2 ^ 42` in size is a multiple of `1 / 1024`. -/
theorem exists_mul_1024 {x : Finite} (h : 2 ^ 42 < |x.value|) : ∃ n : ℤ, x.value * 1024 = n := by
  obtain ⟨m, e, hm, _, he⟩ := x.representable
  have hmq : |(m : ℚ)| ≤ 2 ^ 53 := by exact_mod_cast hm
  rcases le_or_gt (-10) e with hle | hlt
  · obtain ⟨d, hd⟩ := Int.le.dest hle
    refine ⟨m * 2 ^ d, ?_⟩
    rw [he, ← hd, zpow_add₀ (by norm_num), zpow_natCast]
    push_cast
    norm_num
    ring
  · exfalso
    have hpow : (2 : ℚ) ^ e ≤ 2 ^ (-11 : ℤ) := zpow_le_zpow_right₀ (by norm_num) (by omega)
    have habs : |x.value| ≤ 2 ^ 53 * 2 ^ (-11 : ℤ) := by
      rw [he, abs_mul, abs_of_pos (zpow_pos (by norm_num : (0 : ℚ) < 2) e)]
      exact mul_le_mul hmq hpow (zpow_pos (by norm_num) e).le (by norm_num)
    norm_num at habs h
    linarith

theorem secondsToDate_eq_none {x : Finite} (h : (maxTime : ℚ) < |x.value * 1000|) :
    secondsToDate (.finite x) = none := by
  rw [secondsToDate_finite]
  refine timeClip_ofRat_eq_none ?_
  -- the next double after the limit is nearer to the next millisecond than to the limit
  have hmax : (maxTime : ℚ) = 8640000000000000 := by norm_num [maxTime]
  have habs : (8640000000000 : ℚ) < |x.value| := by
    rw [abs_mul, hmax] at h
    norm_num at h
    linarith
  obtain ⟨n, hn⟩ := exists_mul_1024 (x := x) (by norm_num at habs ⊢; linarith)
  rw [hmax]
  rcases lt_abs.mp habs with hpos | hneg
  · have hgrid : (8640000000000 * 1024 : ℤ) + 1 ≤ n := by
      have : (8640000000000 * 1024 : ℚ) < n := by rw [← hn]; linarith
      exact_mod_cast this
    have hgridq : (8640000000000 * 1024 : ℚ) + 1 ≤ n := by exact_mod_cast hgrid
    have hlow : (8640000000000000 + 1000 / 1024 : ℚ) ≤ x.value * 1000 := by linarith
    have hmono := FloatFormat.round_mono binary64_precision hlow
    have hnear := FloatFormat.abs_round_sub_le binary64_precision
      (FloatFormat.representable_intCast (n := 8640000000000001) (by decide) (by decide))
      (8640000000000000 + 1000 / 1024)
    rw [abs_of_pos (a := ((8640000000000001 : ℤ) : ℚ) - (8640000000000000 + 1000 / 1024))
      (by norm_num)] at hnear
    have := (abs_le.mp hnear).1
    push_cast at this
    refine lt_abs.mpr (.inl ?_)
    linarith
  · have hgrid : n ≤ (-8640000000000 * 1024 : ℤ) - 1 := by
      have : (n : ℚ) < (-8640000000000 * 1024 : ℚ) := by rw [← hn]; linarith
      have : n < (-8640000000000 * 1024 : ℤ) := by exact_mod_cast this
      omega
    have hgridq : (n : ℚ) ≤ (-8640000000000 * 1024 : ℚ) - 1 := by exact_mod_cast hgrid
    have hhigh : x.value * 1000 ≤ (-8640000000000000 - 1000 / 1024 : ℚ) := by linarith
    have hmono := FloatFormat.round_mono binary64_precision hhigh
    have hnear := FloatFormat.abs_round_sub_le binary64_precision
      (FloatFormat.representable_intCast (n := -8640000000000001) (by decide) (by decide))
      (-8640000000000000 - 1000 / 1024)
    rw [abs_of_neg (a := ((-8640000000000001 : ℤ) : ℚ) - (-8640000000000000 - 1000 / 1024))
      (by norm_num)] at hnear
    have := (abs_le.mp hnear).2
    push_cast at this
    refine lt_abs.mpr (.inr ?_)
    linarith

theorem secondsToDate_eq_some {x : Finite} (h : |x.value * 1000| ≤ maxTime) :
    secondsToDate (.finite x) = some ⟨trunc (binary64.round (x.value * 1000)),
      abs_trunc_le (abs_round_le_maxTime h)⟩ := by
  rw [secondsToDate_finite, timeClip_ofRat (abs_round_le_maxTime h)]

end IdentityCommon.Ecma
