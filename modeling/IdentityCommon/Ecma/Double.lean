import IdentityCommon.Ecma.Number
import IdentityCommon.Lib.FloatFormat

/-!
# Arithmetic

The numbers of the language as binary doubles: `NaN`, the infinities, and the numbers of the format,
on which an operation rounds its exact result.

## Main definitions

- `binary64` — the format
- `Finite`, `Double` — finite doubles, and doubles
- `Double.ofRat` — the double next to a rational number
- `Double.add`, `Double.sub`, `Double.mul`, `Double.div` — the operators
- `Double.le`, `Double.lt` — the comparisons, that are false of `NaN`

## Design notes

The two zeros are one number here: no operation that is modelled tells them apart.
-/

namespace IdentityCommon.Ecma

def binary64 : FloatFormat := ⟨53, -1074⟩

theorem binary64_precision : 0 < binary64.precision := by decide

/-- What a rounded number must stay below to be finite. -/
def overflow : ℚ := 2 ^ 1024

theorem lt_overflow {n : ℕ} (h : n < 1024) : (2 : ℚ) ^ n < overflow :=
  pow_lt_pow_right₀ (by norm_num) h

/-- A finite double. -/
structure Finite where
  value : ℚ
  representable : binary64.Representable value
  bounded : |value| < overflow

@[ext] theorem Finite.ext {x y : Finite} (h : x.value = y.value) : x = y := by
  cases x
  cases y
  cases h
  rfl

def Finite.neg (x : Finite) : Finite where
  value := -x.value
  representable := FloatFormat.representable_neg x.representable
  bounded := (abs_neg x.value).symm ▸ x.bounded

inductive Double
  | nan
  | infinite (negative : Bool)
  | finite (x : Finite)

namespace Double

/-- The double next to a number. One that is too large is rounded to an infinity. -/
def ofRat (q : ℚ) : Double :=
  if h : |binary64.round q| < overflow then
    finite ⟨binary64.round q, FloatFormat.representable_round q, h⟩
  else infinite (q < 0)

def ofNumber (n : Number) : Double := ofRat n.toRat

def isFinite : Double → Bool
  | finite _ => true
  | _ => false

/-! ## Operators -/

def neg : Double → Double
  | nan => nan
  | infinite negative => infinite !negative
  | finite x => finite x.neg

def add : Double → Double → Double
  | nan, _ | _, nan => nan
  | infinite a, infinite b => if a = b then infinite a else nan
  | infinite a, finite _ | finite _, infinite a => infinite a
  | finite x, finite y => ofRat (x.value + y.value)

def sub (x y : Double) : Double := add x (neg y)

/-- An infinity times a number of a sign. -/
def scaleInfinite (negative : Bool) (q : ℚ) : Double :=
  if q = 0 then nan else infinite (negative != decide (q < 0))

def mul : Double → Double → Double
  | nan, _ | _, nan => nan
  | infinite a, infinite b => infinite (a != b)
  | infinite a, finite x | finite x, infinite a => scaleInfinite a x.value
  | finite x, finite y => ofRat (x.value * y.value)

def div : Double → Double → Double
  | nan, _ | _, nan | infinite _, infinite _ => nan
  | infinite a, finite x => infinite (a != decide (x.value < 0))
  | finite _, infinite _ => ofRat 0
  | finite x, finite y =>
    if y.value = 0 then scaleInfinite false x.value
    else ofRat (x.value / y.value)

/-! ## Comparisons -/

def le : Double → Double → Bool
  | nan, _ | _, nan => false
  | infinite true, _ | _, infinite false => true
  | infinite false, _ | _, infinite true => false
  | finite x, finite y => x.value ≤ y.value

def lt (x y : Double) : Bool := le x y && !le y x

@[simp] theorem le_finite (x y : Finite) :
    le (finite x) (finite y) = true ↔ x.value ≤ y.value := by simp [le]

@[simp] theorem lt_finite (x y : Finite) : lt (finite x) (finite y) = true ↔ x.value < y.value := by
  simp only [lt, le, Bool.and_eq_true, Bool.not_eq_true', decide_eq_true_eq,
    decide_eq_false_iff_not, not_le]
  exact ⟨And.right, fun h => ⟨h.le, h⟩⟩

/-- A number that is not one compares with nothing. -/
theorem lt_nan (x : Double) : lt x nan = false := by cases x <;> rfl

/-! ## Exact results -/

theorem ofRat_value (x : Finite) : ofRat x.value = finite x := by
  have hround := FloatFormat.round_eq_self binary64_precision x.representable
  rw [ofRat, dif_pos (by rw [hround]; exact x.bounded)]
  exact congrArg finite (Finite.ext hround)

theorem ofRat_eq_finite {q : ℚ} (h : |binary64.round q| < overflow) :
    ∃ x : Finite, ofRat q = finite x ∧ x.value = binary64.round q :=
  ⟨_, dif_pos h, rfl⟩

/-- The sign and the size of an infinity that a number is rounded to. -/
theorem ofRat_eq_infinite {q : ℚ} (h : ¬ |binary64.round q| < overflow) :
    ofRat q = infinite (q < 0) := dif_neg h

/-- The negation of a rounded number is rounded the same way. -/
theorem neg_ofRat (q : ℚ) : neg (ofRat q) = ofRat (-q) := by
  have hround := FloatFormat.round_neg (F := binary64) q
  by_cases hq : |binary64.round q| < overflow
  · obtain ⟨x, hx, hxv⟩ := ofRat_eq_finite hq
    obtain ⟨y, hy, hyv⟩ := ofRat_eq_finite (q := -q) (by rwa [hround, abs_neg])
    have hvalue : x.neg.value = y.value := by simp only [Finite.neg, hxv, hyv, hround]
    rw [hx, hy, neg]
    exact congrArg finite (Finite.ext hvalue)
  · rw [ofRat_eq_infinite hq, ofRat_eq_infinite (by rwa [hround, abs_neg]), neg]
    have hzero : q ≠ 0 := by
      rintro rfl
      rw [FloatFormat.round_eq_self binary64_precision ⟨0, 0, by simp, by decide, by simp⟩,
        abs_zero] at hq
      exact hq (by rw [overflow]; positivity)
    rcases lt_or_gt_of_ne hzero with hneg | hpos
    · simp [hneg, hneg.le]
    · simp [hpos, hpos.le]

end Double

/-- An integer of at most 53 bits. -/
def Finite.ofInt (n : ℤ) (h : |n| ≤ 2 ^ 53) : Finite where
  value := n
  representable := FloatFormat.representable_intCast h (by decide)
  bounded := by
    have hn : |(n : ℚ)| ≤ 2 ^ 53 := by exact_mod_cast h
    exact hn.trans_lt (lt_overflow (by decide))

theorem abs_thirty_le : |(30 : ℤ)| ≤ 2 ^ 53 := by decide

theorem abs_threeHundred_le : |(300 : ℤ)| ≤ 2 ^ 53 := by decide

@[simp] theorem Finite.value_ofInt (n : ℤ) (h : |n| ≤ 2 ^ 53) : (Finite.ofInt n h).value = n := rfl

theorem Double.ofNumber_ofInt {n : ℤ} (h : |n| ≤ 2 ^ 53) :
    Double.ofNumber (.ofInt n) = .finite (.ofInt n h) := by
  rw [ofNumber, Number.toRat_ofInt]
  exact ofRat_value (Finite.ofInt n h)

/-! ## Rounding -/

/-- Rounding to doubles keeps the order, whether or not the results are finite. -/
theorem Double.le_ofRat {p q : ℚ} (h : p ≤ q) : (ofRat p).le (ofRat q) = true := by
  have hmono := FloatFormat.round_mono binary64_precision h
  by_cases hp : |binary64.round p| < overflow <;> by_cases hq : |binary64.round q| < overflow
  · obtain ⟨x, hx, hxv⟩ := ofRat_eq_finite hp
    obtain ⟨y, hy, hyv⟩ := ofRat_eq_finite hq
    rw [hx, hy, le_finite, hxv, hyv]
    exact hmono
  · obtain ⟨x, hx, hxv⟩ := ofRat_eq_finite hp
    rw [hx, ofRat_eq_infinite hq]
    have hsign : ¬ q < 0 := by
      intro hneg
      have hround : binary64.round q ≤ 0 := FloatFormat.round_le binary64_precision
        (by exact_mod_cast FloatFormat.representable_intCast (n := 0) (by simp) (by decide)) hneg.le
      rw [abs_of_nonpos hround] at hq
      rw [abs_lt] at hp
      linarith
    simp [hsign, le]
  · obtain ⟨y, hy, hyv⟩ := ofRat_eq_finite hq
    rw [hy, ofRat_eq_infinite hp]
    have hsign : p < 0 := by
      by_contra hpos
      have hround : 0 ≤ binary64.round p := FloatFormat.le_round binary64_precision
        (by exact_mod_cast FloatFormat.representable_intCast (n := 0) (by simp) (by decide))
          (not_lt.mp hpos)
      rw [abs_of_nonneg hround] at hp
      rw [abs_lt] at hq
      linarith
    simp [hsign, le]
  · rw [ofRat_eq_infinite hp, ofRat_eq_infinite hq]
    by_cases hneg : p < 0
    · simp [hneg, le]
    · have hneg' : ¬ q < 0 := by linarith
      simp [hneg, hneg', le]

end IdentityCommon.Ecma
