import Mathlib.Data.Nat.Digits.Defs
import Mathlib.Data.Int.Basic
import Mathlib.Tactic

/-!
# Numbers

The numbers of JSON values, as decimals. A number of the language is a binary double, which
its shortest decimal identifies; no rounding happens in the code that is modelled, so the
decimals are exact here.

## Main definitions

- `Number` — a decimal whose last digit is not zero
- `Number.ofDecimal` — the number `mantissa * 10 ^ exponent`
- `Number.toString` — the text of a number, as `Number::toString` gives it
-/

namespace IdentityCommon.Ecma

/-- A decimal `mantissa * 10 ^ exponent` in its only spelling: the mantissa does not end in zero,
unless the number is zero. -/
structure Number where
  mantissa : ℤ
  exponent : ℤ
  canonical : ¬ (10 : ℤ) ∣ mantissa ∨ mantissa = 0 ∧ exponent = 0
  deriving DecidableEq

namespace Number

/-- Moves zeros at the end of the mantissa into the exponent, at most `fuel` of them. -/
def strip : ℕ → ℤ → ℤ → ℤ × ℤ
  | 0, m, e => (m, e)
  | fuel + 1, m, e => if (10 : ℤ) ∣ m then strip fuel (m / 10) (e + 1) else (m, e)

theorem strip_canonical (fuel : ℕ) :
    ∀ m e : ℤ, m ≠ 0 → m.natAbs ≤ fuel → ¬ (10 : ℤ) ∣ (strip fuel m e).1 := by
  induction fuel with
  | zero =>
    intro m e hm hf
    exact absurd (Int.natAbs_eq_zero.mp (Nat.le_zero.mp hf)) hm
  | succ fuel ih =>
    intro m e hm hf
    by_cases hd : (10 : ℤ) ∣ m
    · rw [strip, if_pos hd]
      obtain ⟨k, rfl⟩ := hd
      have hk : k ≠ 0 := by rintro rfl; simp at hm
      rw [Int.mul_ediv_cancel_left _ (by decide)]
      exact ih k (e + 1) hk (by omega)
    · rw [strip, if_neg hd]
      exact hd

/-- The number `m * 10 ^ e`. -/
def ofDecimal (m e : ℤ) : Number :=
  if hm : m = 0 then ⟨0, 0, .inr ⟨rfl, rfl⟩⟩
  else ⟨(strip m.natAbs m e).1, (strip m.natAbs m e).2, .inl (strip_canonical _ m e hm le_rfl)⟩

instance : OfNat Number n := ⟨ofDecimal n 0⟩

theorem strip_mul_pow {m : ℤ} (h : ¬ (10 : ℤ) ∣ m) (j : ℕ) :
    ∀ (fuel : ℕ) (e : ℤ), j ≤ fuel → strip fuel (m * 10 ^ j) e = (m, e + j) := by
  induction j with
  | zero =>
    intro fuel e _
    cases fuel with
    | zero => simp [strip]
    | succ fuel => simp [strip, h]
  | succ j ih =>
    intro fuel e hf
    obtain ⟨fuel, rfl⟩ := Nat.exists_eq_add_of_lt hf
    have hdvd : (10 : ℤ) ∣ m * 10 ^ (j + 1) := Dvd.intro_left (m * 10 ^ j) (by ring)
    have hdiv : m * 10 ^ (j + 1) / 10 = m * 10 ^ j := by
      rw [pow_succ, ← mul_assoc, Int.mul_ediv_cancel _ (by decide)]
    rw [strip, if_pos hdvd, hdiv, ih _ _ (by omega)]
    push_cast
    ring_nf

/-- Zeros at the end of the mantissa make no difference. -/
theorem ofDecimal_mul_pow (n : Number) (j : ℕ) :
    ofDecimal (n.mantissa * 10 ^ j) (n.exponent - j) = n := by
  obtain ⟨m, e, hc⟩ := n
  obtain hm | ⟨rfl, rfl⟩ := hc
  · have hne : m ≠ 0 := by
      rintro rfl
      exact hm (dvd_zero 10)
    have hne' : m * 10 ^ j ≠ 0 := mul_ne_zero hne (pow_ne_zero j (by decide))
    have hj : j ≤ (m * 10 ^ j).natAbs := by
      rw [Int.natAbs_mul, Int.natAbs_pow]
      calc j ≤ 10 ^ j := (Nat.lt_pow_self (by decide)).le
        _ ≤ m.natAbs * 10 ^ j := Nat.le_mul_of_pos_left _ (Int.natAbs_pos.mpr hne)
    rw [ofDecimal, dif_neg hne']
    simp only [strip_mul_pow hm j _ _ hj, mk.injEq, true_and]
    ring
  · simp [ofDecimal]

/-- An integer as a number. -/
def ofInt (n : ℤ) : Number := ofDecimal n 0

/-- The value of a number. -/
def toRat (n : Number) : ℚ := n.mantissa * (10 : ℚ) ^ n.exponent

theorem strip_value (fuel : ℕ) (m e : ℤ) :
    ((strip fuel m e).1 : ℚ) * 10 ^ (strip fuel m e).2 = m * 10 ^ e := by
  induction fuel generalizing m e with
  | zero => rfl
  | succ fuel ih =>
    rw [strip]
    split_ifs with hd
    · obtain ⟨k, rfl⟩ := hd
      rw [Int.mul_ediv_cancel_left _ (by decide), ih, zpow_add_one₀ (by norm_num)]
      push_cast
      ring
    · rfl

theorem toRat_ofDecimal (m e : ℤ) : (ofDecimal m e).toRat = m * 10 ^ e := by
  rw [ofDecimal, toRat]
  split_ifs with hm
  · simp [hm]
  · exact strip_value _ m e

@[simp] theorem toRat_ofInt (n : ℤ) : (ofInt n).toRat = n := by simp [ofInt, toRat_ofDecimal]

def zeros (n : ℕ) : List Char := List.replicate n '0'

/-- The decimal digits of a natural number. -/
def digits (n : ℕ) : List Char := Nat.toDigits 10 n

/-- The digits of a positive number, with a point or an exponent where they are needed: the cases of
`Number::toString`. -/
def toChars (m : ℕ) (e : ℤ) : List Char :=
  let s := digits m
  let k : ℤ := s.length
  let n := k + e
  if k ≤ n ∧ n ≤ 21 then s ++ zeros e.toNat
  else if 0 < n ∧ n ≤ 21 then s.take n.toNat ++ '.' :: s.drop n.toNat
  else if -6 < n ∧ n ≤ 0 then '0' :: '.' :: (zeros (-n).toNat ++ s)
  else
    let exponentPart := 'e' :: (if 0 < n then '+' else '-') :: digits (n - 1).natAbs
    if k = 1 then s ++ exponentPart
    else s.take 1 ++ '.' :: (s.drop 1 ++ exponentPart)

/-- The text of a number. -/
def toText (n : Number) : List Char :=
  if n.mantissa < 0 then '-' :: toChars n.mantissa.natAbs n.exponent
  else toChars n.mantissa.natAbs n.exponent

def toString (n : Number) : String := String.ofList n.toText

example : (ofDecimal (-1250) (-1)).toString = "-125" := by decide

example : (ofDecimal 15 (-8)).toString = "1.5e-7" := by decide

end Number

end IdentityCommon.Ecma
