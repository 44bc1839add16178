import Mathlib.Analysis.SpecialFunctions.Log.Base
import Mathlib.Algebra.Order.Floor.Div

/-!
# Numeral strings

Strings of a fixed number of numerals in a radix, the most significant numeral first, and how long
they have to be.

## Main definitions

- `num` — the number that a numeral string represents
- `str` — the numeral string of a number, with a given number of numerals

## Main results

- `num_append`, `str_add` — the number of a string in two parts, and the parts of the string of a
  number
- `num_str` — the string of a number represents it
- `natCeil_mul_logb` — how many digits of a base the numbers below a power of the radix have
-/

namespace IdentityCommon.NumeralString

def num (radix : ℕ) (X : List ℕ) : ℕ := X.foldl (fun x numeral => x * radix + numeral) 0

def str (radix : ℕ) : ℕ → ℕ → List ℕ
  | 0, _ => []
  | m + 1, x => str radix m (x / radix) ++ [x % radix]

@[simp] theorem length_str (radix m x : ℕ) : (str radix m x).length = m := by
  induction m generalizing x with
  | zero => rfl
  | succ m ih => rw [str, List.length_append, ih, List.length_singleton]

theorem foldl_num (radix : ℕ) (X : List ℕ) (x : ℕ) :
    X.foldl (fun x numeral => x * radix + numeral) x = x * radix ^ X.length + num radix X := by
  induction X generalizing x with
  | nil => simp [num]
  | cons numeral X ih =>
    rw [num, List.foldl_cons, List.foldl_cons, ih, ih (0 * radix + numeral), List.length_cons]
    ring

theorem num_append (radix : ℕ) (X Y : List ℕ) :
    num radix (X ++ Y) = num radix X * radix ^ Y.length + num radix Y := by
  rw [num, List.foldl_append, foldl_num]
  rfl

theorem num_str (radix m x : ℕ) : num radix (str radix m x) = x % radix ^ m := by
  induction m generalizing x with
  | zero => simp [str, num, Nat.mod_one]
  | succ m ih =>
    have hsingle : num radix [x % radix] = x % radix := by simp [num]
    rw [str, num_append, ih, hsingle, List.length_singleton, pow_one, pow_succ', Nat.mod_mul]
    ring

theorem str_add (radix u v x : ℕ) :
    str radix (u + v) x = str radix u (x / radix ^ v) ++ str radix v x := by
  induction v generalizing x with
  | zero => simp [str]
  | succ v ih => rw [← Nat.add_assoc, str, str, ih, Nat.div_div_eq_div_mul, ← pow_succ',
      List.append_assoc]

/-- The digits of the numbers below a power of the radix. -/
theorem natCeil_mul_logb (base radix v : ℕ) :
    ⌈(v : ℝ) * Real.logb base radix⌉₊ = Nat.clog base (radix ^ v) := by
  rw [← Real.logb_pow, ← Nat.cast_pow, Real.natCeil_logb_natCast]

/-- The greatest number below a power has as many digits as all the numbers below it. -/
theorem length_toDigits_pred {base n : ℕ} (hb : 1 < base) (hn : 1 < n) :
    (Nat.toDigits base (n - 1)).length = Nat.clog base n := by
  have hiff : ∀ k, 0 < k → ((Nat.toDigits base (n - 1)).length ≤ k ↔ Nat.clog base n ≤ k) := by
    intro k hk
    rw [Nat.length_toDigits_le_iff hb hk, Nat.clog_le_iff_le_pow hb]
    omega
  apply le_antisymm
  · exact (hiff _ (Nat.clog_pos hb hn)).mpr le_rfl
  · exact (hiff _ Nat.length_toDigits_pos).mp le_rfl

end IdentityCommon.NumeralString
