import Mathlib.Data.Int.Log
import Mathlib.Data.Rat.Floor
import Mathlib.Tactic

/-!
# Rounding to a binary floating-point format

Rounding of rational numbers to the nearest number of a binary format, ties to even. A format has a
precision and a least exponent; overflow is left to the caller.

## Main definitions

- `FloatFormat` — a precision and a least exponent
- `FloatFormat.Representable` — the numbers of a format
- `FloatFormat.round` — the nearest number of a format

## Main results

- `FloatFormat.abs_round_sub_le` — no number of the format is nearer
- `FloatFormat.round_eq_self`, `FloatFormat.round_mono` — rounding keeps the numbers of the format,
  and the order
- `FloatFormat.abs_round_sub_le_ulp` — how far rounding goes
-/

namespace IdentityCommon

structure FloatFormat where
  precision : ℕ
  minExponent : ℤ

namespace FloatFormat

/-! ## Integers -/

/-- The nearest integer, and the even one of two that are equally near. -/
def roundEven (x : ℚ) : ℤ :=
  let n := ⌊x⌋
  if x - n < 1 / 2 then n
  else if 1 / 2 < x - n then n + 1
  else if Even n then n
  else n + 1

theorem abs_roundEven_sub_le (x : ℚ) (n : ℤ) : |(roundEven x : ℚ) - x| ≤ |(n : ℚ) - x| := by
  have hle : (⌊x⌋ : ℚ) ≤ x := Int.floor_le x
  have hlt : x < ⌊x⌋ + 1 := Int.lt_floor_add_one x
  -- an integer is at most the floor or at least its successor
  have hn : (n : ℚ) ≤ ⌊x⌋ ∨ (⌊x⌋ : ℚ) + 1 ≤ n := by
    rcases lt_or_ge ⌊x⌋ n with h | h
    · right
      exact_mod_cast h
    · left
      exact_mod_cast h
  have hdist : min (x - ⌊x⌋) (⌊x⌋ + 1 - x) ≤ |(n : ℚ) - x| := by
    rcases hn with h | h
    · rw [abs_sub_comm, abs_of_nonneg (by linarith)]
      exact (min_le_left _ _).trans (by linarith)
    · rw [abs_of_nonneg (by linarith)]
      exact (min_le_right _ _).trans (by linarith)
  refine le_trans ?_ hdist
  have hdown : |(⌊x⌋ : ℚ) - x| = x - ⌊x⌋ := by rw [abs_sub_comm, abs_of_nonneg (by linarith)]
  have hup : |(⌊x⌋ : ℚ) + 1 - x| = ⌊x⌋ + 1 - x := abs_of_nonneg (by linarith)
  unfold roundEven
  simp only
  split_ifs with h1 h2 h3
  · rw [hdown]
    exact le_min le_rfl (by linarith)
  · push_cast
    rw [hup]
    exact le_min (by linarith) le_rfl
  · rw [hdown]
    exact le_min le_rfl (by linarith)
  · push_cast
    rw [hup]
    exact le_min (by linarith) le_rfl

/-- Rounding to an integer moves by a half at most. -/
theorem abs_roundEven_sub_le_half (x : ℚ) : |(roundEven x : ℚ) - x| ≤ 1 / 2 :=
  (abs_roundEven_sub_le x (round x)).trans (by rw [abs_sub_comm]; exact abs_sub_round x)

theorem roundEven_intCast (n : ℤ) : roundEven n = n := by simp [roundEven]

/-- Of two integers that are equally near, the negation of the even one is even. -/
theorem roundEven_neg (x : ℚ) : roundEven (-x) = -roundEven x := by
  have hle : (⌊x⌋ : ℚ) ≤ x := Int.floor_le x
  have hlt : x < ⌊x⌋ + 1 := Int.lt_floor_add_one x
  rcases hle.eq_or_lt with hint | hfrac
  · obtain ⟨n, hn⟩ : ∃ n : ℤ, x = n := ⟨⌊x⌋, hint.symm⟩
    rw [hn, ← Int.cast_neg, roundEven_intCast, roundEven_intCast]
  · have hfloor : ⌊-x⌋ = -⌊x⌋ - 1 := by
      rw [Int.floor_eq_iff]
      push_cast
      exact ⟨by linarith, by linarith⟩
    have heven : Even (-⌊x⌋ - 1) ↔ ¬ Even ⌊x⌋ := by
      rw [Int.even_sub_one, even_neg]
    simp only [roundEven, hfloor, heven]
    push_cast
    rcases lt_trichotomy (x - ⌊x⌋) (1 / 2) with hdown | htie | hup
    · rw [if_neg (by linarith), if_pos (by linarith), if_pos hdown]
      ring
    · have htie' : -x - (-⌊x⌋ - 1) = 1 / 2 := by linarith
      simp only [htie, htie', lt_irrefl, if_false]
      split_ifs <;> ring
    · rw [if_pos (by linarith), if_neg (by linarith), if_pos hup]
      ring

theorem abs_roundEven_le {x : ℚ} {n : ℕ} (h : |x| ≤ n) : |roundEven x| ≤ n := by
  have hfar : |(roundEven x : ℚ)| < n + 1 := by
    calc |(roundEven x : ℚ)| = |x + ((roundEven x : ℚ) - x)| := by ring_nf
      _ ≤ |x| + |(roundEven x : ℚ) - x| := abs_add_le _ _
      _ ≤ n + 1 / 2 := add_le_add h (abs_roundEven_sub_le_half x)
      _ < n + 1 := by linarith
  exact Int.lt_add_one_iff.mp (by exact_mod_cast hfar)

/-! ## Numbers of a format -/

variable (F : FloatFormat)

def Representable (x : ℚ) : Prop :=
  ∃ m e : ℤ, |m| ≤ 2 ^ F.precision ∧ F.minExponent ≤ e ∧ x = m * 2 ^ e

/-- The exponent of the digit that a number is rounded at. -/
def exponent (x : ℚ) : ℤ := max (Int.log 2 |x| + 1 - F.precision) F.minExponent

/-- The nearest number of the format. -/
def round (x : ℚ) : ℚ := roundEven (x / 2 ^ F.exponent x) * 2 ^ F.exponent x

variable {F}

theorem representable_intCast {n : ℤ} (h : |n| ≤ 2 ^ F.precision) (hmin : F.minExponent ≤ 0) :
    F.Representable n :=
  ⟨n, 0, h, hmin, by simp⟩

theorem representable_neg {x : ℚ} (h : F.Representable x) : F.Representable (-x) := by
  obtain ⟨m, e, hm, he, rfl⟩ := h
  exact ⟨-m, e, by rwa [abs_neg], he, by push_cast; ring⟩

theorem abs_div_zpow (x : ℚ) (e : ℤ) : |x / 2 ^ e| = |x| / 2 ^ e := by
  rw [abs_div, abs_of_pos (zpow_pos (by norm_num : (0 : ℚ) < 2) e)]

theorem abs_roundEven_mul_sub (x : ℚ) (e : ℤ) (n : ℤ) :
    |(roundEven (x / 2 ^ e) : ℚ) * 2 ^ e - x| ≤ |(n : ℚ) * 2 ^ e - x| := by
  have hpos : (0 : ℚ) < 2 ^ e := zpow_pos (by norm_num) e
  have hscale : ∀ k : ℤ, (k : ℚ) * 2 ^ e - x = ((k : ℚ) - x / 2 ^ e) * 2 ^ e := by
    intro k
    rw [sub_mul, div_mul_cancel₀ _ hpos.ne']
  rw [hscale, hscale, abs_mul, abs_mul]
  exact mul_le_mul_of_nonneg_right (abs_roundEven_sub_le _ n) (abs_nonneg _)

/-- A number of at most `2 ^ k` has a multiple of `2 ^ e` next to it with at most `k - e` digits. -/
theorem representable_roundEven {x : ℚ} {e : ℤ} (he : F.minExponent ≤ e)
    (h : |x| ≤ 2 ^ (e + F.precision)) :
    F.Representable (roundEven (x / 2 ^ e) * 2 ^ e) := by
  refine ⟨roundEven (x / 2 ^ e), e, ?_, he, rfl⟩
  have hpos : (0 : ℚ) < 2 ^ e := zpow_pos (by norm_num) e
  have habs : |x / 2 ^ e| ≤ ((2 ^ F.precision : ℕ) : ℚ) := by
    rw [abs_div_zpow, div_le_iff₀ hpos]
    calc |x| ≤ 2 ^ (e + F.precision) := h
      _ = ((2 ^ F.precision : ℕ) : ℚ) * 2 ^ e := by
        rw [zpow_add₀ (by norm_num), zpow_natCast]
        push_cast
        ring
  exact_mod_cast abs_roundEven_le habs

theorem abs_le_zpow_exponent (x : ℚ) : |x| ≤ 2 ^ (F.exponent x + F.precision) := by
  have hlog : |x| < 2 ^ (Int.log 2 |x| + 1) := by
    exact_mod_cast Int.lt_zpow_succ_log_self (R := ℚ) one_lt_two |x|
  refine hlog.le.trans (zpow_le_zpow_right₀ (by norm_num) ?_)
  have := le_max_left (Int.log 2 |x| + 1 - F.precision) F.minExponent
  rw [exponent]
  omega

theorem representable_round (x : ℚ) : F.Representable (F.round x) :=
  representable_roundEven (le_max_right _ _) (abs_le_zpow_exponent x)

/-- Between a number of fewer digits and one that is at least as large in size there is a multiple
of the digit that the larger one is rounded at. -/
theorem abs_sub_le_of_small {x f : ℚ} {k : ℤ} (hf : |f| ≤ 2 ^ k) (hx : 2 ^ k ≤ |x|) :
    |(if 0 ≤ x then (2 : ℚ) ^ k else -2 ^ k) - x| ≤ |f - x| := by
  have hbounds := abs_le.mp hf
  split_ifs with h
  · rw [abs_of_nonneg h] at hx
    rw [abs_sub_comm, abs_sub_comm f, abs_of_nonneg (by linarith), abs_of_nonneg (by linarith)]
    linarith
  · rw [abs_of_neg (not_le.mp h)] at hx
    rw [abs_of_nonneg (by linarith), abs_of_nonneg (by linarith)]
    linarith

/-- No number of the format is nearer. -/
theorem abs_round_sub_le (hprecision : 0 < F.precision) {f : ℚ} (hf : F.Representable f) (x : ℚ) :
    |F.round x - x| ≤ |f - x| := by
  rcases eq_or_ne x 0 with rfl | hx0
  · simp [round, roundEven]
  obtain ⟨m, e, hm, he, rfl⟩ := hf
  rcases le_or_gt (F.exponent x) e with hle | hlt
  · -- the number is a multiple of the digit that is rounded at
    obtain ⟨d, rfl⟩ := Int.le.dest hle
    have hmul : (m : ℚ) * 2 ^ (F.exponent x + d) = (m * 2 ^ d : ℤ) * 2 ^ F.exponent x := by
      rw [zpow_add₀ (by norm_num), zpow_natCast]
      push_cast
      ring
    rw [hmul]
    exact abs_roundEven_mul_sub x _ _
  · -- it has more digits, and is smaller than the power of two that `x` starts with
    have hexp : F.exponent x = Int.log 2 |x| + 1 - F.precision := by
      rw [exponent] at hlt ⊢
      omega
    have hk : (2 : ℚ) ^ Int.log 2 |x| ≤ |x| := by
      exact_mod_cast Int.zpow_log_le_self (R := ℚ) one_lt_two (abs_pos.mpr hx0)
    have hfk : |(m : ℚ) * 2 ^ e| ≤ 2 ^ Int.log 2 |x| := by
      rw [abs_mul, abs_of_pos (zpow_pos (by norm_num : (0 : ℚ) < 2) e)]
      have hmq : |(m : ℚ)| ≤ 2 ^ (F.precision : ℤ) := by
        rw [zpow_natCast]
        exact_mod_cast hm
      calc |(m : ℚ)| * 2 ^ e ≤ 2 ^ (F.precision : ℤ) * 2 ^ e :=
            mul_le_mul_of_nonneg_right hmq (zpow_pos (by norm_num) e).le
        _ = 2 ^ ((F.precision : ℤ) + e) := (zpow_add₀ (by norm_num) _ _).symm
        _ ≤ 2 ^ Int.log 2 |x| := zpow_le_zpow_right₀ (by norm_num) (by omega)
    refine le_trans ?_ (abs_sub_le_of_small hfk hk)
    -- that power of two is a multiple of the digit
    obtain ⟨d, hd⟩ : ∃ d : ℕ, F.precision = d + 1 := ⟨F.precision - 1, by omega⟩
    have hpow : (2 : ℚ) ^ Int.log 2 |x| = ((2 ^ d : ℤ) : ℚ) * 2 ^ F.exponent x := by
      have hsum : Int.log 2 |x| = d + F.exponent x := by omega
      rw [hsum, zpow_add₀ (by norm_num), zpow_natCast]
      push_cast
      ring
    split_ifs
    · rw [hpow]
      exact abs_roundEven_mul_sub x _ _
    · have hneg : -(2 : ℚ) ^ Int.log 2 |x| = ((-2 ^ d : ℤ) : ℚ) * 2 ^ F.exponent x := by
        rw [hpow]
        push_cast
        ring
      rw [hneg]
      exact abs_roundEven_mul_sub x _ _

theorem round_eq_self (hprecision : 0 < F.precision) {x : ℚ} (h : F.Representable x) :
    F.round x = x := by
  have hdist := abs_round_sub_le hprecision h x
  rw [sub_self, abs_zero] at hdist
  exact sub_eq_zero.mp (abs_eq_zero.mp (le_antisymm hdist (abs_nonneg _)))

/-- Rounding does not change the order: a number whose nearest one is the larger of two is nearer to
it than a smaller number is. -/
theorem round_mono (hprecision : 0 < F.precision) {x y : ℚ} (h : x ≤ y) :
    F.round x ≤ F.round y := by
  rcases h.eq_or_lt with rfl | hlt
  · exact le_rfl
  · by_contra! hcross
    have hx := abs_round_sub_le hprecision (representable_round y) x
    have hy := abs_round_sub_le hprecision (representable_round x) y
    have hx' : F.round x - x ≤ |F.round y - x| := (le_abs_self _).trans hx
    have hy' : y - F.round y ≤ |F.round x - y| := by
      rw [abs_sub_comm] at hy
      exact (le_abs_self _).trans hy
    rcases abs_cases (F.round y - x) with ⟨h1, _⟩ | ⟨h1, _⟩ <;>
      rcases abs_cases (F.round x - y) with ⟨h2, _⟩ | ⟨h2, _⟩ <;>
      linarith

theorem round_le (hprecision : 0 < F.precision) {x y : ℚ} (hy : F.Representable y) (h : x ≤ y) :
    F.round x ≤ y :=
  (round_mono hprecision h).trans_eq (round_eq_self hprecision hy)

theorem le_round (hprecision : 0 < F.precision) {x y : ℚ} (hy : F.Representable y) (h : y ≤ x) :
    y ≤ F.round x :=
  (round_eq_self hprecision hy).symm.trans_le (round_mono hprecision h)

theorem round_neg (x : ℚ) : F.round (-x) = -F.round x := by
  rw [round, exponent, abs_neg, neg_div, roundEven_neg, round, exponent]
  push_cast
  ring

/-- A number of at most `2 ^ (e + precision)` is rounded by half of `2 ^ e` at most. -/
theorem abs_round_sub_le_ulp (hprecision : 0 < F.precision) {x : ℚ} {e : ℤ} (he : F.minExponent ≤ e)
    (h : |x| ≤ 2 ^ (e + F.precision)) : |F.round x - x| ≤ 2 ^ e / 2 := by
  have hpos : (0 : ℚ) < 2 ^ e := zpow_pos (by norm_num) e
  calc |F.round x - x| ≤ |(roundEven (x / 2 ^ e) : ℚ) * 2 ^ e - x| :=
        abs_round_sub_le hprecision (representable_roundEven he h) x
    _ = |(roundEven (x / 2 ^ e) : ℚ) - x / 2 ^ e| * 2 ^ e := by
        rw [← abs_of_pos hpos, ← abs_mul, abs_of_pos hpos, sub_mul, div_mul_cancel₀ _ hpos.ne']
    _ ≤ 1 / 2 * 2 ^ e := mul_le_mul_of_nonneg_right (abs_roundEven_sub_le_half _) hpos.le
    _ = 2 ^ e / 2 := by ring

end FloatFormat

end IdentityCommon
