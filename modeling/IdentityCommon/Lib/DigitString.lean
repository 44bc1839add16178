import Mathlib.Data.Nat.Digits.Lemmas
import Mathlib.Tactic.Ring

/-!
# Positional digit strings

Digit strings most significant digit first, as number printing and number parsing
functions of programming languages exchange them, together with the little-endian
digit lists of `Nat.ofDigits`.

## Main definitions

- `padStart` — left padding of a string to a minimum length
- `parseDigits` — the number a digit string denotes

## Main results

- `parseDigits_slice` — a slice of a digit string denotes the digits of the number in
  that range
- `testBit_ofDigits_two_pow` — bit `k` of a number packed from fields of `w` bits is bit
  `k % w` of field `k / w`
-/

namespace IdentityCommon.DigitString

/-- The string padded on the left with `fill` to at least `length` characters. -/
def padStart (s : List Char) (length : ℕ) (fill : Char) : List Char :=
  List.replicate (length - s.length) fill ++ s

/-- The number a string of digits in base `b` denotes. -/
def parseDigits (b : ℕ) (s : List Char) : ℕ := Nat.ofDigitChars b s 0

/-- Every character is a digit of base `b`. -/
def IsDigits (b : ℕ) (s : List Char) : Prop := ∀ c ∈ s, c.toNat - 48 < b

@[simp] theorem parseDigits_nil (b : ℕ) : parseDigits b [] = 0 := Nat.ofDigitChars_nil

theorem parseDigits_append (b : ℕ) (s t : List Char) :
    parseDigits b (s ++ t) = b ^ t.length * parseDigits b s + parseDigits b t := by
  have hinit : ∀ (l : List Char) (n : ℕ),
      Nat.ofDigitChars b l n = b ^ l.length * n + Nat.ofDigitChars b l 0 := by
    intro l
    induction l with
    | nil => intro n; simp
    | cons c cs ih =>
      intro n
      rw [Nat.ofDigitChars_cons, Nat.ofDigitChars_cons, ih, ih (b * 0 + _), List.length_cons]
      ring
  rw [parseDigits, Nat.ofDigitChars_append, hinit]
  rfl

theorem parseDigits_replicate_zero (b n : ℕ) : parseDigits b (List.replicate n '0') = 0 := by
  simp [parseDigits]

/-- Padding with zeros does not change the number. -/
@[simp] theorem parseDigits_padStart (b n : ℕ) (s : List Char) :
    parseDigits b (padStart s n '0') = parseDigits b s := by
  rw [padStart, parseDigits_append, parseDigits_replicate_zero]
  ring

theorem parseDigits_toDigits {b : ℕ} (hb : 1 < b) (hb' : b ≤ 10) (n : ℕ) :
    parseDigits b (Nat.toDigits b n) = n :=
  Nat.ofDigitChars_toDigits hb hb'

theorem length_padStart {s : List Char} {n : ℕ} (h : s.length ≤ n) (fill : Char) :
    (padStart s n fill).length = n := by
  simp only [padStart, List.length_append, List.length_replicate]
  omega

/-- A number below `b ^ w` is printed and padded to exactly `w` digits. -/
theorem length_padStart_toDigits {b w n : ℕ} (hb : 1 < b) (hw : 0 < w) (h : n < b ^ w) :
    (padStart (Nat.toDigits b n) w '0').length = w :=
  length_padStart ((Nat.length_toDigits_le_iff hb hw).mpr h) _

theorem isDigits_toDigits {b : ℕ} (hb : 1 < b) (hb' : b ≤ 10) (n : ℕ) :
    IsDigits b (Nat.toDigits b n) := by
  induction n using Nat.strong_induction_on with
  | _ n ih =>
    intro c hc
    rw [Nat.toDigits_eq_if hb] at hc
    split at hc
    case isTrue h =>
      obtain rfl := List.mem_singleton.mp hc
      rw [Nat.toNat_digitChar_sub_48_of_lt_ten (by omega)]
      exact h
    case isFalse h =>
      rcases List.mem_append.mp hc with hc | hc
      · exact ih _ (Nat.div_lt_self (by omega) hb) c hc
      · obtain rfl := List.mem_singleton.mp hc
        have hlt := Nat.mod_lt n (by omega : b > 0)
        rw [Nat.toNat_digitChar_sub_48_of_lt_ten (by omega)]
        exact hlt

theorem IsDigits.padStart {b : ℕ} {s : List Char} (hb : 0 < b) (h : IsDigits b s) (n : ℕ) :
    IsDigits b (padStart s n '0') := by
  intro c hc
  rcases List.mem_append.mp hc with hc | hc
  · obtain rfl := List.eq_of_mem_replicate hc
    exact hb
  · exact h c hc

theorem parseDigits_lt {b : ℕ} {s : List Char} (h : IsDigits b s) :
    parseDigits b s < b ^ s.length := by
  induction s with
  | nil => simp
  | cons c cs ih =>
    have hcs := ih fun d hd => h d (List.mem_cons_of_mem _ hd)
    have hc := h c List.mem_cons_self
    have hone : parseDigits b [c] = c.toNat - 48 := by
      simp [parseDigits, Nat.ofDigitChars_cons]
    rw [show c :: cs = [c] ++ cs from rfl, parseDigits_append, hone, List.length_append,
      List.length_singleton, pow_add, pow_one]
    calc b ^ cs.length * (c.toNat - 48) + parseDigits b cs
        < b ^ cs.length * (c.toNat - 48) + b ^ cs.length := by omega
      _ = b ^ cs.length * (c.toNat - 48 + 1) := by ring
      _ ≤ b ^ cs.length * b := Nat.mul_le_mul_left _ hc
      _ = b * b ^ cs.length := Nat.mul_comm _ _

/-- The slice of `c` digits from position `a` on denotes the digits of the number between the
`s.length - a - c` lowest ones and the `a` highest ones. -/
theorem parseDigits_slice {b : ℕ} {s : List Char} (h : IsDigits b s) {a c : ℕ}
    (hac : a + c ≤ s.length) :
    parseDigits b ((s.drop a).take c) = parseDigits b s / b ^ (s.length - a - c) % b ^ c := by
  have hmem : ∀ d ∈ (s.drop a).take c, d ∈ s := fun d hd =>
    List.mem_of_mem_drop (List.mem_of_mem_take hd)
  have hmid : ((s.drop a).take c).length = c := by simp; omega
  have hlow : (s.drop (a + c)).length = s.length - a - c := by simp; omega
  have hsplit : s = s.take a ++ (s.drop a).take c ++ s.drop (a + c) := by
    rw [List.append_assoc, ← List.drop_drop, List.take_append_drop, List.take_append_drop]
  have hltMid : parseDigits b ((s.drop a).take c) < b ^ c := by
    calc parseDigits b ((s.drop a).take c)
        < b ^ ((s.drop a).take c).length := parseDigits_lt fun d hd => h d (hmem d hd)
      _ = b ^ c := by rw [hmid]
  have hltLow : parseDigits b (s.drop (a + c)) < b ^ (s.length - a - c) := by
    rw [← hlow]
    exact parseDigits_lt fun d hd => h d (List.mem_of_mem_drop hd)
  have hnum : parseDigits b s = b ^ (s.length - a - c) *
      (b ^ c * parseDigits b (s.take a) + parseDigits b ((s.drop a).take c)) +
      parseDigits b (s.drop (a + c)) := by
    conv_lhs => rw [hsplit]
    rw [parseDigits_append, parseDigits_append, hmid, hlow]
  rw [hnum, Nat.mul_add_div (by omega), Nat.div_eq_of_lt hltLow, Nat.add_zero, Nat.mul_add_mod,
    Nat.mod_eq_of_lt hltMid]

/-- Bit `k` of a number packed from fields of `w` bits, the first field lowest. -/
theorem testBit_ofDigits_two_pow {w : ℕ} (hw : 0 < w) {ds : List ℕ} (h : ∀ d ∈ ds, d < 2 ^ w)
    (k : ℕ) : (Nat.ofDigits (2 ^ w) ds).testBit k = (ds.getD (k / w) 0).testBit (k % w) := by
  induction ds generalizing k with
  | nil => simp
  | cons d ds ih =>
    have hd := h d List.mem_cons_self
    rw [Nat.ofDigits_cons, Nat.add_comm, Nat.testBit_two_pow_mul_add _ hd]
    by_cases hk : k < w
    · rw [if_pos hk, Nat.div_eq_of_lt hk, Nat.mod_eq_of_lt hk]
      rfl
    · rw [if_neg hk, ih (fun e he => h e (List.mem_cons_of_mem _ he))]
      obtain ⟨m, rfl⟩ := Nat.exists_eq_add_of_le (Nat.le_of_not_lt hk)
      rw [Nat.add_sub_cancel_left, Nat.add_div_left _ hw, Nat.add_mod_left]
      rfl

end IdentityCommon.DigitString
