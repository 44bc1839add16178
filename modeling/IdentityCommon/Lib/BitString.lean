import Mathlib.Data.List.Basic
import Mathlib.Data.Nat.Bitwise
import Mathlib.Tactic.Ring

/-!
# Bit strings

The bits of a number, the most significant one first, and the bits of a list of numbers of one
width.

## Main definitions

- `bits` — the bits of a number, in a width
- `bitsOf` — the bits of numbers of one width, one after the other

## Main results

- `bits_mul_add` — the bits of a number that is put together from two
- `eq_of_bits`, `eq_of_bitsOf` — numbers that have the same bits
- `last_of_take_bitsOf` — lists whose bits are the same but for some bits at the end
-/

namespace IdentityCommon.BitString

def bits : ℕ → ℕ → List Bool
  | 0, _ => []
  | k + 1, n => n.testBit k :: bits k n

def bitsOf (k : ℕ) (l : List ℕ) : List Bool := l.flatMap (bits k)

@[simp] theorem length_bits (k n : ℕ) : (bits k n).length = k := by
  induction k with
  | zero => rfl
  | succ k ih => rw [bits, List.length_cons, ih]

@[simp] theorem bitsOf_nil (k : ℕ) : bitsOf k [] = [] := rfl

theorem bitsOf_cons (k x : ℕ) (l : List ℕ) : bitsOf k (x :: l) = bits k x ++ bitsOf k l :=
  List.flatMap_cons

@[simp] theorem length_bitsOf (k : ℕ) (l : List ℕ) : (bitsOf k l).length = k * l.length := by
  induction l with
  | nil => rfl
  | cons x l ih => rw [bitsOf_cons, List.length_append, length_bits, ih, List.length_cons,
      Nat.mul_succ, add_comm]

theorem bitsOf_append (k : ℕ) (l l' : List ℕ) : bitsOf k (l ++ l') = bitsOf k l ++ bitsOf k l' :=
  List.flatMap_append

theorem take_bitsOf (k n : ℕ) (l : List ℕ) : (bitsOf k l).take (k * n) = bitsOf k (l.take n) := by
  induction l generalizing n with
  | nil => rw [List.take_nil, bitsOf_nil, List.take_nil]
  | cons x l ih =>
    cases n with
    | zero => rfl
    | succ n => rw [bitsOf_cons, List.take_succ_cons, bitsOf_cons, Nat.mul_succ, add_comm,
        List.take_append, List.take_of_length_le (by rw [length_bits]; omega), length_bits,
          Nat.add_sub_cancel_left, ih]

theorem bits_add (k l n : ℕ) : bits (k + l) n = bits k (n / 2 ^ l) ++ bits l n := by
  induction k with
  | zero => rw [zero_add, bits, List.nil_append]
  | succ k ih => rw [Nat.succ_add, bits, bits, ih, Nat.testBit_div_two_pow, List.cons_append]

/-- Bits that are not among the last `k` do not count. -/
theorem bits_mod {k l : ℕ} (h : k ≤ l) (n : ℕ) : bits k (n % 2 ^ l) = bits k n := by
  induction k with
  | zero => rfl
  | succ k ih =>
    rw [bits, bits, ih (by omega), Nat.testBit_mod_two_pow]
    simp [show k < l by omega]

theorem bits_mul_add (k : ℕ) {l b : ℕ} (h : b < 2 ^ l) (a : ℕ) :
    bits (k + l) (a * 2 ^ l + b) = bits k a ++ bits l b := by
  have hdiv : (a * 2 ^ l + b) / 2 ^ l = a := by
    rw [add_comm, Nat.add_mul_div_right _ _ (Nat.two_pow_pos l), Nat.div_eq_of_lt h, zero_add]
  have hmod : (a * 2 ^ l + b) % 2 ^ l = b := by
    rw [add_comm, Nat.add_mul_mod_self_right, Nat.mod_eq_of_lt h]
  rw [bits_add, hdiv, ← bits_mod le_rfl (a * 2 ^ l + b), hmod]

theorem testBit_of_bits {k a b : ℕ} (h : bits k a = bits k b) :
    ∀ i < k, a.testBit i = b.testBit i := by
  induction k with
  | zero => exact fun i hi => absurd hi (Nat.not_lt_zero i)
  | succ k ih =>
    rw [bits, bits, List.cons.injEq] at h
    intro i hi
    rcases Nat.lt_succ_iff_lt_or_eq.mp hi with hi | rfl
    · exact ih h.2 i hi
    · exact h.1

theorem eq_of_bits {k a b : ℕ} (ha : a < 2 ^ k) (hb : b < 2 ^ k)
    (h : bits k a = bits k b) : a = b := by
  refine Nat.eq_of_testBit_eq fun i => ?_
  rcases lt_or_ge i k with hi | hi
  · exact testBit_of_bits h i hi
  · have hle := Nat.pow_le_pow_right (by decide : 0 < 2) hi
    rw [Nat.testBit_lt_two_pow (ha.trans_le hle), Nat.testBit_lt_two_pow (hb.trans_le hle)]

theorem eq_of_bitsOf {k : ℕ} {l l' : List ℕ} (hl : ∀ x ∈ l, x < 2 ^ k) (hl' : ∀ x ∈ l', x < 2 ^ k)
    (hlen : l.length = l'.length) (h : bitsOf k l = bitsOf k l') : l = l' := by
  induction l generalizing l' with
  | nil => exact (List.length_eq_zero_iff.mp hlen.symm).symm
  | cons x l ih =>
    cases l' with
    | nil => cases hlen
    | cons y l' =>
      obtain ⟨hx, hl⟩ := List.forall_mem_cons.mp hl
      obtain ⟨hy, hl'⟩ := List.forall_mem_cons.mp hl'
      rw [bitsOf_cons, bitsOf_cons] at h
      obtain ⟨hbits, hrest⟩ := List.append_inj h (by rw [length_bits, length_bits])
      rw [eq_of_bits hx hy hbits, ih hl hl' (Nat.succ.inj hlen) hrest]

/-- The bits of a number without the last ones. -/
theorem take_bits {k u : ℕ} (h : u ≤ k) (n : ℕ) :
    (bits k n).take (k - u) = bits (k - u) (n / 2 ^ u) := by
  have hadd := bits_add (k - u) u n
  rw [Nat.sub_add_cancel h] at hadd
  rw [hadd, List.take_left' (length_bits _ _)]

/-- Lists whose bits are the same but for the last bits of the last number: the others are the same,
and so is what the last numbers are without these bits. -/
theorem last_of_take_bitsOf {k u : ℕ} (hu : u ≤ k) {l l' : List ℕ} {x y : ℕ}
    (hl : ∀ z ∈ l ++ [x], z < 2 ^ k) (hl' : ∀ z ∈ l' ++ [y], z < 2 ^ k)
    (hlen : l.length = l'.length) (h : (bitsOf k (l ++ [x])).take (k * l.length + (k - u)) =
      (bitsOf k (l' ++ [y])).take (k * l.length + (k - u))) :
    l = l' ∧ x / 2 ^ u = y / 2 ^ u := by
  have hsplit : ∀ (m : List ℕ) (z : ℕ), m.length = l.length →
      (bitsOf k (m ++ [z])).take (k * l.length + (k - u)) = bitsOf k m ++
      bits (k - u) (z / 2 ^ u) := by
    intro m z hm
    rw [bitsOf_append, List.take_append, length_bitsOf, hm,
      Nat.add_sub_cancel_left, bitsOf_cons, bitsOf_nil, List.append_nil, take_bits hu,
      List.take_of_length_le (by rw [length_bitsOf, hm]; exact Nat.le_add_right _ _)]
  rw [hsplit l x rfl, hsplit l' y hlen.symm] at h
  obtain ⟨hfirst, hlast⟩ := List.append_inj h (by rw [length_bitsOf, length_bitsOf, hlen])
  have hdiv : ∀ z, z < 2 ^ k → z / 2 ^ u < 2 ^ (k - u) := fun z hz =>
    Nat.div_lt_of_lt_mul (by rwa [← pow_add, Nat.add_sub_cancel' hu])
  refine ⟨eq_of_bitsOf (fun z hz => hl z (by simp [hz]))
    (fun z hz => hl' z (by simp [hz])) hlen hfirst, ?_⟩
  exact eq_of_bits (hdiv x (hl x (by simp))) (hdiv y (hl' y (by simp))) hlast

end IdentityCommon.BitString
