import Mathlib.Data.Nat.ModEq
import Mathlib.Data.Set.Function

/-!
# Unbalanced Feistel networks over modular addition

A Feistel network on pairs of naturals whose halves have different ranges, with an
arbitrary round function. Round `i` adds the round function of the right half to the left
half modulo `m i` and swaps the halves.

## Main definitions

- `round`, `rounds` — one round, and the rounds from an index on
- `InRange` — the halves are below the moduli of the rounds that will change them

## Main results

- `rounds_inRange`, `rounds_injOn` — with moduli of period two, the rounds map the pairs
  in range injectively to pairs in range
-/

namespace IdentityCommon.Feistel

variable {m : ℕ → ℕ} {F : ℕ → ℕ → ℕ}

/-- One round: the left half plus the round function of the right half, halves swapped. -/
def round (m : ℕ → ℕ) (F : ℕ → ℕ → ℕ) (i : ℕ) (s : ℕ × ℕ) : ℕ × ℕ :=
  (s.2, (s.1 + F i s.2) % m i)

/-- The `n` rounds from round `i` on. -/
def rounds (m : ℕ → ℕ) (F : ℕ → ℕ → ℕ) : ℕ → ℕ → ℕ × ℕ → ℕ × ℕ
  | _, 0, s => s
  | i, n + 1, s => rounds m F (i + 1) n (round m F i s)

/-- The halves before round `i`: the left one is changed by this round, the right one by the
next. -/
def InRange (m : ℕ → ℕ) (i : ℕ) (s : ℕ × ℕ) : Prop := s.1 < m i ∧ s.2 < m (i + 1)

theorem round_inRange (hper : ∀ i, m (i + 2) = m i) {i : ℕ} {s : ℕ × ℕ} (h : InRange m i s) :
    InRange m (i + 1) (round m F i s) := by
  refine ⟨h.2, ?_⟩
  rw [hper]
  exact Nat.mod_lt _ (Nat.zero_lt_of_lt h.1)

/-- A round can be undone: the right half is kept, and the left half is determined modulo its
range. -/
theorem round_injOn (i : ℕ) : Set.InjOn (round m F i) {s | InRange m i s} := by
  rintro ⟨a, b⟩ ha ⟨a', b'⟩ ha' heq
  obtain ⟨rfl, hmod⟩ : b = b' ∧ (a + F i b) % m i = (a' + F i b') % m i := Prod.mk.inj heq
  have hcancel : a ≡ a' [MOD m i] := Nat.ModEq.add_right_cancel' (F i b) hmod
  rw [hcancel.eq_of_lt_of_lt ha.1 ha'.1]

theorem rounds_inRange (hper : ∀ i, m (i + 2) = m i) (n : ℕ) :
    ∀ {i : ℕ} {s : ℕ × ℕ}, InRange m i s → InRange m (i + n) (rounds m F i n s) := by
  induction n with
  | zero => exact id
  | succ n ih =>
    intro i s h
    rw [show i + (n + 1) = i + 1 + n by omega]
    exact ih (round_inRange hper h)

theorem rounds_injOn (hper : ∀ i, m (i + 2) = m i) (n : ℕ) :
    ∀ i, Set.InjOn (rounds m F i n) {s | InRange m i s} := by
  induction n with
  | zero => exact fun i => Set.injOn_id _
  | succ n ih =>
    intro i s hs s' hs' heq
    exact round_injOn i hs hs' (ih (i + 1) (round_inRange hper hs) (round_inRange hper hs') heq)

end IdentityCommon.Feistel
