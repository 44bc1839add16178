import Mathlib.Dynamics.PeriodicPts.Lemmas
import Mathlib.Data.Set.Finite.Basic
import Mathlib.Data.Fintype.Card
import Mathlib.Order.Interval.Finset.Nat

/-!
# Cycle walking

Applying a permutation of `[0, N)` again and again until the value is below a bound `L`.
The walk from a value below `L` ends, and its end determines its start: cycle walking turns
a permutation of a larger range into a permutation of a smaller one.

## Main definitions

- `Walk` — the values visited by a walk: `n` steps outside the range, then one into it

## Main results

- `exists_walk` — the walk from a value in the smaller range ends
- `Walk.injective` — two walks with the same end have the same start
-/

namespace IdentityCommon.CycleWalk

variable {α : Type*} {f : α → α} {p : α → Prop}

/-- `n + 1` applications of `f` lead from `x` to `y`, the first value that satisfies `p`. -/
inductive Walk (f : α → α) (p : α → Prop) : ℕ → α → α → Prop
  | stop {x : α} : p (f x) → Walk f p 0 x (f x)
  | step {n : ℕ} {x y : α} : ¬p (f x) → Walk f p n (f x) y → Walk f p (n + 1) x y

theorem Walk.end_mem {n : ℕ} {x y : α} (h : Walk f p n x y) : p y := by
  induction h with
  | stop hp => exact hp
  | step _ _ ih => exact ih

theorem Walk.eq_iterate {n : ℕ} {x y : α} (h : Walk f p n x y) : y = f^[n + 1] x := by
  induction h with
  | stop _ => rfl
  | step _ _ ih => exact ih

theorem Walk.not_mem {n : ℕ} {x y : α} (h : Walk f p n x y) :
    ∀ k, 0 < k → k ≤ n → ¬p (f^[k] x) := by
  induction h with
  | stop _ => intro k hk hk'; omega
  | @step n x y hp _ ih =>
    intro k hk hkn
    obtain ⟨k, rfl⟩ := Nat.exists_eq_succ_of_ne_zero hk.ne'
    rcases Nat.eq_zero_or_pos k with rfl | hpos
    · exact hp
    · exact ih k hpos (by omega)

/-- If an iterate of `x` satisfies `p`, the walk from `x` ends within as many steps. -/
theorem exists_walk_of_iterate {n : ℕ} {x : α} (h : p (f^[n + 1] x)) :
    ∃ k ≤ n, ∃ y, Walk f p k x y := by
  induction n generalizing x with
  | zero => exact ⟨0, le_rfl, _, .stop h⟩
  | succ n ih =>
    by_cases hp : p (f x)
    · exact ⟨0, Nat.zero_le _, _, .stop hp⟩
    · obtain ⟨k, hk, y, hw⟩ := ih h
      exact ⟨k + 1, by omega, y, .step hp hw⟩

section Finite

variable {N : ℕ} {g : ℕ → ℕ}

/-- An injective map of `[0, N)` to itself returns every value to itself. -/
theorem exists_iterate_eq (hmaps : ∀ x < N, g x < N) (hinj : Set.InjOn g (Set.Iio N)) {x : ℕ}
    (hx : x < N) : ∃ n, g^[n + 1] x = x := by
  let h : Fin N → Fin N := fun y => ⟨g y, hmaps y y.isLt⟩
  have hh : Function.Injective h := fun y z hyz =>
    Fin.ext (hinj y.isLt z.isLt (congrArg Fin.val hyz))
  have hiter : ∀ (n : ℕ) (y : Fin N), (h^[n] y).val = g^[n] y.val := by
    intro n
    induction n with
    | zero => exact fun _ => rfl
    | succ n ih => exact fun y => ih (h y)
  obtain ⟨n, hpos, hn⟩ := Function.mem_periodicPts.mp (hh.mem_periodicPts ⟨x, hx⟩)
  refine ⟨n - 1, ?_⟩
  rw [Nat.sub_add_cancel hpos, ← hiter n ⟨x, hx⟩, show h^[n] ⟨x, hx⟩ = ⟨x, hx⟩ from hn]

/-- The walk from a value that satisfies `p` ends: the value itself is ahead of it. -/
theorem exists_walk {p : ℕ → Prop} (hmaps : ∀ x < N, g x < N) (hinj : Set.InjOn g (Set.Iio N))
    {x : ℕ} (hx : x < N) (hp : p x) : ∃ n y, Walk g p n x y := by
  obtain ⟨n, hn⟩ := exists_iterate_eq hmaps hinj hx
  obtain ⟨k, -, y, hw⟩ := exists_walk_of_iterate (p := p) (n := n) (by rw [hn]; exact hp)
  exact ⟨k, y, hw⟩

theorem iterate_lt (hmaps : ∀ x < N, g x < N) {x : ℕ} (hx : x < N) : ∀ n, g^[n] x < N
  | 0 => hx
  | n + 1 => by
    rw [Function.iterate_succ_apply']
    exact hmaps _ (iterate_lt hmaps hx n)

theorem iterate_injOn (hmaps : ∀ x < N, g x < N) (hinj : Set.InjOn g (Set.Iio N)) :
    ∀ n, Set.InjOn g^[n] (Set.Iio N)
  | 0 => Set.injOn_id _
  | n + 1 => fun x hx y hy h => hinj hx hy (iterate_injOn hmaps hinj n (hmaps x hx) (hmaps y hy) h)

/-- Of two walks with the same end the longer one passes through the start of the other. -/
theorem Walk.injective_of_le {p : ℕ → Prop} (hmaps : ∀ x < N, g x < N)
    (hinj : Set.InjOn g (Set.Iio N)) {n n' x x' y : ℕ} (h : Walk g p n x y)
    (h' : Walk g p n' x' y) (hx : x < N) (hx' : x' < N) (hp : p x) (hle : n ≤ n') : x = x' := by
  have heq : g^[n + 1] x = g^[n + 1] (g^[n' - n] x') := by
    rw [← Function.iterate_add_apply, show n + 1 + (n' - n) = n' + 1 by omega, ← h.eq_iterate,
      ← h'.eq_iterate]
  have hback : x = g^[n' - n] x' :=
    iterate_injOn hmaps hinj _ hx (iterate_lt hmaps hx' _) heq
  rcases Nat.eq_zero_or_pos (n' - n) with h0 | hpos
  · rw [h0] at hback
    exact hback
  · exact absurd (hback ▸ hp) (h'.not_mem _ hpos (by omega))

/-- Walks between values that satisfy `p` are injective. -/
theorem Walk.injective {p : ℕ → Prop} (hmaps : ∀ x < N, g x < N) (hinj : Set.InjOn g (Set.Iio N))
    {n n' x x' y : ℕ} (h : Walk g p n x y) (h' : Walk g p n' x' y) (hx : x < N) (hx' : x' < N)
    (hp : p x) (hp' : p x') : x = x' := by
  rcases Nat.le_total n n' with hle | hle
  · exact h.injective_of_le hmaps hinj h' hx hx' hp hle
  · exact (h'.injective_of_le hmaps hinj h hx' hx hp' hle).symm

end Finite

end IdentityCommon.CycleWalk
