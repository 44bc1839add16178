import Mathlib.Logic.Basic

/-!
# Computations with a state and exceptions

Computations that change a state and return or throw. What was changed before an exception stays
changed.

## Main definitions

- `Comp` — computations
- `outcome` — what a computation returns or throws, and the state that it leaves

## Main results

- `bind_eq_ok` — how a chain returns
- `outcome_bind_eq` — a chain returns the same from two states, if its parts do
- `state_bind` — what holds of the state after a chain
-/

namespace IdentityCommon.Computation

universe u

variable {ε σ α β : Type u}

abbrev Comp (ε σ α : Type u) := ExceptT ε (StateM σ) α

def outcome (x : Comp ε σ α) (s : σ) : Except ε α × σ := x.run.run s

/-- A single step. -/
def step (f : σ → Except ε α × σ) : Comp ε σ α := ExceptT.mk (StateT.mk f)

/-- A computation that leaves the state. -/
def lift (x : Except ε α) : Comp ε σ α := step fun s => (x, s)

@[simp] theorem outcome_step (f : σ → Except ε α × σ) (s : σ) : outcome (step f) s = f s := rfl

@[simp] theorem outcome_lift (x : Except ε α) (s : σ) : outcome (lift x) s = (x, s) := rfl

@[simp] theorem outcome_pure (a : α) (s : σ) : outcome (pure a : Comp ε σ α) s = (.ok a, s) := rfl

theorem outcome_bind (x : Comp ε σ α) (f : α → Comp ε σ β) (s : σ) :
    outcome (x >>= f) s = match outcome x s with
      | (.ok a, s) => outcome (f a) s
      | (.error e, s) => (.error e, s) := by
  change ((ExceptT.bindCont f ((x s).1) : StateM σ _) (x s).2) = _
  change _ = match x s with
    | (.ok a, s) => outcome (f a) s
    | (.error e, s) => (.error e, s)
  rcases x s with ⟨r, s'⟩
  cases r with
  | ok a => rfl
  | error e => rfl

theorem bind_eq_ok {x : Comp ε σ α} {f : α → Comp ε σ β} {s s'' : σ} {b : β} :
    outcome (x >>= f) s = (.ok b, s'') ↔ ∃ a s', outcome x s = (.ok a, s') ∧
    outcome (f a) s' = (.ok b, s'') := by
  rw [outcome_bind]
  rcases outcome x s with ⟨r, s'⟩
  cases r with
  | ok a =>
    constructor
    · exact fun h => ⟨a, s', rfl, h⟩
    · rintro ⟨a', s₁, h, hf⟩
      cases h
      exact hf
  | error e =>
    constructor
    · intro h
      cases h
    · rintro ⟨a', s₁, h, -⟩
      cases h

theorem lift_eq_ok {x : Except ε α} {s s' : σ} {a : α} :
    outcome (lift x) s = (.ok a, s') ↔ x = .ok a ∧ s' = s := by
  rw [outcome_lift, Prod.mk.injEq, eq_comm (a := s)]

/-- A chain returns the same from two states, if its parts do. -/
theorem outcome_bind_eq {x : Comp ε σ α} {f : α → Comp ε σ β} {s t : σ}
    (hx : (outcome x s).1 = (outcome x t).1) (hf : ∀ a s' t', outcome x s = (.ok a, s') →
      outcome x t = (.ok a, t') → (outcome (f a) s').1 = (outcome (f a) t').1) :
    (outcome (x >>= f) s).1 = (outcome (x >>= f) t).1 := by
  rw [outcome_bind, outcome_bind]
  rcases hs : outcome x s with ⟨r, s'⟩
  rcases ht : outcome x t with ⟨r', t'⟩
  rw [hs, ht] at hx
  obtain rfl : r = r' := hx
  cases r with
  | ok a => exact hf a s' t' hs ht
  | error e => rfl

/-! ## Properties of the state -/

/-- What holds of the state after the first part of a chain, and after the rest where there is one,
holds after the chain. -/
theorem state_bind {Q : σ → Prop} {x : Comp ε σ α} {f : α → Comp ε σ β} {s : σ}
    (hx : Q (outcome x s).2) (hf : ∀ a s', outcome x s = (.ok a, s') → Q (outcome (f a) s').2) :
    Q (outcome (x >>= f) s).2 := by
  rw [outcome_bind]
  rcases hs : outcome x s with ⟨r, s'⟩
  cases r with
  | ok a => exact hf a s' hs
  | error e =>
    rw [hs] at hx
    exact hx

end IdentityCommon.Computation
