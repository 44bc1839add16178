import Mathlib.Data.List.Basic

/-!
# Runs of a state machine

A machine with a step function, run on a list of events, and invariants that its steps keep as long
as the events meet a condition on the state they find.

## Main definitions

- `run` — the state after some events
- `Guarded` — every event meets a condition in the state that it finds

## Main results

- `invariant` — what every such step keeps holds after a run
-/

namespace IdentityCommon.Run

variable {σ ε : Type*} {step : σ → ε → σ} {guard : σ → ε → Prop}

def run (step : σ → ε → σ) (s : σ) (events : List ε) : σ := events.foldl step s

@[simp] theorem run_nil (s : σ) : run step s [] = s := rfl

@[simp] theorem run_cons (s : σ) (e : ε) (events : List ε) :
    run step s (e :: events) = run step (step s e) events := rfl

/-- Every event meets the condition in the state that it finds. -/
def Guarded (step : σ → ε → σ) (guard : σ → ε → Prop) : σ → List ε → Prop
  | _, [] => True
  | s, e :: events => guard s e ∧ Guarded step guard (step s e) events

instance [∀ s e, Decidable (guard s e)] : ∀ s events, Decidable (Guarded step guard s events)
  | _, [] => isTrue trivial
  | s, e :: events =>
    have := instDecidableGuarded (step s e) events
    inferInstanceAs (Decidable (guard s e ∧ Guarded step guard (step s e) events))

/-- What a step on a guarded event keeps holds after a guarded run. -/
theorem invariant {inv : σ → Prop} (hstep : ∀ s e, inv s → guard s e → inv (step s e))
    {s : σ} (h : inv s) {events : List ε} (hg : Guarded step guard s events) :
    inv (run step s events) := by
  induction events generalizing s with
  | nil => exact h
  | cons e events ih => exact ih (hstep s e h hg.1) hg.2

/-- What every step keeps holds after every run. -/
theorem invariant_run {inv : σ → Prop} (hstep : ∀ s e, inv s → inv (step s e)) {s : σ} (h : inv s)
    (events : List ε) : inv (run step s events) := by
  induction events generalizing s with
  | nil => exact h
  | cons e events ih => exact ih (hstep s e h)

end IdentityCommon.Run
