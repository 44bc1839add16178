import Mathlib.Data.List.Forall2

/-!
# Computations that may fail

What a chain of `Except` computations, or one computation for each element of a list, returns.

## Main results

- `bind_eq_ok`, `mapM_eq_ok` — a chain succeeds when each part does
- `Settled.bind` — chains of computations with the same results have the same result
- `exists_mapM_eq_ok`, `mapM_eq_error` — when the computations over a list succeed or fail
-/

namespace IdentityCommon.Except

universe u v

variable {ε : Type u} {α β : Type v}

@[simp] theorem ok_bind (a : α) (f : α → Except ε β) : Except.ok a >>= f = f a := rfl

@[simp] theorem error_bind (e : ε) (f : α → Except ε β) :
    Except.error e >>= f = Except.error e := rfl

theorem error_ne_ok (e : ε) (a : α) : (Except.error e : Except ε α) ≠ .ok a := by
  intro h
  cases h

theorem bind_eq_ok {x : Except ε α} {f : α → Except ε β} {b : β} :
    x >>= f = .ok b ↔ ∃ a, x = .ok a ∧ f a = .ok b := by
  cases x with
  | error e => exact ⟨nofun, nofun⟩
  | ok a =>
    constructor
    · exact fun h => ⟨a, rfl, h⟩
    · rintro ⟨a', ha, h⟩
      cases ha
      exact h

theorem bind_eq_error {x : Except ε α} {f : α → Except ε β} {e : ε} :
    x >>= f = .error e ↔ x = .error e ∨ ∃ a, x = .ok a ∧ f a = .error e := by
  cases x with
  | error e' =>
    constructor
    · intro h
      cases h
      exact .inl rfl
    · rintro (h | ⟨a, ha, _⟩)
      · cases h
        rfl
      · cases ha
  | ok a =>
    constructor
    · exact fun h => .inr ⟨a, rfl, h⟩
    · rintro (h | ⟨a', ha, h⟩)
      · cases h
      · cases ha
        exact h

theorem map_eq_ok {x : Except ε α} {f : α → β} {b : β} :
    f <$> x = .ok b ↔ ∃ a, x = .ok a ∧ f a = b := by
  cases x with
  | error e => exact ⟨nofun, nofun⟩
  | ok a =>
    constructor
    · exact fun h => ⟨a, rfl, Except.ok.inj h⟩
    · rintro ⟨a', ha, rfl⟩
      cases ha
      rfl

theorem mapError_eq_ok {ε' : Type*} {x : Except ε α} {f : ε → ε'} {a : α} :
    x.mapError f = .ok a ↔ x = .ok a := by
  cases x with
  | error e => exact ⟨nofun, nofun⟩
  | ok b => exact ⟨fun h => congrArg _ (Except.ok.inj h), fun h => congrArg _ (Except.ok.inj h)⟩

theorem toOption_eq_some {x : Except ε α} {a : α} : x.toOption = some a ↔ x = .ok a := by
  cases x with
  | error e => exact ⟨nofun, nofun⟩
  | ok b => exact ⟨fun h => congrArg _ (Option.some.inj h), fun h => congrArg _ (Except.ok.inj h)⟩

theorem exists_of_any {x : Except ε α} {p : α → Bool} (h : x.toOption.any p = true) :
    ∃ a, x = .ok a ∧ p a = true := by
  cases x with
  | error e => cases h
  | ok a => exact ⟨a, rfl, h⟩

theorem mapM_eq_ok {f : α → Except ε β} {l : List α} {r : List β} :
    l.mapM f = .ok r ↔ List.Forall₂ (fun x y => f x = .ok y) l r := by
  induction l generalizing r with
  | nil =>
    rw [List.mapM_nil, List.forall₂_nil_left_iff]
    exact ⟨fun h => by cases h; rfl, fun h => h ▸ rfl⟩
  | cons x l ih =>
    rw [List.mapM_cons, List.forall₂_cons_left_iff, bind_eq_ok]
    constructor
    · rintro ⟨y, hy, h⟩
      obtain ⟨ys, hys, h⟩ := bind_eq_ok.mp h
      cases h
      exact ⟨y, ys, hy, ih.mp hys, rfl⟩
    · rintro ⟨y, ys, hy, hys, rfl⟩
      exact ⟨y, hy, bind_eq_ok.mpr ⟨ys, ih.mpr hys, rfl⟩⟩

/-- The results over a list where a result may be missing. -/
theorem mapM_eq_some {f : α → Option β} {l : List α} {l' : List β} :
    l.mapM f = some l' ↔ List.Forall₂ (fun a b => f a = some b) l l' := by
  induction l generalizing l' with
  | nil =>
    rw [List.mapM_nil, List.forall₂_nil_left_iff]
    exact ⟨fun h => (Option.some.inj h).symm, fun h => congrArg some h.symm⟩
  | cons a l ih =>
    rw [List.mapM_cons, Option.bind_eq_bind, Option.bind_eq_some_iff, List.forall₂_cons_left_iff]
    constructor
    · rintro ⟨b, hb, h⟩
      obtain ⟨bs, hbs, h⟩ := Option.bind_eq_some_iff.mp h
      exact ⟨b, bs, hb, ih.mp hbs, (Option.some.inj h).symm⟩
    · rintro ⟨b, bs, hb, hbs, rfl⟩
      exact ⟨b, hb, Option.bind_eq_some_iff.mpr ⟨bs, ih.mpr hbs, rfl⟩⟩

/-- The results over a list, one by one. -/
theorem getElem?_mapM {f : α → Except ε β} {l : List α} {r : List β} (h : l.mapM f = .ok r) {n : ℕ}
    {y : β} : r[n]? = some y ↔ ∃ x, l[n]? = some x ∧ f x = .ok y := by
  obtain ⟨hl, hget⟩ := List.forall₂_iff_get.mp (mapM_eq_ok.mp h)
  constructor
  · intro hy
    obtain ⟨hn, rfl⟩ := List.getElem?_eq_some_iff.mp hy
    exact ⟨l[n], List.getElem?_eq_getElem (hl ▸ hn), hget n (hl ▸ hn) hn⟩
  · rintro ⟨x, hx, hy⟩
    obtain ⟨hn, rfl⟩ := List.getElem?_eq_some_iff.mp hx
    have hr := hget n hn (hl ▸ hn)
    rw [List.get_eq_getElem, hy] at hr
    rw [List.getElem?_eq_getElem (hl ▸ hn)]
    exact congrArg some (Except.ok.inj hr).symm

/-! ## Two computations with one result -/

/-- Two computations have the same result, which is not the error `e`. -/
def Settled (e : ε) (x y : Except ε α) : Prop := x = y ∧ x ≠ .error e

theorem Settled.ok (e : ε) (a : α) : Settled e (.ok a) (.ok a) := ⟨rfl, nofun⟩

theorem Settled.error {e e' : ε} (h : e' ≠ e) : Settled e (.error e' : Except ε α) (.error e') :=
  ⟨rfl, fun h' => h (Except.error.inj h')⟩

theorem Settled.bind {e : ε} {x y : Except ε α} {f g : α → Except ε β} (h : Settled e x y)
    (hfg : ∀ a, x = .ok a → Settled e (f a) (g a)) : Settled e (x >>= f) (y >>= g) := by
  obtain ⟨rfl, hne⟩ := h
  cases x with
  | error e' => exact ⟨rfl, fun h' => hne (congrArg _ (Except.error.inj h'))⟩
  | ok a => exact hfg a rfl

theorem exists_of_forall₂ {R : α → β → Prop} {l : List α} {r : List β}
    (h : List.Forall₂ R l r) {x : α} (hx : x ∈ l) : ∃ y ∈ r, R x y := by
  obtain ⟨hl, hget⟩ := List.forall₂_iff_get.mp h
  obtain ⟨n, hn, rfl⟩ := List.mem_iff_getElem.mp hx
  exact ⟨r[n], List.getElem_mem (hl ▸ hn), hget n hn (hl ▸ hn)⟩

theorem exists_of_mapM {f : α → Except ε β} {l : List α} {r : List β} (h : l.mapM f = .ok r) {x : α}
    (hx : x ∈ l) : ∃ y, f x = .ok y := by
  obtain ⟨y, -, hy⟩ := exists_of_forall₂ (mapM_eq_ok.mp h) hx
  exact ⟨y, hy⟩

theorem exists_mapM_eq_ok {f : α → Except ε β} {l : List α} (h : ∀ x ∈ l, ∃ y, f x = .ok y) :
    ∃ r, l.mapM f = .ok r := by
  induction l with
  | nil => exact ⟨[], rfl⟩
  | cons x l ih =>
    obtain ⟨⟨y, hy⟩, hl⟩ := List.forall_mem_cons.mp h
    obtain ⟨ys, hys⟩ := ih hl
    exact ⟨y :: ys, mapM_eq_ok.mpr (.cons hy (mapM_eq_ok.mp hys))⟩

theorem exists_of_mapM_error {f : α → Except ε β} {l : List α} {e : ε} (h : l.mapM f = .error e) :
    ∃ x ∈ l, f x = .error e := by
  induction l with
  | nil => cases h
  | cons x l ih =>
    rw [List.mapM_cons] at h
    cases hx : f x with
    | error e' =>
      rw [hx] at h
      cases h
      exact ⟨x, List.mem_cons_self, hx⟩
    | ok y =>
      rw [hx] at h
      cases hl : l.mapM f with
      | error e' =>
        rw [hl] at h
        cases h
        obtain ⟨x', hx', he⟩ := ih hl
        exact ⟨x', List.mem_cons_of_mem _ hx', he⟩
      | ok ys =>
        rw [hl] at h
        cases h

theorem mapM_eq_error {f : α → Except ε β} {l : List α} {x : α} {e : ε} (hx : x ∈ l)
    (h : f x = .error e) : ∃ e', l.mapM f = .error e' := by
  cases hr : l.mapM f with
  | error e' => exact ⟨e', rfl⟩
  | ok r =>
    obtain ⟨y, hy⟩ := exists_of_mapM hr hx
    rw [h] at hy
    cases hy

end IdentityCommon.Except
