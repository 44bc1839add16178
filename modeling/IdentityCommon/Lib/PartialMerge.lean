import IdentityCommon.Lib.Except

/-!
# Merges that may fail

An operation that may fail and is associative up to a relation of its values. A list of values is
merged from the first one on; it can also be split, its parts merged and the results merged.

## Main definitions

- `Agree` — two computations that both fail, or that have related results
- `IsAssocUpTo` — an operation is associative, and respects a relation
- `mergeOption` — the operation where a value may be missing

## Main results

- `IsAssocUpTo.foldlM_split` — splitting a list makes no difference
- `IsAssocUpTo.option` — an operation stays associative where values may be missing
-/

namespace IdentityCommon.PartialMerge

open IdentityCommon.Except

variable {ε α β : Type*}

/-- Both computations fail, or the results are related. -/
def Agree (R : α → β → Prop) : Except ε α → Except ε β → Prop
  | .ok a, .ok b => R a b
  | .error _, .error _ => True
  | .ok _, .error _ => False
  | .error _, .ok _ => False

theorem Agree.exists_right {R : α → β → Prop} {x : Except ε α} {y : Except ε β}
    (h : Agree R x y) {a : α} (hx : x = .ok a) : ∃ b, y = .ok b ∧ R a b := by
  subst hx
  cases y with
  | error e => exact h.elim
  | ok b => exact ⟨b, rfl, h⟩

theorem Agree.exists_left {R : α → β → Prop} {x : Except ε α} {y : Except ε β}
    (h : Agree R x y) {b : β} (hy : y = .ok b) : ∃ a, x = .ok a ∧ R a b := by
  subst hy
  cases x with
  | error e => exact h.elim
  | ok a => exact ⟨a, rfl, h⟩

theorem agree_of_forall {R : α → β → Prop} {x : Except ε α} {y : Except ε β}
    (h : ∀ a, x = .ok a → ∃ b, y = .ok b ∧ R a b) (h' : ∀ b, y = .ok b → ∃ a, x = .ok a) :
    Agree R x y := by
  cases x with
  | error e =>
    cases y with
    | error e' => trivial
    | ok b =>
      obtain ⟨a, ha⟩ := h' b rfl
      cases ha
  | ok a =>
    obtain ⟨b, rfl, hR⟩ := h a rfl
    exact hR

theorem Agree.trans {R : α → α → Prop} (htrans : ∀ a b c, R a b → R b c → R a c)
    {x y z : Except ε α} (h : Agree R x y) (h' : Agree R y z) : Agree R x z := by
  cases x with
  | error e =>
    cases y with
    | error e' =>
      cases z with
      | error e'' => trivial
      | ok c => exact h'.elim
    | ok b => exact h.elim
  | ok a =>
    obtain ⟨b, rfl, hab⟩ := h.exists_right rfl
    obtain ⟨c, rfl, hbc⟩ := h'.exists_right rfl
    exact htrans a b c hab hbc

theorem Agree.bind {R : α → α → Prop} {x y : Except ε α} {f g : α → Except ε α} (h : Agree R x y)
    (hfg : ∀ a b, x = .ok a → y = .ok b → R a b → Agree R (f a) (g b)) :
    Agree R (x >>= f) (y >>= g) := by
  cases x with
  | error e =>
    cases y with
    | error e' => trivial
    | ok b => exact h.elim
  | ok a =>
    obtain ⟨b, rfl, hab⟩ := h.exists_right rfl
    exact hfg a b rfl rfl hab

/-- An operation respects a relation and is associative up to it, on the values that are related to
themselves. -/
structure IsAssocUpTo (R : α → α → Prop) (merge : α → α → Except ε α) : Prop where
  symm : ∀ a b, R a b → R b a
  trans : ∀ a b c, R a b → R b c → R a c
  congr : ∀ {a a' b b'}, R a a' → R b b' → Agree R (merge a b) (merge a' b')
  assoc : ∀ {a b c}, R a a → R b b → R c c →
    Agree R (merge a b >>= (merge · c)) (merge b c >>= merge a)

namespace IsAssocUpTo

variable {R : α → α → Prop} {merge : α → α → Except ε α} (h : IsAssocUpTo R merge)
include h

/-- A result is related to itself. -/
theorem closed {a b c : α} (ha : R a a) (hb : R b b) (hc : merge a b = .ok c) : R c c := by
  obtain ⟨c', hc', hR⟩ := (h.congr ha hb).exists_right hc
  cases hc.symm.trans hc'
  exact hR

theorem foldlM_closed {a c : α} {l : List α} (ha : R a a) (hl : ∀ b ∈ l, R b b)
    (hc : l.foldlM merge a = .ok c) :
    R c c := by
  induction l generalizing a with
  | nil =>
    cases hc
    exact ha
  | cons b l ih =>
    rw [List.foldlM_cons] at hc
    obtain ⟨a', ha', hc⟩ := bind_eq_ok.mp hc
    obtain ⟨hb, hl⟩ := List.forall_mem_cons.mp hl
    exact ih (h.closed ha hb ha') hl hc

theorem foldlM_congr {a a' : α} {l : List α} (ha : R a a') (hl : ∀ b ∈ l, R b b) :
    Agree R (l.foldlM merge a) (l.foldlM merge a') := by
  induction l generalizing a a' with
  | nil => exact ha
  | cons b l ih =>
    obtain ⟨hb, hl⟩ := List.forall_mem_cons.mp hl
    rw [List.foldlM_cons, List.foldlM_cons]
    exact (h.congr ha hb).bind fun c c' _ _ hc => ih hc hl

/-- What is merged after a value can be merged on its own first. -/
theorem merge_foldlM {a b : α} {l : List α} (ha : R a a) (hb : R b b) (hl : ∀ c ∈ l, R c c) :
    Agree R (merge a b >>= fun x => l.foldlM merge x) (l.foldlM merge b >>= merge a) := by
  induction l generalizing b with
  | nil =>
    show Agree R (merge a b >>= pure) (merge a b)
    rw [bind_pure]
    exact h.congr ha hb
  | cons c l ih =>
    obtain ⟨hc, hl⟩ := List.forall_mem_cons.mp hl
    have hstep : (merge a b >>= fun x => (c :: l).foldlM merge x) =
        merge a b >>= (merge · c) >>= fun x => l.foldlM merge x := by
      rw [bind_assoc]
      rfl
    rw [hstep, List.foldlM_cons]
    -- the first two merges are regrouped, then the rest is merged on its own
    refine Agree.trans h.trans ((h.assoc ha hb hc).bind fun x y _ _ hxy => h.foldlM_congr hxy hl) ?_
    rw [bind_assoc, bind_assoc]
    have hself : Agree R (merge b c) (merge b c) := h.congr hb hc
    refine hself.bind fun x y hx hy _ => ?_
    cases hx.symm.trans hy
    exact ih (h.closed hb hc hx) hl

/-- Splitting a list, merging its parts and then the results makes no difference. -/
theorem foldlM_split {a b : α} {l l' : List α} (ha : R a a) (hl : ∀ c ∈ l, R c c) (hb : R b b)
    (hl' : ∀ c ∈ l', R c c) :
    Agree R ((l ++ b :: l').foldlM merge a)
      (l.foldlM merge a >>= fun x => l'.foldlM merge b >>= fun y => merge x y) := by
  rw [List.foldlM_append]
  have hself : Agree R (l.foldlM merge a) (l.foldlM merge a) := h.foldlM_congr ha hl
  refine hself.bind fun x y hx hy _ => ?_
  cases hx.symm.trans hy
  rw [List.foldlM_cons]
  exact h.merge_foldlM (h.foldlM_closed ha hl hx) hb hl'

end IsAssocUpTo

/-! ## Missing values -/

/-- Merging where a value may be missing: then the other one is kept. -/
def mergeOption (merge : α → α → Except ε α) : Option α → Option α → Except ε (Option α)
  | none, b => .ok b
  | some a, none => .ok (some a)
  | some a, some b => some <$> merge a b

theorem mergeOption_none_right (merge : α → α → Except ε α) (a : Option α) :
    mergeOption merge a none = .ok a := by
  cases a with
  | none => rfl
  | some a => rfl

theorem Agree.map_some {R : α → α → Prop} {x y : Except ε α} (h : Agree R x y) :
    Agree (Option.Rel R) (some <$> x) (some <$> y) := by
  cases x with
  | error e =>
    cases y with
    | error e' => trivial
    | ok b => exact h.elim
  | ok a =>
    obtain ⟨b, rfl, hab⟩ := h.exists_right rfl
    exact Option.Rel.some hab

theorem rel_iff {R : α → β → Prop} {a : Option α} {b : Option β} :
    Option.Rel R a b ↔ (a = none ∧ b = none) ∨ ∃ x y, a = some x ∧ b = some y ∧ R x y := by
  constructor
  · rintro (⟨hxy⟩ | _)
    · exact Or.inr ⟨_, _, rfl, rfl, hxy⟩
    · exact Or.inl ⟨rfl, rfl⟩
  · rintro (⟨rfl, rfl⟩ | ⟨x, y, rfl, rfl, hxy⟩)
    · exact .none
    · exact .some hxy

theorem IsAssocUpTo.option {R : α → α → Prop} {merge : α → α → Except ε α}
    (h : IsAssocUpTo R merge) :
    IsAssocUpTo (Option.Rel R) (mergeOption merge) where
  symm := by
    rintro _ _ (⟨hab⟩ | _)
    · exact .some (h.symm _ _ hab)
    · exact .none
  trans := by
    rintro _ _ _ (⟨hab⟩ | _) hbc
    · cases hbc with
      | some hbc => exact .some (h.trans _ _ _ hab hbc)
    · exact hbc
  congr := by
    rintro _ _ _ _ (⟨ha⟩ | _) hb
    · cases hb with
      | some hb => exact (h.congr ha hb).map_some
      | none => exact Option.Rel.some ha
    · exact hb
  assoc := by
    intro a b c ha hb hc
    have hself {x y : Option α} (hx : Option.Rel R x x) (hy : Option.Rel R y y) :
        Agree (Option.Rel R) (mergeOption merge x y) (mergeOption merge x y) := by
      cases hx with
      | none => exact hy
      | some hx =>
        cases hy with
        | none => exact Option.Rel.some hx
        | some hy => exact (h.congr hx hy).map_some
    cases ha with
    | none =>
      show Agree (Option.Rel R) (mergeOption merge b c) (mergeOption merge b c >>= pure)
      rw [bind_pure]
      exact hself hb hc
    | some ha =>
      cases hb with
      | none => exact hself (.some ha) hc
      | some hb =>
        cases hc with
        | none =>
          show Agree (Option.Rel R) ((some <$> merge _ _) >>= fun x => mergeOption merge x none)
            (some <$> merge _ _)
          simp only [mergeOption_none_right]
          rw [show (fun x : Option α => (Except.ok x : Except ε (Option α))) =
            pure from rfl, bind_pure]
          exact (h.congr ha hb).map_some
        | some hc =>
          have hassoc := (h.assoc ha hb hc).map_some
          rw [map_bind, map_bind] at hassoc
          show Agree (Option.Rel R) ((some <$> merge _ _) >>= _) ((some <$> merge _ _) >>= _)
          rw [bind_map_left, bind_map_left]
          exact hassoc

end IdentityCommon.PartialMerge
