import IdentityCommon.Lib.AssocList
import IdentityCommon.Lib.Except
import Mathlib.Data.List.Induction

/-!
# Folds over the entries of a map

Computations that go through the entries of an association list and change, for each, only what
belongs to its key.

## Main results

- `foldlM_frame` — what no step changes is not changed
- `foldlM_at`, `foldlM_at_of_invariant` — what belongs to a key is what the step for its entry makes
  of it
- `foldlM_invariant` — what every step keeps
- `exists_foldlM_eq_ok` — a computation succeeds when each entry can be processed on its own
- `lookup_foldl_write`, `foldlM_insert_eq_ok` — the last item that writes a key is the one that
  counts
-/

namespace IdentityCommon.KeyedFold

open IdentityCommon.Except AssocList

universe u v w

variable {ε : Type u} {σ : Type v} {ι : Type*}

theorem foldlM_invariant {step : σ → ι → Except ε σ} {motive : σ → Prop} {l : List ι}
    (hstep : ∀ i ∈ l, ∀ s s', motive s → step s i = .ok s' → motive s') {s s' : σ} (hs : motive s)
    (h : l.foldlM step s = .ok s') : motive s' := by
  induction l generalizing s with
  | nil =>
    cases h
    exact hs
  | cons i l ih =>
    rw [List.foldlM_cons] at h
    obtain ⟨s₁, hs₁, h⟩ := bind_eq_ok.mp h
    exact ih (fun j hj => hstep j (List.mem_cons_of_mem _ hj))
      (hstep i List.mem_cons_self s s₁ hs hs₁) h

variable {γ : Type w} {f : σ → γ}

/-- What no step changes is not changed. -/
theorem foldlM_frame {step : σ → ι → Except ε σ} {l : List ι}
    (hframe : ∀ i ∈ l, ∀ s s', step s i = .ok s' → f s' = f s) {s s' : σ}
    (h : l.foldlM step s = .ok s') :
    f s' = f s :=
  foldlM_invariant (fun i hi s₁ s₂ hs hstep => (hframe i hi s₁ s₂ hstep).trans hs) rfl h

theorem foldlM_frame_of_invariant {step : σ → ι → Except ε σ} {motive : σ → Prop} {l : List ι}
    (hstep : ∀ i ∈ l, ∀ s s', motive s → step s i = .ok s' → motive s')
    (hframe : ∀ i ∈ l, ∀ s s', motive s → step s i = .ok s' → f s' = f s) {s s' : σ} (hs : motive s)
    (h : l.foldlM step s = .ok s') : motive s' ∧ f s' = f s := by
  refine foldlM_invariant (motive := fun t => motive t ∧ f t = f s)
    (fun i hi s₁ s₂ ⟨hs₁, hf⟩ h₁ => ?_) ⟨hs, rfl⟩ h
  exact ⟨hstep i hi s₁ s₂ hs₁ h₁, (hframe i hi s₁ s₂ hs₁ h₁).trans hf⟩

variable {α : Type*} {β : Type*} [DecidableEq α]

/-- What belongs to a key is what the step for its entry makes of it, where every step keeps an
invariant. -/
theorem foldlM_at_of_invariant {step : σ → α × β → Except ε σ} {motive : σ → Prop}
    {l : List (α × β)} (hn : (keys l).Nodup) {key : α} {val : β} (hl : l.lookup key = some val)
    (hstep : ∀ m ∈ l, ∀ s s', motive s → step s m = .ok s' → motive s')
    (hframe : ∀ m ∈ l, m.1 ≠ key → ∀ s s', motive s → step s m = .ok s' → f s' = f s) {s s' : σ}
    (hs : motive s) (h : l.foldlM step s = .ok s') :
    ∃ s₁ s₂, motive s₁ ∧ step s₁ (key, val) = .ok s₂ ∧ f s₁ = f s ∧ f s' = f s₂ := by
  induction l generalizing s with
  | nil => cases hl
  | cons m l ih =>
    rw [List.foldlM_cons] at h
    obtain ⟨s₁, hs₁, hrest⟩ := bind_eq_ok.mp h
    rw [keys_cons, List.nodup_cons] at hn
    have hinv₁ := hstep m List.mem_cons_self s s₁ hs hs₁
    have hstep' : ∀ m' ∈ l, ∀ t t', motive t → step t m' = .ok t' → motive t' := fun m' hm' =>
      hstep m' (List.mem_cons_of_mem _ hm')
    by_cases hm : m.1 = key
    · obtain ⟨k, v⟩ := m
      cases hm
      rw [lookup_cons_of_eq] at hl
      cases hl
      refine ⟨s, s₁, hs, hs₁, rfl,
        (foldlM_frame_of_invariant hstep' (fun m' hm' => ?_) hinv₁ hrest).2⟩
      refine hframe m' (List.mem_cons_of_mem _ hm') ?_
      rintro rfl
      exact hn.1 (show m'.1 ∈ keys l from mem_keys_of_mem hm')
    · rw [lookup_cons_of_ne hm] at hl
      obtain ⟨s₂, s₃, hinv₂, hstep₂, hf, hf'⟩ :=
        ih hn.2 hl hstep' (fun m' hm' => hframe m' (List.mem_cons_of_mem _ hm')) hinv₁ hrest
      exact ⟨s₂, s₃, hinv₂, hstep₂, hf.trans (hframe m List.mem_cons_self hm s s₁ hs hs₁), hf'⟩

/-- What belongs to a key is what the step for its entry makes of it. -/
theorem foldlM_at {step : σ → α × β → Except ε σ} {l : List (α × β)} (hn : (keys l).Nodup)
    {key : α} {val : β} (hl : l.lookup key = some val)
    (hframe : ∀ m ∈ l, m.1 ≠ key → ∀ s s', step s m = .ok s' → f s' = f s) {s s' : σ}
    (h : l.foldlM step s = .ok s') :
    ∃ s₁ s₂, step s₁ (key, val) = .ok s₂ ∧ f s₁ = f s ∧ f s' = f s₂ := by
  obtain ⟨s₁, s₂, -, hs₂⟩ :=
    foldlM_at_of_invariant (motive := fun _ => True) hn hl (fun _ _ _ _ _ _ => trivial)
    (fun m hm hne t t' _ => hframe m hm hne t t') trivial h
  exact ⟨s₁, s₂, hs₂⟩

/-- What belongs to a key that has no entry is not changed. -/
theorem foldlM_of_not_mem {step : σ → α × β → Except ε σ} {l : List (α × β)} {key : α}
    (hl : l.lookup key = none) (hframe : ∀ m ∈ l, m.1 ≠ key →
      ∀ s s', step s m = .ok s' → f s' = f s) {s s' : σ} (h : l.foldlM step s = .ok s') :
    f s' = f s := by
  refine foldlM_frame (fun m hm => hframe m hm ?_) h
  rintro rfl
  exact lookup_eq_none_iff.mp hl (mem_keys_of_mem hm)

omit [DecidableEq α] in
/-- A computation succeeds when the step for each entry does, from what belongs to its key at the
start. -/
theorem exists_foldlM_eq_ok {step : σ → α × β → Except ε σ} {g : α → σ → γ} {l : List (α × β)}
    (hn : (keys l).Nodup) (hframe : ∀ m ∈ l, ∀ key, m.1 ≠ key → ∀ s s', step s m = .ok s' →
      g key s' = g key s) {s : σ}
    (hstep : ∀ m ∈ l, ∀ s', g m.1 s' = g m.1 s → ∃ s'', step s' m = .ok s'') :
    ∃ s', l.foldlM step s = .ok s' := by
  induction l generalizing s with
  | nil => exact ⟨s, rfl⟩
  | cons m l ih =>
    rw [keys_cons, List.nodup_cons] at hn
    obtain ⟨s₁, hs₁⟩ := hstep m List.mem_cons_self s rfl
    have hrest : ∀ m' ∈ l, ∀ s', g m'.1 s' = g m'.1 s₁ → ∃ s'', step s' m' = .ok s'' := by
      intro m' hm' s' hs'
      have hne : m.1 ≠ m'.1 := fun heq => hn.1 (heq ▸ mem_keys_of_mem hm')
      exact hstep m' (List.mem_cons_of_mem _ hm') s'
        (hs'.trans (hframe m List.mem_cons_self m'.1 hne s s₁ hs₁))
    obtain ⟨s', hs'⟩ := ih hn.2 (fun m' hm' => hframe m' (List.mem_cons_of_mem _ hm')) hrest
    exact ⟨s', by rw [List.foldlM_cons, hs₁]; exact hs'⟩

/-! ## Items that write a key -/

section write

variable {ι : Type*} {ε : Type*}

/-- What is assigned for an item, if anything. -/
def writeItem (write : ι → Option (α × β)) (acc : List (α × β)) (i : ι) : List (α × β) :=
  match write i with
  | some m => insert m.1 m.2 acc
  | none => acc

theorem nodup_foldl_write (write : ι → Option (α × β)) (l : List ι) {start : List (α × β)}
    (h : (keys start).Nodup) :
    (keys (l.foldl (writeItem write) start)).Nodup := by
  induction l generalizing start with
  | nil => exact h
  | cons i l ih =>
    apply ih
    unfold writeItem
    split
    · exact nodup_insert _ h
    · exact h

/-- The last item that writes a key is the one that counts. -/
theorem lookup_foldl_write {write : ι → Option (α × β)} {l : List ι} {key : α} {val : β} :
    (l.foldl (writeItem write) []).lookup key = some val ↔
      ∃ before i after, l = before ++ i :: after ∧ write i = some (key, val) ∧
        ∀ j ∈ after, ∀ v, write j ≠ some (key, v) := by
  induction l using List.reverseRecOn with
  | nil => simp
  | append_singleton l i ih =>
    have hother : (∀ v, write i ≠ some (key, v)) →
        (((l ++ [i]).foldl (writeItem write) []).lookup key = some val ↔
          (l.foldl (writeItem write) []).lookup key = some val) := by
      intro hi
      rw [List.foldl_append, List.foldl_cons, List.foldl_nil, writeItem]
      split
      case h_1 m hm =>
        have hne : key ≠ m.1 := by
          rintro rfl
          exact hi m.2 hm
        rw [lookup_insert, if_neg hne]
      case h_2 => rfl
    constructor
    · intro h
      by_cases hi : ∃ v, write i = some (key, v)
      · obtain ⟨v, hv⟩ := hi
        rw [List.foldl_append, List.foldl_cons, List.foldl_nil, writeItem, hv,
          lookup_insert, if_pos rfl] at h
        exact ⟨l, i, [], rfl,
          hv.trans (congrArg (fun v => some (key, v)) (Option.some.inj h)), nofun⟩
      · have hi := not_exists.mp hi
        obtain ⟨before, j, after, rfl, hj, hafter⟩ := ih.mp ((hother hi).mp h)
        refine ⟨before, j, after ++ [i], by simp, hj, fun j' hj' => ?_⟩
        rcases List.mem_append.mp hj' with hj' | hj'
        · exact hafter j' hj'
        · exact List.mem_singleton.mp hj' ▸ hi
    · rintro ⟨before, j, after, heq, hj, hafter⟩
      rcases List.eq_nil_or_concat after with rfl | ⟨after, i', rfl⟩
      · obtain ⟨rfl, hlast⟩ := List.append_inj' heq rfl
        cases hlast
        rw [List.foldl_append, List.foldl_cons, List.foldl_nil, writeItem, hj,
          lookup_insert, if_pos rfl]
      · rw [List.concat_eq_append, ← List.cons_append, ← List.append_assoc] at heq
        obtain ⟨rfl, hlast⟩ := List.append_inj' heq rfl
        cases hlast
        have hi : ∀ v, write i ≠ some (key, v) := hafter i (by simp)
        refine (hother hi).mpr (ih.mpr ⟨before, j, after, rfl, hj, fun j' hj' => hafter j' ?_⟩)
        simp [hj']

/-- Items that each write their own key, or fail. -/
theorem foldlM_insert_eq_ok {name : ι → α} {f : ι → Except ε β} {l : List ι}
    {start r : List (α × β)} :
    l.foldlM (fun acc i => (f i).map fun val => insert (name i) val acc) start = .ok r ↔
      (∀ i ∈ l, ∃ val, f i = .ok val) ∧
        r = l.foldl (writeItem fun i => (f i).toOption.map fun val => (name i, val)) start := by
  induction l generalizing start with
  | nil =>
    constructor
    · intro h
      cases h
      exact ⟨nofun, rfl⟩
    · rintro ⟨-, rfl⟩
      rfl
  | cons i l ih =>
    rw [List.foldlM_cons, List.forall_mem_cons, List.foldl_cons]
    cases hi : f i with
    | error e =>
      refine iff_of_false nofun ?_
      rintro ⟨⟨⟨val, hval⟩, -⟩, -⟩
      cases hval
    | ok val =>
      have hwrite : writeItem (fun i => (f i).toOption.map fun val => (name i, val)) start i =
          insert (name i) val start := by
        rw [writeItem, hi]
        rfl
      rw [hwrite, and_assoc, and_iff_right ⟨val, rfl⟩]
      exact ih

end write

end IdentityCommon.KeyedFold
