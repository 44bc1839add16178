import Mathlib.Data.List.Forall2

/-!
# Choices of compatible options

One option for each of some items, such that the parts of all the options chosen are compatible: a
search that goes back where a partial choice is not compatible, and a choice that is extended with
what still fits.

## Main definitions

- `search` — the first compatible choice, in the order of the options
- `extend` — a choice with the first compatible option of each of more items
- `SubsetClosed` — fewer parts are compatible as well

## Main results

- `search_sound`, `exists_search` — a search finds a compatible choice, if there is one
- `extend_spec` — an extended choice is compatible and cannot be extended further
-/

namespace IdentityCommon.CompatibleChoice

universe u v w

variable {ι : Type u} {ω : Type v} {β : Type w}

section

variable (compatible : List β → Bool) (parts : ω → List β) (options : ι → List ω)

/-- One option for each item, after those that are chosen. Partial choices that are not compatible
are left. -/
def search : List ι → List ω → Option (List ω)
  | [], chosen => some chosen
  | item :: items, chosen => (options item).findSome? fun option =>
    if compatible ((chosen ++ [option]).flatMap parts) then
      search items (chosen ++ [option])
    else none

/-- The first option of an item that is compatible with what is chosen, if there is one. -/
def extendStep (chosen : List ω) (item : ι) : List ω :=
  match (options item).find? fun option => compatible (chosen.flatMap parts ++ parts option) with
  | some option => chosen ++ [option]
  | none => chosen

def extend (items : List ι) (chosen : List ω) : List ω :=
  items.foldl (extendStep compatible parts options) chosen

/-- Fewer parts are compatible as well. -/
def SubsetClosed : Prop := ∀ xs ys, xs ⊆ ys → compatible ys = true → compatible xs = true

end

variable {compatible : List β → Bool} {parts : ω → List β} {options : ι → List ω}

theorem search_sound {items : List ι} {chosen found : List ω}
    (h : search compatible parts options items chosen = some found) :
    ∃ picked, found = chosen ++ picked ∧
    List.Forall₂ (fun item option => option ∈ options item) items picked ∧
      (items ≠ [] → compatible (found.flatMap parts) = true) := by
  induction items generalizing chosen with
  | nil =>
    obtain rfl := Option.some.inj h
    exact ⟨[], (List.append_nil _).symm, .nil, fun hne => absurd rfl hne⟩
  | cons item items ih =>
    obtain ⟨option, hoption, hfound⟩ := List.exists_of_findSome?_eq_some h
    split at hfound
    · next hcompatible =>
      obtain ⟨picked, rfl, hforall, hlast⟩ := ih hfound
      refine ⟨option :: picked, by simp, .cons hoption hforall, fun _ => ?_⟩
      by_cases hnil : items = []
      · subst hnil
        cases hforall
        rw [List.append_nil]
        exact hcompatible
      · exact hlast hnil
    · cases hfound

/-- Where one option of each item can be compatible, the search finds such a choice. -/
theorem exists_search (hclosed : SubsetClosed compatible) {items : List ι} {chosen picked : List ω}
    (hpicked : List.Forall₂ (fun item option => option ∈ options item) items picked)
    (hcompatible : compatible ((chosen ++ picked).flatMap parts) = true) :
    ∃ found, search compatible parts options items chosen = some found := by
  induction hpicked generalizing chosen with
  | nil => exact ⟨chosen, rfl⟩
  | @cons item option items picked hoption hforall ih =>
    have hsplit : chosen ++ option :: picked = (chosen ++ [option]) ++ picked := by simp
    rw [hsplit] at hcompatible
    have hpartial : compatible ((chosen ++ [option]).flatMap parts) = true := by
      refine hclosed _ ((chosen ++ [option]).flatMap parts ++ picked.flatMap parts)
        (List.subset_append_left _ _) ?_
      rw [← List.flatMap_append]
      exact hcompatible
    obtain ⟨found, hfound⟩ := ih hcompatible
    rw [← Option.isSome_iff_exists, search, List.findSome?_isSome_iff]
    refine ⟨option, hoption, ?_⟩
    rw [if_pos hpartial, hfound]
    rfl

/-- An extended choice has at most one option of each item, is compatible where one was added, and
leaves out only items none of whose options can be added to it. -/
theorem extend_spec (options : ι → List ω) (hclosed : SubsetClosed compatible) (items : List ι)
    (chosen : List ω) :
    ∃ added, extend compatible parts options items chosen = chosen ++ added ∧
      (∃ picked, picked.Sublist items ∧
        List.Forall₂ (fun item option => option ∈ options item) picked added ∧
        ∀ item ∈ items, item ∈ picked ∨
          ∀ option ∈ options item,
            compatible ((chosen ++ added).flatMap parts ++ parts option) = false) ∧
      (added ≠ [] → compatible ((chosen ++ added).flatMap parts) = true) := by
  induction items generalizing chosen with
  | nil => exact ⟨[], (List.append_nil _).symm, ⟨[], .slnil, .nil, nofun⟩, fun h => absurd rfl h⟩
  | cons item items ih =>
    cases hfind : (options item).find? fun option => compatible
      (chosen.flatMap parts ++ parts option) with
    | none =>
      have hstep : extendStep compatible parts options chosen item = chosen := by
        rw [extendStep, hfind]
      obtain ⟨added, hadded, ⟨picked, hsub, hforall, hleft⟩, hlast⟩ := ih chosen
      refine ⟨added, ?_, ⟨picked, hsub.cons item, hforall, ?_⟩, hlast⟩
      · rw [extend, List.foldl_cons, hstep]
        exact hadded
      · intro item' hitem'
        rcases List.mem_cons.mp hitem' with rfl | hmem
        · refine .inr fun option hoption => Bool.eq_false_iff.mpr fun htrue => ?_
          refine List.find?_eq_none.mp hfind option hoption (hclosed _ _ ?_ htrue)
          rw [List.flatMap_append]
          exact List.append_subset.mpr
            ⟨fun x hx => List.mem_append_left _ (List.mem_append_left _ hx),
            List.subset_append_right _ _⟩
        · exact hleft item' hmem
    | some option =>
      have hstep : extendStep compatible parts options chosen item = chosen ++ [option] := by
        rw [extendStep, hfind]
      have hcompatible : compatible ((chosen ++ [option]).flatMap parts) = true := by
        rw [List.flatMap_append, List.flatMap_singleton]
        exact List.find?_some
          (p := fun option => compatible (chosen.flatMap parts ++ parts option)) hfind
      obtain ⟨added, hadded, ⟨picked, hsub, hforall, hleft⟩, hlast⟩ := ih (chosen ++ [option])
      have hassoc : chosen ++ option :: added = chosen ++ [option] ++ added := by simp
      refine ⟨option :: added, ?_,
        ⟨item :: picked, hsub.cons_cons item, .cons (List.mem_of_find?_eq_some hfind) hforall, ?_⟩,
        fun _ => ?_⟩
      · rw [extend, List.foldl_cons, hstep, hassoc]
        exact hadded
      · intro item' hitem'
        rw [hassoc]
        rcases List.mem_cons.mp hitem' with rfl | hmem
        · exact .inl List.mem_cons_self
        · exact (hleft item' hmem).imp_left fun h => List.mem_cons_of_mem _ h
      · rw [hassoc]
        by_cases hnil : added = []
        · rw [hnil, List.append_nil]
          exact hcompatible
        · exact hlast hnil

end IdentityCommon.CompatibleChoice
