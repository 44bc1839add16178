import IdentityCommon.Common.StrictSchemas
import IdentityCommon.Lib.Except

/-!
# Members of loose objects

What a loose object returns for each of its members: those without a schema as they are, except an
own member `__proto__`, and those with an optional schema as the schema returns them.

## Main results

- `child_other_looseObject`, `child_proto_looseObject`, `child_optional_looseObject` — the members
  of the result
- `looseObject_insert` — a member without a schema can be added
- `isSome_looseObject` — objects without the members that have a schema are accepted
-/

namespace IdentityCommon.Common

open Ecma AssocList Value

theorem lookup_filter_key {members : List (String × Value)} (kept : String → Bool) (key : String) :
    (members.filter fun m => kept m.1).lookup key =
      if kept key then members.lookup key else none := by
  induction members with
  | nil => exact (ite_self none).symm
  | cons m members ih =>
    rw [List.filter_cons]
    by_cases hm : m.1 = key
    · subst hm
      by_cases hkept : kept m.1 = true
      · rw [if_pos hkept, if_pos hkept]
        exact (lookup_cons_of_eq m.1 m.2 _).trans (lookup_cons_of_eq m.1 m.2 _).symm
      · rw [if_neg hkept, ih, if_neg hkept, if_neg hkept]
    · rw [lookup_cons_of_ne hm, ← ih]
      by_cases hkept : kept m.1 = true
      · rw [if_pos hkept, lookup_cons_of_ne hm]
      · rw [if_neg hkept]

theorem isOther_iff {shape : List (String × Schema)} {key : String} :
    isOther shape key = true ↔ key ∉ keys shape ∧ key ≠ "__proto__" := by
  rw [isOther, decide_eq_true_eq]

section

variable {α β : Type} {R : α → β → Prop} {a : Option α} {b : Option β}

theorem rel_none_iff (h : Option.Rel R a b) : b = none ↔ a = none := by
  cases h with
  | none => exact iff_of_true rfl rfl
  | some _ => exact iff_of_false nofun nofun

theorem exists_of_rel_left (h : Option.Rel R a b) {x : α} (ha : a = some x) :
    ∃ y, b = some y ∧ R x y := by
  cases h with
  | none => cases ha
  | some hxy =>
    cases ha
    exact ⟨_, rfl, hxy⟩

theorem exists_of_rel_right (h : Option.Rel R a b) {y : β} (hb : b = some y) :
    ∃ x, a = some x ∧ R x y := by
  cases h with
  | none => cases hb
  | some hxy =>
    cases hb
    exact ⟨_, rfl, hxy⟩

end

section

variable {shape : List (String × Schema)} {v w : Value} {key : String}

theorem child_other_looseObject (hkey : key ∉ keys shape) (hproto : key ≠ "__proto__")
    (h : looseObject shape v = some w) : w.child (.name key) = v.child (.name key) := by
  obtain ⟨members, known, rfl, hknown, rfl⟩ := looseObject_eq_some h
  have hnone : known.lookup key = none :=
    lookup_eq_none_iff.mpr fun hmem => hkey ((keys_parseShape hknown).subset hmem)
  rw [child_name_obj, child_name_obj, List.lookup_append, hnone, Option.none_or,
    lookup_filter_key (isOther shape), if_pos (isOther_iff.mpr ⟨hkey, hproto⟩)]

theorem child_proto_looseObject (hshape : "__proto__" ∉ keys shape)
    (h : looseObject shape v = some w) :
    w.child (.name "__proto__") = none := by
  obtain ⟨members, known, rfl, hknown, rfl⟩ := looseObject_eq_some h
  have hnone : known.lookup "__proto__" = none :=
    lookup_eq_none_iff.mpr fun hmem => hshape ((keys_parseShape hknown).subset hmem)
  rw [child_name_obj, List.lookup_append, hnone, Option.none_or, lookup_filter_key (isOther shape),
    if_neg fun hother => (isOther_iff.mp hother).2 rfl]

theorem lookup_parseShape_optional {schema : Schema} (hn : (keys shape).Nodup)
    (hs : (key, optional schema) ∈ shape) {members known : List (String × Value)}
    (h : parseShape shape members = some known) :
    Option.Rel (fun x y => optional schema x = some y) (members.lookup key) (known.lookup key) := by
  induction shape generalizing known with
  | nil => cases hs
  | cons s shape ih =>
    obtain ⟨value, rest, hvalue, hrest, rfl⟩ := parseShape_cons.mp h
    obtain ⟨hfirst, hn⟩ := List.nodup_cons.mp hn
    rcases List.mem_cons.mp hs with rfl | hs
    · cases hl : members.lookup key with
      | some x =>
        have hpresent : decide (key ∈ keys members) = true := by
          simpa using mem_keys_of_mem (mem_of_lookup hl)
        have hput : putMember (key ∈ keys members) key value rest = (key, value) :: rest := by
          unfold putMember
          split
          · rw [if_pos hpresent]
          · rfl
        rw [hput, lookup_cons_of_eq]
        rw [hl] at hvalue
        exact .some hvalue
      | none =>
        rw [hl] at hvalue
        obtain rfl : undefined = value := Option.some.inj hvalue
        have habsent : ¬decide (key ∈ keys members) = true := by
          simpa using lookup_eq_none_iff.mp hl
        rw [putMember, if_neg habsent,
          lookup_eq_none_iff.mpr fun hmem => hfirst ((keys_parseShape hrest).subset hmem)]
        exact .none
    · have hne : s.1 ≠ key := by
        rintro rfl
        have hmem := mem_keys_of_mem hs
        exact hfirst hmem
      rw [lookup_putMember_of_ne hne]
      exact ih hn hs hrest

theorem child_optional_looseObject {schema : Schema} (hn : (keys shape).Nodup)
    (hs : (key, optional schema) ∈ shape) (h : looseObject shape v = some w) :
    Option.Rel (fun x y => optional schema x = some y) (v.child (.name key))
      (w.child (.name key)) := by
  obtain ⟨members, known, rfl, hknown, rfl⟩ := looseObject_eq_some h
  have hother : ¬isOther shape key = true :=
    fun hother => (isOther_iff.mp hother).1 (mem_keys_of_mem hs)
  rw [child_name_obj, child_name_obj, List.lookup_append,
    lookup_filter_key (isOther shape), if_neg hother, Option.or_none]
  exact lookup_parseShape_optional hn hs hknown

theorem isSome_parseShape {members : List (String × Value)}
    (h : ∀ s ∈ shape, (s.2 ((members.lookup s.1).getD undefined)).isSome) :
    (parseShape shape members).isSome := by
  induction shape with
  | nil => rfl
  | cons s shape ih =>
    obtain ⟨hfirst, hrest⟩ := List.forall_mem_cons.mp h
    obtain ⟨value, hvalue⟩ := Option.isSome_iff_exists.mp hfirst
    obtain ⟨known, hknown⟩ := Option.isSome_iff_exists.mp (ih hrest)
    rw [parseShape_cons.mpr ⟨value, known, hvalue, hknown, rfl⟩]
    rfl

theorem isSome_looseObject {members : List (String × Value)}
    (h : ∀ s ∈ shape, (s.2 ((members.lookup s.1).getD undefined)).isSome) :
    (looseObject shape (obj members)).isSome := by
  obtain ⟨known, hknown⟩ := Option.isSome_iff_exists.mp (isSome_parseShape h)
  rw [looseObject, hknown]
  rfl

end

/-! ## Adding a member -/

theorem parseShape_congr {shape : List (String × Schema)} {members members' : List (String × Value)}
    (h : ∀ key ∈ keys shape, members.lookup key = members'.lookup key) :
    parseShape shape members = parseShape shape members' := by
  induction shape with
  | nil => rfl
  | cons s shape ih =>
    obtain ⟨hfirst, hrest⟩ := List.forall_mem_cons.mp h
    have hmem : (decide (s.1 ∈ keys members)) = decide (s.1 ∈ keys members') := by
      simp only [← lookup_isSome_iff, hfirst]
    rw [parseShape, parseShape, ih hrest, hfirst, hmem]

theorem filter_insert {kept : String → Bool} {key : String} (hkey : kept key = true) (value : Value)
    (members : List (String × Value)) :
    (insert key value members).filter (fun m => kept m.1) =
      insert key value (members.filter fun m => kept m.1) := by
  induction members with
  | nil => rw [AssocList.insert, List.filter_nil, AssocList.insert,
      List.filter_cons_of_pos (by exact hkey), List.filter_nil]
  | cons m members ih =>
    rw [AssocList.insert]
    by_cases hm : m.1 = key
    · rw [if_pos hm, List.filter_cons_of_pos (by exact hkey),
        List.filter_cons_of_pos (by rw [hm]; exact hkey), AssocList.insert, if_pos hm]
    · rw [if_neg hm, List.filter_cons, List.filter_cons, ih]
      by_cases hkept : kept m.1 = true
      · rw [if_pos hkept, if_pos hkept, AssocList.insert, if_neg hm]
      · rw [if_neg hkept, if_neg hkept]

theorem insert_append {key : String} {known : List (String × Value)} (h : key ∉ keys known)
    (value : Value) (others : List (String × Value)) :
    insert key value (known ++ others) = known ++ insert key value others := by
  induction known with
  | nil => rfl
  | cons m known ih =>
    obtain ⟨hm, hknown⟩ := not_or.mp (List.mem_cons.not.mp h)
    rw [List.cons_append, AssocList.insert, if_neg (Ne.symm hm), ih hknown, List.cons_append]

/-- A loose object with one more member without a schema is returned with it. -/
theorem looseObject_insert {shape : List (String × Schema)} {key : String}
    (hother : isOther shape key = true) {members members' : List (String × Value)}
    (h : looseObject shape (obj members) = some (obj members')) (value : Value) :
    looseObject shape (obj (insert key value members)) =
      some (obj (insert key value members')) := by
  obtain ⟨input, known, heq, hknown, heq'⟩ := looseObject_eq_some h
  cases heq
  cases heq'
  have hkey := (isOther_iff.mp hother).1
  have hparse : parseShape shape (insert key value members) = some known := by
    rw [← hknown]
    refine parseShape_congr fun key' hkey' => ?_
    have hne : key' ≠ key := by
      rintro rfl
      exact hkey hkey'
    rw [lookup_insert, if_neg hne]
  rw [looseObject, hparse, filter_insert hother,
    insert_append fun hmem => hkey ((keys_parseShape hknown).subset hmem)]
  rfl

/-! ## Texts, numbers and arrays -/

theorem exact_textWhere (accepts : String → Bool) : Exact (textWhere accepts) := by
  intro v w h
  unfold textWhere at h
  split at h
  · split_ifs at h
    cases h
    exact ⟨rfl, .leaf rfl⟩
  · cases h

theorem exact_zInteger : Exact zInteger := by
  intro v w h
  unfold zInteger at h
  split at h
  · split_ifs at h
    cases h
    exact ⟨rfl, .leaf rfl⟩
  · cases h

theorem array_eq_some {schema : Schema} {v w : Value} (h : array schema v = some w) :
    ∃ items items', v = arr items ∧ w = arr items' ∧
    List.Forall₂ (fun x y => schema x = some y) items items' := by
  unfold array at h
  split at h
  · obtain ⟨items', hitems, rfl⟩ := Option.map_eq_some_iff.mp h
    exact ⟨_, items', rfl, rfl, Except.mapM_eq_some.mp hitems⟩
  · cases h

@[simp] theorem KeepsDistinct.array {schema : Schema} (hs : KeepsDistinct schema) :
    KeepsDistinct (array schema) := by
  intro v w hv h
  obtain ⟨items, items', rfl, rfl, hitems⟩ := array_eq_some h
  cases hv with
  | arr hall =>
    refine .arr fun y hy => ?_
    obtain ⟨i, hi, rfl⟩ := List.getElem_of_mem hy
    have hi' : i < items.length := hitems.length_eq ▸ hi
    exact hs _ _ (hall _ (List.getElem_mem hi')) (hitems.get hi' hi)

end IdentityCommon.Common
