import IdentityCommon.OpenidFederation.PolicyStages

/-!
# Policies bind

When the metadata that is left after the combined policy is applied satisfies every operator of the
policy of every statement.

## Main definitions

- `Satisfies` — a parameter satisfies an operator
- `RemovedAndAdded`, `RepeatedAndAdded`, `InheritedEssential` — the policies that do not bind

## Main results

- `metadata_satisfies_policies` — the metadata satisfies all policies unless they are of these kinds
- `emptyAddition_present` — a parameter that a trust anchor removes is there after an `add` of no
  values
-/

namespace IdentityCommon.OpenidFederation

open IdentityCommon.Except AssocList Ecma Value Operator

/-! ## Scopes -/

/-- The text that an element of an array is joined from. -/
def itemText (item : Value) : Option String := (itemTexts [item]).bind List.head?

theorem itemTexts_cons (item : Value) (items : List Value) :
    itemTexts (item :: items) = (itemText item).bind fun text => (itemTexts items).map
      (text :: ·) := by
  cases item with
  | leaf l => cases l <;> rfl
  | arr inner =>
    rw [itemText]
    simp only [itemTexts]
    cases toText (arr inner) <;> rfl
  | obj members =>
    rw [itemText]
    simp only [itemTexts]
    cases toText (obj members) <;> rfl

theorem mem_itemTexts {items : List Value} {texts : List String} (h : itemTexts items = some texts)
    {text : String} :
    text ∈ texts ↔ ∃ item ∈ items, itemText item = some text := by
  induction items generalizing texts with
  | nil =>
    cases h
    simp
  | cons item items ih =>
    rw [itemTexts_cons] at h
    obtain ⟨t, ht, h⟩ := Option.bind_eq_some_iff.mp h
    obtain ⟨ts, hts, rfl⟩ := Option.map_eq_some_iff.mp h
    rw [List.mem_cons, ih hts, List.exists_mem_cons_iff, ht, Option.some.injEq, eq_comm]

theorem exists_itemTexts {items : List Value} :
    (∃ texts, itemTexts items = some texts) ↔
      ∀ item ∈ items, ∃ text, itemText item = some text := by
  constructor
  · rintro ⟨texts, h⟩ item hitem
    induction items generalizing texts with
    | nil => cases hitem
    | cons first items ih =>
      rw [itemTexts_cons] at h
      obtain ⟨text, htext, h⟩ := Option.bind_eq_some_iff.mp h
      obtain ⟨texts', htexts', -⟩ := Option.map_eq_some_iff.mp h
      obtain rfl | hitem := List.mem_cons.mp hitem
      · exact ⟨text, htext⟩
      · exact ih texts' htexts' hitem
  · intro h
    induction items with
    | nil => exact ⟨[], rfl⟩
    | cons item items ih =>
      obtain ⟨⟨text, htext⟩, hitems⟩ := List.forall_mem_cons.mp h
      obtain ⟨texts, htexts⟩ := ih hitems
      exact ⟨text :: texts, by rw [itemTexts_cons, htext, htexts]; rfl⟩

theorem splitScope_append (s t : String) :
    splitScope (s ++ " " ++ t) = splitScope s ++ splitScope t := by
  rw [splitScope, split, String.append_assoc, String.toList_append, String.toList_append]
  rw [show " ".toList ++ t.toList = ' ' :: t.toList from rfl, splitChars_append_cons,
    List.map_append, List.filter_append]
  rfl

/-- A scope that is joined has the values of its parts. -/
theorem splitScope_intercalate (texts : List String) :
    splitScope (" ".intercalate texts) = texts.flatMap splitScope := by
  induction texts with
  | nil => rfl
  | cons s texts ih =>
    cases texts with
    | nil => rw [String.intercalate_singleton, List.flatMap_cons, List.flatMap_nil, List.append_nil]
    | cons t texts => rw [String.intercalate_cons_cons, splitScope_append, ih,
        List.flatMap_cons (x := s)]

theorem splitScope_of_mem {s t : String} (h : t ∈ splitScope s) : splitScope t = [t] := by
  obtain ⟨hmem, hne⟩ := List.mem_filter.mp h
  have hsplit : split t ' ' = [t] := by
    rw [split, splitChars_of_not_mem (not_mem_of_mem_split hmem), List.map_singleton,
      String.ofList_toList]
  rw [splitScope, hsplit, List.filter_cons, if_pos hne, List.filter_nil]

theorem itemTexts_str (texts : List String) : itemTexts (texts.map str) = some texts := by
  induction texts with
  | nil => rfl
  | cons t texts ih =>
    rw [List.map_cons, itemTexts_cons, ih]
    rfl

/-- The values of a parameter that is a list; those of a scope are separated by spaces. -/
def parameterValues (property : String) (v : Value) : Option (List Value) :=
  if property = "scope" then
    match v with
    | str scope => some ((splitScope scope).map str)
    | arr items => (itemTexts items).map fun texts => (texts.flatMap splitScope).map str
    | _ => none
  else
    match v with
    | arr items => some items
    | _ => none

theorem parameterValues_scope (scope : String) :
    parameterValues "scope" (str scope) = some ((splitScope scope).map str) := rfl

/-- The values of a scope, as an array, are its values. -/
theorem parameterValues_tokens (scope : String) :
    parameterValues "scope" (arr ((splitScope scope).map str)) =
      some ((splitScope scope).map str) := by
  have hflat : (splitScope scope).flatMap splitScope = splitScope scope := by
    rw [List.flatMap_congr fun token htoken => splitScope_of_mem htoken, List.flatMap_singleton']
  rw [parameterValues, if_pos rfl, itemTexts_str, Option.map_some, hflat]

theorem parameterValues_of_forall {items : List Value} (property : String)
    (h : ∀ item ∈ items, ∃ text, itemText item = some text) :
    ∃ a, parameterValues property (arr items) = some a := by
  obtain ⟨texts, htexts⟩ := exists_itemTexts.mpr h
  unfold parameterValues
  split
  · dsimp only
    rw [htexts]
    exact ⟨_, rfl⟩
  · exact ⟨items, rfl⟩

/-- The values of an array of strings, or of numbers, are those of a list. -/
theorem parameterValues_isSome {items : List Value} (property : String)
    (h : items.all isString || items.all isNumber) :
    ∃ a, parameterValues property (arr items) = some a := by
  refine parameterValues_of_forall property fun item hitem => ?_
  rw [Bool.or_eq_true, List.all_eq_true, List.all_eq_true] at h
  have hcases : isString item ∨ isNumber item :=
    h.imp (fun hs => hs item hitem) fun hn => hn item hitem
  unfold isString isNumber at hcases
  cases item with
  | leaf l =>
    cases l <;> first
      | exact ⟨_, rfl⟩
      | simp at hcases
  | arr inner => simp at hcases
  | obj members => simp at hcases

theorem parameterValues_of_subset {property : String} {T X : List Value}
    {a : List Value} (hsub : X ⊆ T) (h : parameterValues property (arr T) = some a) :
    ∃ b, parameterValues property (arr X) = some b := by
  unfold parameterValues at h
  split at h
  case isTrue =>
    obtain ⟨texts, htexts, -⟩ := Option.map_eq_some_iff.mp h
    exact parameterValues_of_forall property fun item hitem => exists_itemTexts.mp
      ⟨texts, htexts⟩ item (hsub hitem)
  case isFalse hs => exact ⟨X, by rw [parameterValues, if_neg hs]⟩

theorem parameterValues_subset {property : String} {T S a b : List Value} (hsub : T ⊆ S)
    (ha : parameterValues property (arr T) = some a)
    (hb : parameterValues property (arr S) = some b) : a ⊆ b := by
  unfold parameterValues at ha hb
  split at ha
  case isTrue hs =>
    rw [if_pos hs] at hb
    obtain ⟨texts, htexts, rfl⟩ := Option.map_eq_some_iff.mp ha
    obtain ⟨texts', htexts', rfl⟩ := Option.map_eq_some_iff.mp hb
    refine List.map_subset _ (fun token htoken => ?_)
    obtain ⟨text, htext, htoken⟩ := List.mem_flatMap.mp htoken
    obtain ⟨item, hitem, heq⟩ := (mem_itemTexts htexts).mp htext
    exact List.mem_flatMap.mpr ⟨text, (mem_itemTexts htexts').mpr ⟨item, hsub hitem, heq⟩, htoken⟩
  case isFalse hs =>
    rw [if_neg hs] at hb
    cases ha
    cases hb
    exact hsub

/-! ## Operators and parameters -/

/-- The parameter is there; one that is null is not. -/
def Present (own : Option Value) : Prop := ∃ w, own = some w ∧ isNullOrUndefined w = false

/-- All values of one list are values of another. -/
def Contains (property : String) (big small : Value) : Prop :=
  ∃ a b, parameterValues property big = some a ∧ parameterValues property small = some b ∧ b ⊆ a

/-- Equality, and of scopes as sets. -/
def SameParameter (property : String) (w v : Value) : Prop :=
  w = v ∨ property = "scope" ∧ Contains property w v ∧ Contains property v w

/-- A parameter satisfies an operator of a policy. -/
def Satisfies (property : String) : Operator → Value → Option Value → Prop
  | .value, null, own => ¬Present own
  | .value, v, own => ∃ w, own = some w ∧ SameParameter property w v
  | .add, v, own => ∃ w, own = some w ∧ Contains property w v
  | .oneOf, v, own => ∀ w, own = some w → isNullOrUndefined w = false → w ∈ elements v
  | .subsetOf, v, own => ∀ w, own = some w → isNullOrUndefined w = false → Contains property v w
  | .supersetOf, v, own => ∀ w, own = some w → isNullOrUndefined w = false → Contains property w v
  | .essential, v, own => v = Value.bool true → Present own
  | .default, _, _ => True

theorem satisfies_value_iff {property : String} {v : Value} {own : Option Value} (hne : v ≠ null) :
    Satisfies property value v own ↔ ∃ w, own = some w ∧ SameParameter property w v := by
  cases v with
  | leaf l =>
    cases l <;> first
      | exact Iff.rfl
      | exact absurd rfl hne
  | arr items => exact Iff.rfl
  | obj members => exact Iff.rfl

theorem Contains.trans {property : String} {u v w : Value} (h : Contains property u v)
    (h' : Contains property v w) :
    Contains property u w := by
  obtain ⟨a, b, ha, hb, hba⟩ := h
  obtain ⟨b', c, hb', hc, hcb⟩ := h'
  cases hb.symm.trans hb'
  exact ⟨a, c, ha, hc, List.Subset.trans hcb hba⟩

theorem contains_of_subset {property : String} {c v : Value} {op : Operator}
    (hop : op ∈ [add, oneOf, subsetOf, supersetOf]) (hc : op.operatorSchema c)
    (hv : op.operatorSchema v) (hsub : elements v ⊆ elements c) : Contains property c v := by
  obtain ⟨S, rfl, hS⟩ := arr_of_schema hc hop
  obtain ⟨T, rfl, hT⟩ := arr_of_schema hv hop
  obtain ⟨a, ha⟩ := parameterValues_isSome property hS
  obtain ⟨b, hb⟩ := parameterValues_isSome property hT
  exact ⟨a, b, ha, hb, parameterValues_subset hsub hb ha⟩

/-- What satisfies an operator satisfies those that are less strict. -/
theorem Satisfies.of_refines {property : String} {op : Operator} {c v : Value} {own : Option Value}
    (hc : op.operatorSchema c) (hv : op.operatorSchema v) (href : Refines op c v)
    (h : Satisfies property op c own) :
    Satisfies property op v own := by
  cases op with
  | value =>
    cases href
    exact h
  | default => trivial
  | add =>
    obtain ⟨w, hw, hcontains⟩ := h
    exact ⟨w, hw, hcontains.trans (contains_of_subset (by simp) hc hv href)⟩
  | oneOf => exact fun w hw hpresent => href (h w hw hpresent)
  | subsetOf => exact fun w hw hpresent =>
      (contains_of_subset (by simp) hv hc href).trans (h w hw hpresent)
  | supersetOf => exact fun w hw hpresent =>
      (h w hw hpresent).trans (contains_of_subset (by simp) hc hv href)
  | essential => exact fun htrue => h (href htrue)

/-! ## After the last operator -/

theorem closedScope_none {property : String} {o' : Option Value}
    (h : closedScope property none = .ok o') : o' = none := by
  unfold closedScope at h
  split at h <;> exact (Except.ok.inj h).symm

theorem closedScope_of_not_arr {property : String} {w : Value} {o' : Option Value}
    (hw : ∀ items, w ≠ arr items) (h : closedScope property (some w) = .ok o') : o' = some w := by
  unfold closedScope at h
  split at h
  case isTrue =>
    split at h
    case h_1 items heq => exact absurd (Option.some.inj heq) (hw items)
    case h_2 => exact (Except.ok.inj h).symm
  case isFalse => exact (Except.ok.inj h).symm

/-- An array stays an array, or is the scope that has its values. -/
theorem closedScope_arr {property : String} {T : List Value} {o' : Option Value}
    (h : closedScope property (some (arr T)) = .ok o') :
    ∃ w a, o' = some w ∧ isNullOrUndefined w = false ∧ parameterValues property w = some a ∧
      parameterValues property (arr T) = some a ∧ (property ≠ "scope" → w = arr T) := by
  unfold closedScope at h
  split at h
  case isTrue hs =>
    dsimp only at h
    split at h
    case h_1 texts htexts =>
      cases h
      refine ⟨_, (texts.flatMap splitScope).map str, rfl, rfl, ?_, ?_, fun hne => absurd hs hne⟩
      · rw [parameterValues, if_pos hs, splitScope_intercalate]
      · rw [parameterValues, if_pos hs, htexts]
        rfl
    case h_2 => cases h
  case isFalse hs =>
    cases h
    exact ⟨arr T, T, rfl, rfl, by rw [parameterValues, if_neg hs], by
      rw [parameterValues, if_neg hs], fun _ => rfl⟩

/-- What is there in the end was there after the last operator. -/
theorem closedScope_some {property : String} {o : Option Value} {w : Value}
    (h : closedScope property o = .ok (some w)) :
    o = some w ∨ ∃ T, o = some (arr T) := by
  cases o with
  | none => cases closedScope_none h
  | some v =>
    cases v with
    | arr T => exact Or.inr ⟨T, rfl⟩
    | leaf l => exact Or.inl (closedScope_of_not_arr (fun _ heq => by cases heq) h).symm
    | obj members => exact Or.inl (closedScope_of_not_arr (fun _ heq => by cases heq) h).symm

theorem openedScope_eq_none {property : String} {o : Option Value} :
    openedScope property o = none ↔ o = none := by
  unfold openedScope
  split
  · split <;> simp
  · rfl

section Application

variable {path property : String} {C : Members} {o o₁ o' : Option Value}
    (stages : Stages path property C o o₁)
  (hC : ValidPolicy C) (hclose : closedScope property o₁ = .ok o')

include stages hC hclose

theorem satisfies_add {A : Value} (hadd : C.lookup add.key = some A) :
    Satisfies property add A o' := by
  obtain ⟨A, rfl, hA⟩ := arr_of_schema (hC.schema add A hadd) (by simp)
  obtain ⟨T, rfl, hsub⟩ := stages.add_subset hC hadd
  obtain ⟨w, a, rfl, -, hw, ha, -⟩ := closedScope_arr hclose
  obtain ⟨b, hb⟩ := parameterValues_isSome property hA
  exact ⟨w, rfl, a, b, hw, hb, parameterValues_subset hsub hb ha⟩

theorem satisfies_oneOf {v : Value} (honeOf : C.lookup oneOf.key = some v) :
    Satisfies property oneOf v o' := by
  obtain ⟨items, rfl, -⟩ := arr_of_schema (hC.schema oneOf v honeOf) (by simp)
  rintro w rfl hpresent
  obtain rfl | ⟨T, rfl⟩ := closedScope_some hclose
  · exact mem_of_includes (stages.mem_oneOf hC honeOf rfl hpresent)
  · obtain ⟨x, -, heq⟩ := List.any_eq_true.mp (stages.mem_oneOf hC honeOf rfl rfl)
    cases heq

theorem satisfies_subsetOf {v : Value} (hsubset : C.lookup subsetOf.key = some v) :
    Satisfies property subsetOf v o' := by
  obtain ⟨S, rfl, hS⟩ := arr_of_schema (hC.schema subsetOf v hsubset) (by simp)
  rintro w rfl hpresent
  have hT : ∃ T, o₁ = some (arr T) ∧ T ⊆ S := by
    obtain rfl | ⟨T, rfl⟩ := closedScope_some hclose
    · obtain ⟨T, rfl, hsub⟩ := stages.subset_subsetOf hC hsubset rfl hpresent
      exact ⟨T, rfl, hsub⟩
    · obtain ⟨T', heq, hsub⟩ := stages.subset_subsetOf hC hsubset rfl rfl
      cases heq
      exact ⟨T, rfl, hsub⟩
  obtain ⟨T, rfl, hsub⟩ := hT
  obtain ⟨w', a, heq, -, hw, ha, -⟩ := closedScope_arr hclose
  cases heq
  obtain ⟨b, hb⟩ := parameterValues_isSome property hS
  exact ⟨b, a, hb, hw, parameterValues_subset hsub ha hb⟩

theorem satisfies_supersetOf {v : Value} (hsuperset : C.lookup supersetOf.key = some v) :
    Satisfies property supersetOf v o' := by
  obtain ⟨S, rfl, hS⟩ := arr_of_schema (hC.schema supersetOf v hsuperset) (by simp)
  rintro w rfl hpresent
  have hT : ∃ T, o₁ = some (arr T) ∧ S ⊆ T := by
    obtain rfl | ⟨T, rfl⟩ := closedScope_some hclose
    · obtain ⟨T, rfl, hsub⟩ := stages.supersetOf_subset hC hsuperset rfl hpresent
      exact ⟨T, rfl, hsub⟩
    · obtain ⟨T', heq, hsub⟩ := stages.supersetOf_subset hC hsuperset rfl rfl
      cases heq
      exact ⟨T, rfl, hsub⟩
  obtain ⟨T, rfl, hsub⟩ := hT
  obtain ⟨w', a, heq, -, hw, ha, -⟩ := closedScope_arr hclose
  cases heq
  obtain ⟨b, hb⟩ := parameterValues_isSome property hS
  exact ⟨a, b, hw, hb, parameterValues_subset hsub hb ha⟩

/-- An essential parameter is there, unless the inherited member stands in its place. -/
theorem satisfies_essential {v : Value} (hessential : C.lookup essential.key = some v)
    (hinherited : ¬(isInherited property ∧ o = none ∧ C.lookup value.key = none)) :
    Satisfies property essential v o' := by
  rintro rfl
  have hread := (applyIf_essential stages.essential).2 hessential
  cases o₁ with
  | none => exact absurd (stages.none_of_essential hC hessential rfl) hinherited
  | some w =>
    cases w with
    | arr T =>
      obtain ⟨w, a, rfl, hpresent, -⟩ := closedScope_arr hclose
      exact ⟨w, rfl, hpresent⟩
    | leaf l => exact ⟨leaf l, closedScope_of_not_arr (fun _ heq => by cases heq) hclose, hread⟩
    | obj members =>
        exact ⟨obj members, closedScope_of_not_arr (fun _ heq => by cases heq) hclose, hread⟩

theorem satisfies_value {v : Value} (hvalue : C.lookup value.key = some v)
    (hremoved : v = null → C.lookup add.key = none)
    (hrepeated : ∀ X, v = arr X → property ≠ "scope" → C.lookup add.key ≠ none → NoRepeats X) :
    Satisfies property value v o' := by
  by_cases hnull : v = null
  · subst hnull
    rw [stages.eq_none_of_null hC hvalue (hremoved rfl)] at hclose
    rw [closedScope_none hclose]
    rintro ⟨w, hw, -⟩
    cases hw
  · rw [satisfies_value_iff hnull]
    by_cases harr : ∃ X, v = arr X
    · obtain ⟨X, rfl⟩ := harr
      obtain ⟨T, rfl, hmem, hnone, hsome⟩ := stages.eq_of_arr hC hvalue
      obtain ⟨w, a, rfl, -, hw, ha, hnot⟩ := closedScope_arr hclose
      refine ⟨w, rfl, ?_⟩
      by_cases hs : property = "scope"
      · have hXT : X ⊆ T := fun x hx => (hmem x).mpr hx
        have hTX : T ⊆ X := fun x hx => (hmem x).mp hx
        obtain ⟨b, hb⟩ := parameterValues_of_subset hXT ha
        exact Or.inr ⟨hs, ⟨a, b, hw, hb, parameterValues_subset hXT hb ha⟩,
          ⟨b, a, hb, hw, parameterValues_subset hTX ha hb⟩⟩
      · refine Or.inl ((hnot hs).trans (congrArg arr ?_))
        by_cases hadd : C.lookup add.key = none
        · exact hnone hadd
        · exact (hsome hadd).2 (hrepeated X rfl hs hadd)
    · have hne : ∀ X, v ≠ arr X := fun X heq => harr ⟨X, heq⟩
      have hvalues := stages.eq_of_value hC hvalue hnull hne
      unfold scopeValue at hvalues
      split at hvalues
      case h_2 =>
        subst hvalues
        exact ⟨v, closedScope_of_not_arr hne hclose, Or.inl rfl⟩
      case h_1 scope =>
        split at hvalues
        case isFalse =>
          subst hvalues
          exact ⟨str scope, closedScope_of_not_arr (fun _ heq => by cases heq) hclose, Or.inl rfl⟩
        case isTrue hs =>
          subst hvalues
          obtain rfl : property = "scope" := of_decide_eq_true hs
          obtain ⟨w, a, rfl, -, hw, ha, -⟩ := closedScope_arr hclose
          rw [parameterValues_tokens] at ha
          rw [← ha] at hw
          exact ⟨w, rfl, Or.inr ⟨rfl, ⟨_, _, hw, parameterValues_scope scope, List.Subset.refl _⟩,
            ⟨_, _, parameterValues_scope scope, hw, List.Subset.refl _⟩⟩⟩

end Application

/-! ## The policies of a chain -/

/-- One policy removes the parameter, and one adds values to it. -/
def RemovedAndAdded (policies : List Members) : Prop :=
  (∃ rules ∈ policies, rules.lookup value.key = some null) ∧
  ∃ rules ∈ policies, rules.lookup add.key ≠ none

/-- One policy gives a list with a value that it has twice, and one adds values to it. -/
def RepeatedAndAdded (property : String) (policies : List Members) : Prop :=
  property ≠ "scope" ∧
  (∃ rules ∈ policies, ∃ X, rules.lookup value.key = some (arr X) ∧ ¬NoRepeats X) ∧
    ∃ rules ∈ policies, rules.lookup add.key ≠ none

/-- The parameter is essential, nothing gives a value for it, and every object inherits a member of
its name. -/
def InheritedEssential (property : String) (policies : List Members) (own : Option Value) : Prop :=
  isInherited property ∧ own = none ∧ (∀ rules ∈ policies, rules.lookup value.key = none) ∧
    ∃ rules ∈ policies, rules.lookup essential.key = some (Value.bool true)

/-- A parameter satisfies all operators of all policies. -/
def SatisfiesAll (property : String) (policies : List Members) (own : Option Value) : Prop :=
  ∀ rules ∈ policies, ∀ (op : Operator) v, rules.lookup op.key = some v →
  Satisfies property op v own

theorem present_of_contains {property : String} {w v : Value} (h : Contains property w v) :
    isNullOrUndefined w = false := by
  obtain ⟨a, -, ha, -⟩ := h
  unfold parameterValues at ha
  split at ha
  · split at ha
    · rfl
    · rfl
    · cases ha
  · split at ha
    · rfl
    · cases ha

theorem not_removedAndAdded {property : String} {policies : List Members} {own : Option Value}
    (h : SatisfiesAll property policies own) : ¬RemovedAndAdded policies := by
  rintro ⟨⟨rules, hrules, hnull⟩, ⟨rules', hrules', hadd⟩⟩
  obtain ⟨A, hA⟩ := Option.ne_none_iff_exists'.mp hadd
  obtain ⟨w, hw, hcontains⟩ := h rules' hrules' add A hA
  exact h rules hrules value null hnull ⟨w, hw, present_of_contains hcontains⟩

section Combination

variable {path property : String} {policies : List Members} {C : Members} {o o₁ o' : Option Value}
  (stages : Stages path property C o o₁) (hC : ValidPolicy C)
  (hclose : closedScope property o₁ = .ok o')
  (hmerge : ∀ op : Operator, Merges op policies (C.lookup op.key))

include stages hC hclose hmerge

theorem not_repeatedAndAdded (h : SatisfiesAll property policies o') :
    ¬RepeatedAndAdded property policies := by
  rintro ⟨hs, ⟨rules, hrules, X, hX, hrepeats⟩, ⟨rules', hrules', hadd⟩⟩
  obtain ⟨A, hA⟩ := Option.ne_none_iff_exists'.mp hadd
  obtain ⟨c, hc, rfl⟩ := (hmerge value).of_mem hrules hX
  obtain ⟨A', hA', -⟩ := (hmerge add).of_mem hrules' hA
  obtain ⟨T, rfl, -, -, hsome⟩ := stages.eq_of_arr hC hc
  obtain ⟨w, a, rfl, -, -, -, hnot⟩ := closedScope_arr hclose
  have hne : arr X ≠ null := by rintro ⟨⟩
  obtain ⟨w', heq, hsame | ⟨hscope, -⟩⟩ :=
    (satisfies_value_iff hne).mp (h rules hrules value (arr X) hX)
  · rw [Option.some.inj heq.symm, hnot hs] at hsame
    cases hsame
    exact hrepeats (hsome (by rw [hA']; exact nofun)).1
  · exact hs hscope

theorem not_inheritedEssential (h : SatisfiesAll property policies o') :
    ¬InheritedEssential property policies o := by
  rintro ⟨hinherited, hown, hvalue, ⟨rules, hrules, hessential⟩⟩
  have hnone : C.lookup value.key = none := by
    cases hc : C.lookup value.key with
    | none => rfl
    | some c =>
      have hop := hmerge value
      rw [hc] at hop
      obtain ⟨rules', hrules', v, hv, -⟩ := hop.exists_of_some
      rw [hvalue rules' hrules'] at hv
      cases hv
  have ho' : o' = none := by
    rw [stages.none_of_inherited hC hinherited hown hnone] at hclose
    exact closedScope_none hclose
  obtain ⟨w, hw, -⟩ := h rules hrules essential _ hessential rfl
  rw [ho'] at hw
  cases hw

/-- Policies of no such kind are satisfied. -/
theorem satisfiesAll_of_not
    (hschema : ∀ rules ∈ policies, ∀ (op : Operator) v, rules.lookup op.key = some v →
      op.operatorSchema v)
    (hremoved : ¬RemovedAndAdded policies) (hrepeated : ¬RepeatedAndAdded property policies)
    (hinherited : ¬InheritedEssential property policies o) : SatisfiesAll property policies o' := by
  have hadded : C.lookup add.key ≠ none → ∃ rules ∈ policies, rules.lookup add.key ≠ none := by
    intro hne
    obtain ⟨A, hA⟩ := Option.ne_none_iff_exists'.mp hne
    have hop := hmerge add
    rw [hA] at hop
    exact hop.1
  have hgiven : ∀ c, C.lookup value.key = some c →
      ∃ rules ∈ policies, rules.lookup value.key = some c := by
    intro c hc
    have hop := hmerge value
    rw [hc] at hop
    obtain ⟨rules, hrules, v, hv, rfl⟩ := hop.exists_of_some
    exact ⟨rules, hrules, hv⟩
  intro rules hrules op v hv
  obtain ⟨c, hc, href⟩ := (hmerge op).of_mem hrules hv
  have hstrict := @Satisfies.of_refines property op c v o' (hC.schema op c hc)
    (hschema rules hrules op v hv) href
  cases op with
  | default => trivial
  | add => exact hstrict (satisfies_add stages hC hclose hc)
  | oneOf => exact hstrict (satisfies_oneOf stages hC hclose hc)
  | subsetOf => exact hstrict (satisfies_subsetOf stages hC hclose hc)
  | supersetOf => exact hstrict (satisfies_supersetOf stages hC hclose hc)
  | essential =>
    rintro rfl
    obtain rfl : c = Value.bool true := href rfl
    refine satisfies_essential stages hC hclose hc ?_ rfl
    rintro ⟨hname, hown, hnone⟩
    have hop := hmerge value
    rw [hnone] at hop
    exact hinherited ⟨hname, hown, hop, rules, hrules, hv⟩
  | value =>
    refine hstrict (satisfies_value stages hC hclose hc (fun hnull => ?_) fun X hX hs hadd => ?_)
    · by_contra hadd
      exact hremoved ⟨hnull ▸ hgiven c hc, hadded hadd⟩
    · by_contra hrepeats
      obtain ⟨rules', hrules', hv'⟩ := hgiven c hc
      exact hrepeated ⟨hs, ⟨rules', hrules', X, hX ▸ hv', hrepeats⟩, hadded hadd⟩

end Combination

/-- The metadata satisfies every operator of every policy, unless the policies are of these
kinds. -/
theorem metadata_satisfies_policies {statements : List PolicyStatement}
    {leafMetadata mergedPolicy resolved : Metadata}
    (hcombine : combineMetadataPolicies statements = .ok mergedPolicy)
    (happly : applyMetadataPolicyToMetadata leafMetadata mergedPolicy = .ok resolved)
    {service : String} (hservice : HasService service leafMetadata) (property : String) :
    (∀ statement ∈ statements, ∀ rules, statement.rules service property = some rules →
        ∀ (op : Operator) v, rules.lookup op.key = some v →
          Satisfies property op v (own resolved service property)) ↔
      ¬RemovedAndAdded (policiesOf statements service property) ∧
      ¬RepeatedAndAdded property (policiesOf statements service property) ∧
      ¬InheritedEssential property (policiesOf statements service property)
        (own leafMetadata service property) := by
  have hall : (∀ statement ∈ statements, ∀ rules, statement.rules service property = some rules →
      ∀ (op : Operator) v, rules.lookup op.key = some v →
        Satisfies property op v (own resolved service property)) ↔
      SatisfiesAll property (policiesOf statements service property)
        (own resolved service property) := by
    constructor
    · intro h rules hrules
      obtain ⟨statement, hstatement, hr⟩ := mem_policiesOf.mp hrules
      exact h statement hstatement rules hr
    · exact fun h statement hstatement rules hr => h rules
        (mem_policiesOf.mpr ⟨statement, hstatement, hr⟩)
  rw [hall]
  have hcombined := combineMetadataPolicies_combined hcombine service property
  have hschema : ∀ rules ∈ policiesOf statements service property, ∀ (op : Operator) v,
      rules.lookup op.key = some v → op.operatorSchema v := by
    intro rules hrules op v hv
    obtain ⟨statement, -, hr⟩ := mem_policiesOf.mp hrules
    obtain ⟨block, hblock, hrules'⟩ := Option.bind_eq_some_iff.mp hr
    obtain ⟨policy, hpolicy, hblock'⟩ := Option.bind_eq_some_iff.mp hblock
    have hvalid := ((statement.valid policy hpolicy).2 _ (mem_of_lookup hblock')).2 _
      (mem_of_lookup hrules')
    exact (zMetadataPolicy_eq_ok hvalid.2).schema op v hv
  cases hpolicy : own mergedPolicy service property with
  | none =>
    rw [hpolicy] at hcombined
    rw [show policiesOf statements service property = [] from hcombined]
    refine iff_of_true (fun rules hrules => by cases hrules) ⟨?_, ?_, ?_⟩
    · rintro ⟨⟨rules, hrules, -⟩, -⟩
      cases hrules
    · rintro ⟨-, ⟨rules, hrules, -⟩, -⟩
      cases hrules
    · rintro ⟨-, -, -, rules, hrules, -⟩
      cases hrules
  | some c =>
    rw [hpolicy] at hcombined
    obtain ⟨C, rfl, hn, hz, hmerge⟩ := hcombined
    have hC := zMetadataPolicy_eq_ok hz
    obtain ⟨o, ho⟩ := parameter_ne_none property hservice
    obtain ⟨o₁, o', hrun, hclose, hresolved⟩ :=
      applyMetadata_parameter (combineMetadataPolicies_keysDistinct hcombine) hn hpolicy ho happly
    obtain ⟨stages⟩ := exists_stages hC hrun
    rw [own_eq, hresolved, own_eq, ho, Option.join_some, Option.join_some]
    have hopened : InheritedEssential property (policiesOf statements service property)
        (openedScope property o) ↔
        InheritedEssential property (policiesOf statements service property) o := by
      rw [InheritedEssential, InheritedEssential, openedScope_eq_none]
    rw [← hopened]
    constructor
    · exact fun h => ⟨not_removedAndAdded h, not_repeatedAndAdded stages hC hclose hmerge h,
        not_inheritedEssential stages hC hclose hmerge h⟩
    · exact fun ⟨hremoved, hrepeated, hinherited⟩ =>
        satisfiesAll_of_not stages hC hclose hmerge hschema hremoved hrepeated hinherited

/-- A statement with a policy for one parameter. -/
def statementOf (service property : String) (rules : Members) (hn : (keys rules).Nodup)
    (h : zMetadataPolicy rules = .ok ()) : PolicyStatement where
  metadataPolicy := some [(service, [(property, rules)])]
  metadataPolicyCrit := none
  valid := by
    rintro policy ⟨⟩
    refine ⟨List.nodup_singleton _, List.forall_mem_singleton.mpr ⟨List.nodup_singleton _, ?_⟩⟩
    exact List.forall_mem_singleton.mpr ⟨hn, h⟩

def allowedGrants : PolicyStatement :=
  statementOf "openid_relying_party" "grant_types"
    [("subset_of", arr [str "implicit", str "authorization_code", str "refresh_token"])]
      (by decide) rfl

def requiredGrants : PolicyStatement :=
  statementOf "openid_relying_party" "grant_types"
    [("add", arr [str "refresh_token"]),
      ("subset_of", arr [str "authorization_code", str "refresh_token"]),
      ("essential", Value.bool true)] (by decide) rfl

def combinedGrants : Members :=
  [("subset_of", arr [str "authorization_code", str "refresh_token"]),
    ("add", arr [str "refresh_token"]), ("essential", Value.bool true)]

def leafGrants : Metadata :=
  [("openid_relying_party", [("grant_types", arr [str "implicit", str "authorization_code"])])]

def resolvedGrants : Metadata :=
  [("openid_relying_party", [("grant_types", arr [str "authorization_code", str "refresh_token"])])]

theorem grants_satisfied :
    SatisfiesAll "grant_types"
      (policiesOf [requiredGrants, allowedGrants] "openid_relying_party" "grant_types")
      (own resolvedGrants "openid_relying_party" "grant_types") := by
  have hsorted : sortedPolicies combinedGrants = policiesInOrder combinedGrants :=
    sortedPolicies_eq (by decide)
  have happly : applyMetadataPolicyToMetadata leafGrants
      [("openid_relying_party", [("grant_types", obj combinedGrants)])] = .ok resolvedGrants := by
    simp only [applyMetadataPolicyToMetadata, List.foldlM_cons, List.foldlM_nil, applyService,
      applyProperty, spread, hsorted]
    rfl
  have hservice : HasService "openid_relying_party" leafGrants := rfl
  intro rules hrules
  obtain ⟨statement, hstatement, hr⟩ := mem_policiesOf.mp hrules
  refine (@metadata_satisfies_policies [requiredGrants, allowedGrants] _ _ _ rfl happly _ hservice
    "grant_types").mpr ?_ statement hstatement rules hr
  have hpolicies : policiesOf [requiredGrants, allowedGrants] "openid_relying_party" "grant_types" =
      [[("add", arr [str "refresh_token"]),
        ("subset_of", arr [str "authorization_code", str "refresh_token"]),
        ("essential", Value.bool true)],
        [("subset_of", arr [str "implicit", str "authorization_code", str "refresh_token"])]] := rfl
  have hvalue : ∀ rules ∈ policiesOf
      [requiredGrants, allowedGrants] "openid_relying_party" "grant_types",
      rules.lookup value.key = none := by
    rw [hpolicies]
    exact List.forall_mem_cons.mpr ⟨rfl, List.forall_mem_singleton.mpr rfl⟩
  refine ⟨?_, ?_, ?_⟩
  · rintro ⟨⟨rules, hrules, hnull⟩, -⟩
    rw [hvalue rules hrules] at hnull
    cases hnull
  · rintro ⟨-, ⟨rules, hrules, X, hX, -⟩, -⟩
    rw [hvalue rules hrules] at hX
    cases hX
  · rintro ⟨hinherited, -⟩
    cases hinherited

def contactsRemoved : PolicyStatement :=
  statementOf "openid_relying_party" "contacts" [("value", null)] (by decide) rfl

def emptyAddition : PolicyStatement :=
  statementOf "openid_relying_party" "contacts" [("add", arr [])] (by decide) rfl

/-- The trust anchor removes a parameter, and it is there after an `add` of no values. -/
theorem emptyAddition_present :
    ∃ mergedPolicy resolved, combineMetadataPolicies [emptyAddition, contactsRemoved] =
      .ok mergedPolicy ∧
      applyMetadataPolicyToMetadata [("openid_relying_party",
        [("contacts", arr [str "ops@example.org"])])] mergedPolicy =
        .ok resolved ∧
      contactsRemoved.rules "openid_relying_party" "contacts" = some [("value", null)] ∧
      ¬Satisfies "contacts" value null (own resolved "openid_relying_party" "contacts") := by
  refine ⟨[("openid_relying_party", [("contacts", obj [("value", null), ("add", arr [])])])],
    [("openid_relying_party", [("contacts", arr [])])], rfl, ?_, rfl, ?_⟩
  · have hsorted : sortedPolicies [("value", null), ("add", arr [])] =
        policiesInOrder [("value", null), ("add", arr [])] :=
      sortedPolicies_eq (by decide)
    simp only [applyMetadataPolicyToMetadata, List.foldlM_cons, List.foldlM_nil, applyService,
      applyProperty, spread, hsorted]
    rfl
  · exact fun h => h ⟨arr [], rfl, rfl⟩

end IdentityCommon.OpenidFederation
