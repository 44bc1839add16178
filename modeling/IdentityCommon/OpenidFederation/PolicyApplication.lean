import IdentityCommon.OpenidFederation.PolicyMerge

/-!
# Application of a policy to a parameter

What the policy of a parameter does to its value: the operators one after the other, from the first
to the last in their order of application.

## Main definitions

- `ValidPolicy` — what the schema of a policy ensures
- `applyTo`, `applyIf` — what an operator does to a parameter

## Main results

- `sortedPolicies_eq` — the order in which operators are applied
- `applyMetadata_parameter` — applying the combined policy applies the operators to each parameter
-/

namespace IdentityCommon.OpenidFederation

open IdentityCommon.Except AssocList Ecma Value KeyedFold Operator

/-! ## What the schema ensures -/

/-- What the schema of a policy says about the operators that it has. -/
structure ValidPolicy (C : Members) : Prop where
  schema : ∀ (op : Operator) v, C.lookup op.key = some v → op.operatorSchema v
  oneOf_alone : C.lookup oneOf.key ≠ none →
    C.lookup add.key = none ∧ C.lookup subsetOf.key = none ∧ C.lookup supersetOf.key = none
  null_default : C.lookup value.key = some null → C.lookup default.key = none
  null_essential : C.lookup value.key = some null → C.lookup essential.key ≠ some (Value.bool true)
  null_oneOf : C.lookup value.key = some null → C.lookup oneOf.key = none
  add_value : ∀ v A, C.lookup value.key = some v → C.lookup add.key = some (arr A) →
    ∃ X, nullAsEmpty v = arr X ∧ ∀ x ∈ A, includes X x
  value_subsetOf : ∀ v S, C.lookup value.key = some v → C.lookup subsetOf.key = some (arr S) →
    ∃ X, nullAsEmpty v = arr X ∧ ∀ x ∈ X, includes S x
  add_subsetOf : ∀ A S, C.lookup add.key = some (arr A) → C.lookup subsetOf.key = some (arr S) →
    ∀ x ∈ A, includes S x

theorem arr_of_isSubset {v w : Option Value} (h : isSubset v w) :
    ∃ X S, v = some (arr X) ∧ w = some (arr S) ∧ ∀ x ∈ X, includes S x := by
  unfold isSubset at h
  split at h
  case h_1 X S => exact ⟨X, S, rfl, rfl, fun x hx => List.all_eq_true.mp h x hx⟩
  case h_2 => cases h

theorem nil_of_ite {c : Bool} {message : String} (h : (if c then [message] else []) = []) :
    c = false := by
  cases c with
  | false => rfl
  | true => cases h

/-- The conditions on a policy with a value. -/
theorem conditions_of_value {C : Members} {v : Value} (h : conditionalCombinationErrors C = [])
    (hv : C.lookup value.key = some v) :
    (isNull v && (C.lookup default.key).isSome) = false ∧
      (isNull v && (match C.lookup essential.key with
        | some (Value.bool true) => true
        | _ => false)) = false ∧
      ((C.lookup add.key).isSome && !isSubset (C.lookup add.key) (some (nullAsEmpty v))) = false ∧
      ((C.lookup oneOf.key).isSome && !(match C.lookup oneOf.key, some v with
        | some (arr items), some v' => !isNull v && includes items v'
        | _, _ => false)) = false ∧
      ((C.lookup subsetOf.key).isSome && !isSubset (some (nullAsEmpty v)) (C.lookup subsetOf.key)) =
        false := by
  simp only [conditionalCombinationErrors, hv, Option.isSome_some, if_true, Option.map_some,
    Option.any_some, List.append_eq_nil_iff] at h
  obtain ⟨⟨⟨⟨⟨⟨⟨hdefault, hessential⟩, hadd⟩, honeOf⟩, hsubset⟩, -⟩, -⟩, -⟩ := h
  exact ⟨nil_of_ite hdefault, nil_of_ite hessential, nil_of_ite hadd, nil_of_ite honeOf,
    nil_of_ite hsubset⟩

/-- Operators that are there can be combined. -/
theorem combinationIssues_nil {C : Members} {op op' : Operator}
    (h : combinationIssues C op.key = .ok []) (hop' : op'.key ∈ keys C) (hne : op' ≠ op) :
    op'.key ∈ op.canBeCombinedWith := by
  rw [combinationIssues, isExistingPolicyKey, ofKey_key] at h
  simp only [Option.isSome_some, Bool.true_or, Bool.not_true, Bool.false_eq_true, if_false] at h
  split at h
  case isTrue => cases h
  case isFalse hany =>
    by_contra hcombined
    refine hany (List.any_eq_true.mpr ⟨op'.key, hop',
      decide_eq_true ⟨fun heq => hne (key_injective heq), ?_, hcombined⟩⟩)
    rw [isExistingPolicyKey, ofKey_key]
    rfl

theorem zMetadataPolicy_eq_ok {C : Members} (h : zMetadataPolicy C = .ok ()) : ValidPolicy C := by
  rw [zMetadataPolicy] at h
  split at h
  case isTrue => cases h
  case isFalse hschema =>
    obtain ⟨issues, hissues, h⟩ := bind_eq_ok.mp h
    dsimp only at h
    split at h
    case isFalse => cases h
    case isTrue hmessages =>
      rw [List.append_eq_nil_iff, List.flatten_eq_nil_iff] at hmessages
      obtain ⟨hissue, hconditions⟩ := hmessages
      have halone : ∀ op ∈ [add, subsetOf, supersetOf], C.lookup oneOf.key ≠ none →
          C.lookup op.key = none := by
        intro op hop honeOf
        by_contra hne
        have hmem : oneOf.key ∈ keys C := by
          by_contra hk
          exact honeOf (lookup_eq_none_iff.mpr hk)
        have hmem' : op.key ∈ keys C := by
          by_contra hk
          exact hne (lookup_eq_none_iff.mpr hk)
        obtain ⟨issue, hmemIssue, hok⟩ := exists_of_forall₂ (mapM_eq_ok.mp hissues) hmem
        rw [hissue issue hmemIssue] at hok
        have hcombined := combinationIssues_nil hok hmem' (by rintro rfl; simp at hop)
        revert hcombined
        simp only [List.mem_cons, List.not_mem_nil, or_false] at hop
        rcases hop with rfl | rfl | rfl <;> decide
      refine ⟨fun op v hv => ?_,
        fun honeOf => ⟨halone _ (by simp) honeOf, halone _ (by simp) honeOf,
          halone _ (by simp) honeOf⟩, fun hnull => ?_, fun hnull hess => ?_, fun hnull => ?_,
            fun v A hv hA => ?_,
        fun v S hv hS => ?_, fun A S hA hS => ?_⟩
      · by_contra hne
        refine hschema (List.any_eq_true.mpr ⟨op, by cases op <;> decide, ?_⟩)
        rw [hv]
        simpa using hne
      · simpa [isNull] using (conditions_of_value hconditions hnull).1
      · have hcondition := (conditions_of_value hconditions hnull).2.1
        rw [hess] at hcondition
        cases hcondition
      · have hcondition := (conditions_of_value hconditions hnull).2.2.2.1
        cases honeOf : C.lookup oneOf.key with
        | none => rfl
        | some w =>
          rw [honeOf] at hcondition
          split at hcondition
          · cases hcondition
          · cases hcondition
      · have hcondition := (conditions_of_value hconditions hv).2.2.1
        rw [hA, Option.isSome_some, Bool.true_and, Bool.not_eq_false'] at hcondition
        obtain ⟨X, S, hX, hS, hmem⟩ := arr_of_isSubset hcondition
        cases hX
        exact ⟨S, Option.some.inj hS, hmem⟩
      · have hcondition := (conditions_of_value hconditions hv).2.2.2.2
        rw [hS, Option.isSome_some, Bool.true_and, Bool.not_eq_false'] at hcondition
        obtain ⟨X, S', hX, hS', hmem⟩ := arr_of_isSubset hcondition
        cases hS'
        exact ⟨X, Option.some.inj hX, hmem⟩
      · simp only [conditionalCombinationErrors, hA, hS, List.append_eq_nil_iff] at hconditions
        obtain ⟨⟨-, hcondition⟩, -⟩ := hconditions
        have hsubset := nil_of_ite hcondition
        rw [Option.isSome_some, Option.isSome_some, Bool.true_and, Bool.true_and,
          Bool.not_eq_false'] at hsubset
        obtain ⟨X, S', hX, hS', hmem⟩ := arr_of_isSubset hsubset
        cases hX
        cases hS'
        exact hmem

/-! ## The order of application -/

def operatorsInOrder : List Operator :=
  [value, add, default, oneOf, subsetOf, supersetOf, essential]

/-- The operators of a policy, in their order of application. -/
def policiesInOrder (C : Members) : List (Operator × Value) :=
  operatorsInOrder.filterMap fun op => (C.lookup op.key).map (op, ·)

theorem mem_policiesInOrder {C : Members} {op : Operator} {v : Value} :
    (op, v) ∈ policiesInOrder C ↔ C.lookup op.key = some v := by
  rw [policiesInOrder, List.mem_filterMap]
  constructor
  · rintro ⟨op', -, h⟩
    obtain ⟨w, hw, heq⟩ := Option.map_eq_some_iff.mp h
    cases heq
    exact hw
  · intro h
    exact ⟨op, by cases op <;> decide, by rw [h]; rfl⟩

/-- The operators that are known, before they are sorted. -/
def knownPolicies (C : Members) : List (Operator × Value) :=
  C.filterMap fun rule => (ofKey rule.1).map (·, rule.2)

theorem mem_knownPolicies {C : Members} (hn : (keys C).Nodup) {op : Operator} {v : Value} :
    (op, v) ∈ knownPolicies C ↔ C.lookup op.key = some v := by
  rw [knownPolicies, List.mem_filterMap, ← mem_iff_lookup hn]
  constructor
  · rintro ⟨rule, hrule, h⟩
    obtain ⟨op', hop', heq⟩ := Option.map_eq_some_iff.mp h
    cases heq
    rwa [ofKey_eq_some.mp hop']
  · intro h
    exact ⟨_, h, by rw [ofKey_key]; rfl⟩

theorem nodup_knownPolicies {C : Members} (hn : (keys C).Nodup) : (knownPolicies C).Nodup := by
  refine List.Nodup.filterMap (fun rule rule' policy h h' => ?_) (List.Nodup.of_map _ hn)
  obtain ⟨op, hop, heq⟩ := Option.map_eq_some_iff.mp h
  obtain ⟨op', hop', heq'⟩ := Option.map_eq_some_iff.mp h'
  obtain ⟨hopEq, hvalue⟩ := Prod.mk.inj (heq.trans heq'.symm)
  refine Prod.ext ?_ hvalue
  rw [← ofKey_eq_some.mp hop, ← ofKey_eq_some.mp hop', hopEq]

theorem orderOfApplication_injective : Function.Injective orderOfApplication := by
  intro op op' h
  cases op <;> cases op' <;> first | rfl | cases h

theorem pairwise_policiesInOrder (C : Members) :
    (policiesInOrder C).Pairwise fun a b => a.1.orderOfApplication < b.1.orderOfApplication := by
  refine List.Pairwise.filterMap _ (fun op op' hlt a ha b hb => ?_)
    (show operatorsInOrder.Pairwise fun op op' => op.orderOfApplication <
      op'.orderOfApplication by decide)
  obtain ⟨v, -, rfl⟩ := Option.map_eq_some_iff.mp ha
  obtain ⟨w, -, rfl⟩ := Option.map_eq_some_iff.mp hb
  exact hlt

theorem sortedPolicies_eq {C : Members} (hn : (keys C).Nodup) :
    sortedPolicies C = policiesInOrder C := by
  have hperm : (sortedPolicies C).Perm (knownPolicies C) := List.mergeSort_perm _ _
  have hnodup : (policiesInOrder C).Nodup := (pairwise_policiesInOrder C).imp fun hlt heq => by
    rw [heq] at hlt
    exact lt_irrefl _ hlt
  have hmem : ∀ a : Operator × Value, a ∈ knownPolicies C ↔ a ∈ policiesInOrder C := fun (op, v) =>
    (mem_knownPolicies hn).trans mem_policiesInOrder.symm
  have hperm' : (sortedPolicies C).Perm (policiesInOrder C) :=
    hperm.trans ((List.perm_ext_iff_of_nodup (nodup_knownPolicies hn) hnodup).mpr hmem)
  have hsorted : (sortedPolicies C).Pairwise fun a b => a.1.orderOfApplication ≤
      b.1.orderOfApplication := by
    have h := @List.pairwise_mergeSort _ (fun a b : Operator × Value =>
      decide (a.1.orderOfApplication ≤ b.1.orderOfApplication)) (fun a b c hab hbc => by
        simp only [decide_eq_true_eq] at hab hbc ⊢
        exact hab.trans hbc) (fun a b => by
        simp only [Bool.or_eq_true, decide_eq_true_eq]
        exact Nat.le_total _ _) (knownPolicies C)
    exact h.imp of_decide_eq_true
  refine List.Perm.eq_of_pairwise (fun a b ha hb hab hba => ?_) hsorted
    ((pairwise_policiesInOrder C).imp le_of_lt) hperm'
  obtain ⟨op, v⟩ := a
  obtain ⟨op', w⟩ := b
  cases orderOfApplication_injective (le_antisymm hab hba)
  have hv := mem_policiesInOrder.mp (hperm'.mem_iff.mp ha)
  have hw := mem_policiesInOrder.mp hb
  rw [Option.some.inj (hv.symm.trans hw)]

/-! ## One parameter -/

/-- The own member of an entity type, if the entity type is there. -/
def parameter (metadata : Metadata) (service property : String) : Option (Option Value) :=
  (metadata.lookup service).map (List.lookup property)

/-- The own member or the inherited one. -/
def read (property : String) (own : Option Value) : Value := own.getD (inherited property)

def Action.result (own : Option Value) : Action → Option Value
  | .keep => own
  | .set v => some v
  | .delete => none

/-- What an operator does to a parameter. -/
def applyTo (path property : String) (own : Option Value) (policy : Operator × Value) :
    Except PolicyError (Option Value) := do
  let action ← operate path policy.1 (scopeValue (property = "scope") policy.2) (read property own)
  return action.result own

/-- What an operator does to a parameter, if the policy has it. -/
def applyIf (path property : String) (C : Members) (own : Option Value) (op : Operator) :
    Except PolicyError (Option Value) :=
  match C.lookup op.key with
  | some v => applyTo path property own (op, v)
  | none => .ok own

def openedScope (property : String) (own : Option Value) : Option Value :=
  if property = "scope" then
    match own with
    | some (str scope) => some (arr ((splitScope scope).map str))
    | _ => own
  else own

def closedScope (property : String) (own : Option Value) : Except PolicyError (Option Value) :=
  if property = "scope" then
    match own with
    | some (arr items) =>
      match itemTexts items with
      | some texts => .ok (some (str (" ".intercalate texts)))
      | none => .error .typeError
    | _ => .ok own
  else .ok own

theorem own_eq (metadata : Metadata) (service property : String) :
    own metadata service property = (parameter metadata service property).join := by
  rw [own, parameter]
  cases metadata.lookup service <;> rfl

theorem getPropertyValue_eq {metadata : Metadata} {service property : String} {o : Option Value}
    (h : parameter metadata service property = some o) :
    getPropertyValue metadata service property = read property o := by
  obtain ⟨block, hblock, rfl⟩ := Option.map_eq_some_iff.mp h
  rw [getPropertyValue, hblock]
  rfl

theorem parameter_setPropertyValue (metadata : Metadata) (service property s p : String) (v : Value)
    (h : parameter metadata s p ≠ none) :
    parameter (setPropertyValue metadata service property v) s p =
      if s = service ∧ p = property then some (some v) else parameter metadata s p := by
  rw [parameter, Ne, Option.map_eq_none_iff] at h
  obtain ⟨block, hblock⟩ := Option.ne_none_iff_exists'.mp h
  rw [parameter, parameter, setPropertyValue, lookup_insert]
  by_cases hs : s = service
  · subst hs
    rw [if_pos rfl, Option.map_some, lookup_insert, hblock]
    by_cases hp : p = property
    · rw [if_pos hp, if_pos ⟨rfl, hp⟩]
    · rw [if_neg hp, if_neg fun h => hp h.2]
      rfl
  · rw [if_neg hs, if_neg fun h => hs h.1]

theorem lookup_filter_ne {property p : String} {block : Members} :
    (block.filter (·.1 ≠ property)).lookup p = if p = property then none else block.lookup p := by
  induction block with
  | nil => simp
  | cons m block ih =>
    obtain ⟨k, v⟩ := m
    rw [List.filter_cons]
    by_cases hk : k = property
    · subst hk
      rw [if_neg (by simp), ih]
      by_cases hp : p = k
      · rw [if_pos hp, if_pos hp]
      · rw [if_neg hp, if_neg hp, lookup_cons_of_ne (Ne.symm hp)]
    · rw [if_pos (by simpa using hk)]
      by_cases hp : k = p
      · subst hp
        rw [lookup_cons_of_eq, lookup_cons_of_eq, if_neg hk]
      · rw [lookup_cons_of_ne hp, lookup_cons_of_ne hp, ih]

theorem parameter_deleteProperty (metadata : Metadata) (service property s p : String)
    (h : parameter metadata s p ≠ none) : parameter (deleteProperty metadata service property) s p =
      if s = service ∧ p = property then some none else parameter metadata s p := by
  rw [parameter, Ne, Option.map_eq_none_iff] at h
  obtain ⟨block, hblock⟩ := Option.ne_none_iff_exists'.mp h
  by_cases hs : s = service
  · subst hs
    rw [deleteProperty, hblock, parameter, lookup_insert, if_pos rfl, Option.map_some,
      lookup_filter_ne, parameter, hblock]
    by_cases hp : p = property
    · rw [if_pos hp, if_pos ⟨rfl, hp⟩]
    · rw [if_neg hp, if_neg fun h => hp h.2]
      rfl
  · rw [if_neg fun h => hs h.1, deleteProperty]
    split
    case h_1 => rw [parameter, lookup_insert, if_neg hs, parameter]
    case h_2 =>
      split
      case isTrue => rw [parameter, lookup_insert, if_neg hs, parameter]
      case isFalse => rfl

theorem parameter_perform (metadata : Metadata) (service property s p : String) (action : Action)
    {o : Option Value} (h : parameter metadata s p = some o) :
    parameter (perform metadata service property action) s p =
      some (if s = service ∧ p = property then action.result o else o) := by
  have hne : parameter metadata s p ≠ none := by rw [h]; exact nofun
  cases action with
  | keep =>
    rw [perform, h]
    split <;> rfl
  | set v =>
    rw [perform, parameter_setPropertyValue _ _ _ _ _ _ hne, h]
    split <;> rfl
  | delete =>
    rw [perform, parameter_deleteProperty _ _ _ _ _ hne, h]
    split <;> rfl

theorem applyOperator_parameter {service property : String} {policy : Operator × Value}
    {m m' : Metadata} {o : Option Value} (ho : parameter m service property = some o)
    (h : applyOperator service property m policy = .ok m') :
    ∃ o', applyTo (service ++ "." ++ property) property o policy = .ok o' ∧
    parameter m' service property = some o' := by
  obtain ⟨action, haction, h⟩ := bind_eq_ok.mp h
  cases h
  rw [getPropertyValue_eq ho] at haction
  refine ⟨action.result o, bind_eq_ok.mpr ⟨action, haction, rfl⟩, ?_⟩
  rw [parameter_perform _ _ _ _ _ _ ho, if_pos ⟨rfl, rfl⟩]

/-- The operators of the policy of a parameter. -/
theorem applyOperators_parameter {service property : String} {policies : List (Operator × Value)} :
    ∀ {m m' : Metadata} {o : Option Value}, parameter m service property = some o →
      policies.foldlM (applyOperator service property) m = .ok m' →
      ∃ o', policies.foldlM (applyTo (service ++ "." ++ property) property) o = .ok o' ∧
        parameter m' service property = some o' := by
  induction policies with
  | nil =>
    intro m m' o ho h
    cases h
    exact ⟨o, rfl, ho⟩
  | cons policy policies ih =>
    intro m m' o ho h
    rw [List.foldlM_cons] at h
    obtain ⟨m₁, hm₁, h⟩ := bind_eq_ok.mp h
    obtain ⟨o₁, ho₁, hp₁⟩ := applyOperator_parameter ho hm₁
    obtain ⟨o', ho', hp'⟩ := ih hp₁ h
    exact ⟨o', by rw [List.foldlM_cons, ho₁]; exact ho', hp'⟩

theorem not_str_inherited {property s : String} : inherited property ≠ str s := by
  intro h
  rw [inherited] at h
  split at h
  · cases h
  · split at h <;> cases h

theorem not_arr_inherited {property : String} {items : List Value} :
    inherited property ≠ arr items := by
  intro h
  rw [inherited] at h
  split at h
  · cases h
  · split at h <;> cases h

theorem openScope_parameter {service property : String} {m : Metadata} {o : Option Value}
    (ho : parameter m service property = some o) :
    parameter (openScope m service property) service property = some (openedScope property o) := by
  have hset : ∀ v, parameter (setPropertyValue m service property v) service property =
      some (some v) := fun v => by
    rw [parameter_setPropertyValue _ _ _ _ _ _ (by rw [ho]; exact nofun), if_pos ⟨rfl, rfl⟩]
  unfold openScope openedScope
  rw [getPropertyValue_eq ho]
  by_cases hs : property = "scope"
  · rw [decide_eq_true hs, if_pos hs]
    cases o with
    | none =>
      split
      case h_1 s heq => exact absurd heq not_str_inherited
      case h_2 => exact ho
    | some v =>
      rw [read, Option.getD_some]
      split
      case h_1 s => exact hset _
      case h_2 hne =>
        rw [ho]
        split
        case h_1 s heq =>
          cases heq
          exact absurd rfl (hne s rfl)
        case h_2 => rfl
  · rw [decide_eq_false hs, if_neg hs]
    exact ho

theorem closeScope_parameter {service property : String} {m m' : Metadata} {o : Option Value}
    (ho : parameter m service property = some o) (h : closeScope m service property = .ok m') :
    ∃ o', closedScope property o = .ok o' ∧ parameter m' service property = some o' := by
  have hset : ∀ v, parameter (setPropertyValue m service property v) service property =
      some (some v) := fun v => by
    rw [parameter_setPropertyValue _ _ _ _ _ _ (by rw [ho]; exact nofun), if_pos ⟨rfl, rfl⟩]
  unfold closeScope at h
  unfold closedScope
  rw [getPropertyValue_eq ho] at h
  by_cases hs : property = "scope"
  · rw [decide_eq_true hs] at h
    rw [if_pos hs]
    cases o with
    | none =>
      split at h
      case h_1 items heq => exact absurd heq not_arr_inherited
      case h_2 =>
        cases h
        exact ⟨none, rfl, ho⟩
    | some v =>
      rw [read, Option.getD_some] at h
      split at h
      case h_1 items =>
        split at h
        case h_1 texts htexts =>
          cases h
          refine ⟨_, ?_, hset _⟩
          dsimp only
          rw [htexts]
        case h_2 => cases h
      case h_2 hne =>
        cases h
        refine ⟨_, ?_, ho⟩
        split
        case h_1 items heq =>
          cases heq
          exact absurd rfl (hne items rfl)
        case h_2 => rfl
  · rw [decide_eq_false hs] at h
    rw [if_neg hs]
    cases h
    exact ⟨o, rfl, ho⟩

theorem foldlM_policiesInOrder (path property : String) (C : Members) (o : Option Value) :
    (policiesInOrder C).foldlM (applyTo path property) o = operatorsInOrder.foldlM
      (applyIf path property C) o := by
  rw [policiesInOrder]
  generalize operatorsInOrder = ops
  induction ops generalizing o with
  | nil => rfl
  | cons op ops ih =>
    rw [List.filterMap_cons, List.foldlM_cons, applyIf]
    cases C.lookup op.key with
    | none => exact ih o
    | some v =>
      rw [Option.map_some, List.foldlM_cons]
      exact congrArg _ (funext ih)

/-! ## The whole metadata -/

def HasService (service : String) (metadata : Metadata) : Prop := (metadata.lookup service).isSome

theorem parameter_ne_none {metadata : Metadata} {service : String} (property : String)
    (h : HasService service metadata) :
    ∃ o, parameter metadata service property = some o := by
  obtain ⟨block, hblock⟩ := Option.isSome_iff_exists.mp h
  exact ⟨block.lookup property, by rw [parameter, hblock]; rfl⟩

theorem hasService_of_parameter {metadata : Metadata} {service property : String} {o : Option Value}
    (h : parameter metadata service property = some o) : HasService service metadata := by
  obtain ⟨block, hblock, -⟩ := Option.map_eq_some_iff.mp h
  exact Option.isSome_iff_exists.mpr ⟨block, hblock⟩

theorem setPropertyValue_frame {metadata : Metadata} {service property s p : String} {v : Value}
    (hne : ¬(s = service ∧ p = property)) (h : HasService s metadata) :
    parameter (setPropertyValue metadata service property v) s p = parameter metadata s p := by
  obtain ⟨o, ho⟩ := parameter_ne_none p h
  rw [parameter_setPropertyValue _ _ _ _ _ _ (by rw [ho]; exact nofun), if_neg hne]

theorem perform_frame {metadata : Metadata} {service property s p : String} {action : Action}
    (hne : ¬(s = service ∧ p = property)) (h : HasService s metadata) :
    parameter (perform metadata service property action) s p = parameter metadata s p := by
  obtain ⟨o, ho⟩ := parameter_ne_none p h
  rw [parameter_perform _ _ _ _ _ _ ho, if_neg hne, ho]

theorem hasService_setPropertyValue {metadata : Metadata} {service property s : String} {v : Value}
    (h : HasService s metadata) : HasService s (setPropertyValue metadata service property v) := by
  rw [HasService, setPropertyValue, lookup_insert]
  split
  case isTrue => rfl
  case isFalse => exact h

theorem hasService_perform {metadata : Metadata} {service property s : String} {action : Action}
    (h : HasService s metadata) : HasService s (perform metadata service property action) := by
  obtain ⟨o, ho⟩ := parameter_ne_none property h
  exact hasService_of_parameter (parameter_perform _ service property _ _ action ho)

/-- Applying the policy of a parameter keeps the entity types and the other parameters. -/
theorem applyProperty_frame {service s p : String} {rule : String × Value} {m m' : Metadata}
    (hs : HasService s m) (h : applyProperty service m rule = .ok m') :
    HasService s m' ∧ (¬(s = service ∧ p = rule.1) → parameter m' s p = parameter m s p) := by
  rw [applyProperty] at h
  split at h
  case isTrue =>
    cases h
    exact ⟨hs, fun _ => rfl⟩
  case isFalse =>
    have hopen : HasService s (openScope m service rule.1) ∧
        (¬(s = service ∧ p = rule.1) → parameter (openScope m service rule.1) s p =
          parameter m s p) := by
      rw [openScope]
      split
      case h_1 => exact ⟨hasService_setPropertyValue hs, fun hne => setPropertyValue_frame hne hs⟩
      case h_2 => exact ⟨hs, fun _ => rfl⟩
    obtain ⟨m₁, hm₁, h⟩ := bind_eq_ok.mp h
    have hrun : HasService s m₁ ∧
        (¬(s = service ∧ p = rule.1) → parameter m₁ s p = parameter m s p) := by
      refine foldlM_invariant (motive := fun t => HasService s t ∧
        (¬(s = service ∧ p = rule.1) → parameter t s p = parameter m s p))
          (fun policy _ t t' ht hstep => ?_) hopen hm₁
      obtain ⟨action, -, hstep⟩ := bind_eq_ok.mp hstep
      cases hstep
      exact ⟨hasService_perform ht.1, fun hne => (perform_frame hne ht.1).trans (ht.2 hne)⟩
    rw [closeScope] at h
    split at h
    case h_1 =>
      split at h
      case h_1 =>
        cases h
        exact ⟨hasService_setPropertyValue hrun.1,
          fun hne => (setPropertyValue_frame hne hrun.1).trans (hrun.2 hne)⟩
      case h_2 => cases h
    case h_2 =>
      cases h
      exact hrun

theorem applyProperty_parameter {service property : String} {C : Members} (hn : (keys C).Nodup)
    {m m' : Metadata} {o : Option Value} (ho : parameter m service property = some o)
    (h : applyProperty service m (property, obj C) = .ok m') :
    ∃ o₁ o', operatorsInOrder.foldlM (applyIf (service ++ "." ++ property) property C)
      (openedScope property o) = .ok o₁ ∧
      closedScope property o₁ = .ok o' ∧ parameter m' service property = some o' := by
  obtain ⟨m₁, hm₁, h⟩ := bind_eq_ok.mp h
  obtain ⟨o₁, ho₁, hp₁⟩ := applyOperators_parameter (openScope_parameter ho) hm₁
  obtain ⟨o', ho', hp'⟩ := closeScope_parameter hp₁ h
  refine ⟨o₁, o', ?_, ho', hp'⟩
  rw [← foldlM_policiesInOrder, ← sortedPolicies_eq hn]
  exact ho₁

theorem applyService_frame {s p : String} {service : String × Members} {m m' : Metadata}
    (hs : HasService s m) (h : applyService m service = .ok m') :
    HasService s m' ∧ (s ≠ service.1 → parameter m' s p = parameter m s p) := by
  rw [applyService] at h
  split at h
  case isTrue =>
    cases h
    exact ⟨hs, fun _ => rfl⟩
  case isFalse =>
    refine foldlM_invariant (motive := fun t => HasService s t ∧
      (s ≠ service.1 → parameter t s p = parameter m s p))
      (fun rule _ t t' ht hstep => ?_) ⟨hs, fun _ => rfl⟩ h
    obtain ⟨hs', hp'⟩ := applyProperty_frame (p := p) ht.1 hstep
    exact ⟨hs', fun hne => (hp' fun heq => hne heq.1).trans (ht.2 hne)⟩

/-- What the policy of a parameter makes of it. -/
theorem applyMetadata_parameter {leaf policy resolved : Metadata}
    {service property : String} {C : Members} (hn : KeysDistinct policy) (hnC : (keys C).Nodup)
    (hC : own policy service property = some (obj C)) {o : Option Value}
    (ho : parameter leaf service property = some o)
    (h : applyMetadataPolicyToMetadata leaf policy = .ok resolved) :
    ∃ o₁ o', operatorsInOrder.foldlM (applyIf (service ++ "." ++ property) property C)
      (openedScope property o) = .ok o₁ ∧
      closedScope property o₁ = .ok o' ∧ parameter resolved service property = some o' := by
  obtain ⟨block, hblock, hproperty⟩ := Option.bind_eq_some_iff.mp hC
  obtain ⟨m₁, m₂, hs₁, hstep, hm₁, hm₂⟩ := foldlM_at_of_invariant (motive := HasService service)
    (f := fun m => parameter m service property) hn.1 hblock
    (fun _ _ _ _ ht hservice => (applyService_frame (p := property) ht hservice).1)
    (fun _ _ hne _ _ ht hservice => (applyService_frame ht hservice).2 (Ne.symm hne))
      (hasService_of_parameter ho) h
  rw [applyService, if_neg
    (by rw [hasEntityType, show (m₁.lookup service).isSome = true from hs₁]; exact nofun)] at hstep
  obtain ⟨m₃, m₄, -, hstep, hm₃, hm₄⟩ := foldlM_at_of_invariant (motive := HasService service)
    (f := fun m => parameter m service property) (hn.2 _ (mem_of_lookup hblock)) hproperty
    (fun _ _ _ _ ht hrule => (applyProperty_frame (p := property) ht hrule).1)
    (fun _ _ hne _ _ ht hrule => (applyProperty_frame ht hrule).2 fun heq =>
      hne heq.2.symm) hs₁ hstep
  obtain ⟨o₁, o', ho₁, ho', hp'⟩ := applyProperty_parameter hnC (hm₃.trans (hm₁.trans ho)) hstep
  exact ⟨o₁, o', ho₁, ho', hm₂.trans (hm₄.trans hp')⟩

end IdentityCommon.OpenidFederation
