import IdentityCommon.OpenidFederation.MergeAlgebra
import IdentityCommon.OpenidFederation.PolicyApplication

/-!
# The conditions on a policy

What the schema of a policy asks of it, as conditions on the values of its operators, and that a
policy meets them when a stricter one does.

## Main definitions

- `Conditions` — the conditions of the schema

## Main results

- `zMetadataPolicy_iff` — the schema accepts the policies that meet the conditions
- `Conditions.of_refines` — the conditions hold of a policy when they hold of a stricter one
-/

namespace IdentityCommon.OpenidFederation

open IdentityCommon.Except AssocList Ecma Value Operator

/-- The conditions that the schema sets on the operators of a policy. -/
structure Conditions (C : Members) : Prop where
  schema : ∀ (op : Operator) v, C.lookup op.key = some v → op.operatorSchema v
  known : ∀ key ∈ keys C, ofKey key = none → isInherited key = false
  combined : ∀ op op' : Operator, op.key ∈ keys C → op'.key ∈ keys C → op' ≠ op →
    op'.key ∈ op.canBeCombinedWith
  null_default : C.lookup value.key = some null → C.lookup default.key = none
  null_essential : C.lookup value.key = some null → C.lookup essential.key ≠ some (Value.bool true)
  add_value : ∀ v w, C.lookup value.key = some v → C.lookup add.key = some w →
    isSubset (some w) (some (nullAsEmpty v))
  oneOf_value : ∀ v w, C.lookup value.key = some v → C.lookup oneOf.key = some w →
    ∃ items, w = arr items ∧ isNull v = false ∧ includes items v
  value_subsetOf : ∀ v w, C.lookup value.key = some v → C.lookup subsetOf.key = some w →
    isSubset (some (nullAsEmpty v)) (some w)
  supersetOf_value : ∀ v w, C.lookup value.key = some v → C.lookup supersetOf.key = some w →
    isSubset (some w) (some (nullAsEmpty v))
  add_subsetOf : ∀ v w, C.lookup add.key = some v → C.lookup subsetOf.key = some w →
    isSubset (some v) (some w)
  supersetOf_subsetOf : ∀ v w, C.lookup supersetOf.key = some v → C.lookup subsetOf.key = some w →
    isSubset (some v) (some w)

/-! ## The schema -/

theorem ite_eq_nil {c : Bool} {message : String} : (if c then [message] else []) = [] ↔
    c = false := by
  cases c with
  | false => exact ⟨fun _ => rfl, fun _ => rfl⟩
  | true => exact ⟨nofun, nofun⟩

theorem combinationIssues_eq_nil {C : Members} {key : String} :
    combinationIssues C key = .ok [] ↔ (ofKey key = none → isInherited key = false) ∧
      ∀ op, ofKey key = some op → ∀ k ∈ keys C, k ≠ op.key → isExistingPolicyKey k →
      k ∈ op.canBeCombinedWith := by
  unfold combinationIssues
  cases hkey : ofKey key with
  | none =>
    rw [isExistingPolicyKey, hkey, Option.isSome_none, Bool.false_or]
    cases isInherited key with
    | false => exact iff_of_true rfl ⟨fun _ => rfl, fun op heq => by cases heq⟩
    | true => exact iff_of_false (error_ne_ok _ _) fun h => absurd (h.1 rfl).symm Bool.false_ne_true
  | some op =>
    rw [isExistingPolicyKey, hkey, Option.isSome_some, Bool.true_or]
    simp only [Bool.not_true, Bool.false_eq_true, if_false]
    split
    case isTrue hany =>
      refine iff_of_false (fun h => by cases h) fun h => ?_
      obtain ⟨k, hk, hcond⟩ := List.any_eq_true.mp hany
      obtain ⟨hne, hex, hnot⟩ := of_decide_eq_true hcond
      exact hnot (h.2 op rfl k hk hne hex)
    case isFalse hany =>
      refine iff_of_true rfl ⟨fun hnone => absurd hnone (Option.some_ne_none _),
        fun op' heq k hk hne hex => ?_⟩
      cases heq
      by_contra hnot
      exact hany (List.any_eq_true.mpr ⟨k, hk, decide_eq_true ⟨hne, hex, hnot⟩⟩)

/-- No message about the combinations of operators. -/
theorem combinations_iff {C : Members} : (∀ key ∈ keys C, combinationIssues C key = .ok []) ↔
    (∀ key ∈ keys C, ofKey key = none → isInherited key = false) ∧
      ∀ op op' : Operator, op.key ∈ keys C → op'.key ∈ keys C → op' ≠ op →
      op'.key ∈ op.canBeCombinedWith := by
  simp only [combinationIssues_eq_nil]
  constructor
  · intro h
    refine ⟨fun key hkey => (h key hkey).1, fun op op' hop hop' hne => ?_⟩
    refine (h op.key hop).2 op (ofKey_key op) op'.key hop' (fun heq => hne (key_injective heq)) ?_
    rw [isExistingPolicyKey, ofKey_key]
    rfl
  · rintro ⟨hknown, hcombined⟩ key hkey
    refine ⟨hknown key hkey, fun op hop k hk hne hex => ?_⟩
    obtain rfl := ofKey_eq_some.mp hop
    cases hop' : ofKey k with
    | none =>
      rw [isExistingPolicyKey, hop', hknown k hk hop'] at hex
      cases hex
    | some op' =>
      obtain rfl := ofKey_eq_some.mp hop'
      exact hcombined op op' hkey hk fun heq => hne (heq ▸ rfl)

/-! ### Values that go together -/

theorem isSubset_or_none {o t : Option Value} :
    (o.isSome && !isSubset o t) = false ↔ ∀ w, o = some w → isSubset (some w) t := by
  cases o with
  | none => exact iff_of_true rfl nofun
  | some w =>
    rw [Option.isSome_some, Bool.true_and, Bool.not_eq_false']
    exact ⟨fun h w' heq => Option.some.inj heq ▸ h, fun h => h w rfl⟩

theorem isSubset_or_none_right {o t : Option Value} :
    (t.isSome && !isSubset o t) = false ↔ ∀ w, t = some w → isSubset o (some w) := by
  cases t with
  | none => exact iff_of_true rfl nofun
  | some w =>
    rw [Option.isSome_some, Bool.true_and, Bool.not_eq_false']
    exact ⟨fun h w' heq => Option.some.inj heq ▸ h, fun h => h w rfl⟩

theorem isSubset_or_none_both {o t : Option Value} :
    (o.isSome && t.isSome && !isSubset o t) = false ↔ ∀ v w, o = some v → t = some w →
    isSubset (some v) (some w) := by
  cases o with
  | none => exact iff_of_true rfl nofun
  | some v =>
    rw [Option.isSome_some, Bool.true_and, isSubset_or_none_right]
    exact ⟨fun h v' w hv hw => Option.some.inj hv ▸ h w hw, fun h w hw => h v w rfl hw⟩

theorem isNull_iff {v : Value} : isNull v ↔ v = null := by
  unfold isNull
  split
  · exact iff_of_true rfl rfl
  · exact iff_of_false nofun (by assumption)

/-- The value is among those of `one_of`. -/
theorem oneOf_condition {o : Option Value} {v : Value} :
    (o.isSome && !(match o, some v with
      | some (arr items), some v' => !isNull v && includes items v'
      | _, _ => false)) = false ↔
      ∀ w, o = some w → ∃ items, w = arr items ∧ isNull v = false ∧ includes items v := by
  cases o with
  | none => exact iff_of_true rfl nofun
  | some w =>
    rw [Option.isSome_some, Bool.true_and, Bool.not_eq_false']
    cases w with
    | arr items =>
      rw [Bool.and_eq_true, Bool.not_eq_true']
      constructor
      · intro h w heq
        cases heq
        exact ⟨items, rfl, h⟩
      · intro h
        obtain ⟨items', heq, hv⟩ := h _ rfl
        cases heq
        exact hv
    | leaf l => exact iff_of_false nofun fun h => by obtain ⟨_, heq, _⟩ := h _ rfl; cases heq
    | obj members => exact iff_of_false nofun fun h => by obtain ⟨_, heq, _⟩ := h _ rfl; cases heq

theorem null_default_condition {o : Option Value} {v : Value} :
    (isNull v && o.isSome) = false ↔ (some v = some null → o = none) := by
  rw [Option.some.injEq, ← isNull_iff]
  cases isNull v with
  | false => exact iff_of_true rfl nofun
  | true =>
    rw [Bool.true_and, Option.isSome_eq_false_iff, Option.isNone_iff_eq_none]
    exact ⟨fun h _ => h, fun h => h rfl⟩

theorem null_essential_condition {o : Option Value} {v : Value} :
    (isNull v && (match o with | some (Value.bool true) => true | _ => false)) = false ↔
      (some v = some null → o ≠ some (Value.bool true)) := by
  rw [Option.some.injEq, ← isNull_iff]
  cases isNull v with
  | false => exact iff_of_true rfl nofun
  | true =>
    rw [Bool.true_and]
    split
    · exact iff_of_false nofun fun h => h rfl rfl
    case h_2 hne => exact iff_of_true rfl fun _ h => hne h

/-- No message about the combinations of values. -/
theorem conditionalCombinationErrors_eq_nil {C : Members} : conditionalCombinationErrors C = [] ↔
    (C.lookup value.key = some null → C.lookup default.key = none) ∧
    (C.lookup value.key = some null → C.lookup essential.key ≠ some (Value.bool true)) ∧
    (∀ v w, C.lookup value.key = some v → C.lookup add.key = some w →
      isSubset (some w) (some (nullAsEmpty v))) ∧
    (∀ v w, C.lookup value.key = some v → C.lookup oneOf.key = some w →
      ∃ items, w = arr items ∧ isNull v = false ∧ includes items v) ∧
    (∀ v w, C.lookup value.key = some v → C.lookup subsetOf.key = some w →
      isSubset (some (nullAsEmpty v)) (some w)) ∧
    (∀ v w, C.lookup value.key = some v → C.lookup supersetOf.key = some w →
      isSubset (some w) (some (nullAsEmpty v))) ∧
    (∀ v w, C.lookup add.key = some v → C.lookup subsetOf.key = some w →
      isSubset (some v) (some w)) ∧
    ∀ v w, C.lookup supersetOf.key = some v → C.lookup subsetOf.key = some w →
    isSubset (some v) (some w) := by
  unfold conditionalCombinationErrors
  dsimp only
  rw [List.append_eq_nil_iff, List.append_eq_nil_iff, ite_eq_nil, ite_eq_nil, isSubset_or_none_both,
    Bool.and_comm (C.lookup subsetOf.key).isSome (C.lookup supersetOf.key).isSome,
    isSubset_or_none_both]
  obtain hv | ⟨v, hv⟩ := Option.eq_none_or_eq_some (C.lookup value.key)
  · simp only [hv, Option.isSome_none, Bool.false_eq_true, if_false, reduceCtorEq, false_imp_iff,
      implies_true, true_and]
  · simp only [hv, Option.isSome_some, if_true, Option.any_some, Option.map_some,
      List.append_eq_nil_iff, ite_eq_nil]
    have hvalue := and_congr (and_congr (and_congr (and_congr (and_congr
      (@null_default_condition (C.lookup default.key) v)
        (@null_essential_condition (C.lookup essential.key) v))
      (@isSubset_or_none (C.lookup add.key) (some (nullAsEmpty v))))
        (@oneOf_condition (C.lookup oneOf.key) v))
      (@isSubset_or_none_right (some (nullAsEmpty v)) (C.lookup subsetOf.key)))
      (@isSubset_or_none (C.lookup supersetOf.key) (some (nullAsEmpty v)))
    have hall (P : Value → Value → Prop) (o : Option Value) :
        (∀ v' w, some v = some v' → o = some w → P v' w) ↔ ∀ w, o = some w → P v w :=
      ⟨fun h w hw => h v w rfl hw, fun h v' w heq hw => Option.some.inj heq ▸ h w hw⟩
    refine (and_congr_left' (and_congr_left' hvalue)).trans ?_
    simp only [hall, and_assoc]

/-- The schema accepts the policies that meet its conditions. -/
theorem zMetadataPolicy_iff {C : Members} : zMetadataPolicy C = .ok () ↔ Conditions C := by
  have hschema : (allSupportedPolicies.any fun op =>
      !(C.lookup op.key).all op.operatorSchema) = true ↔
      ¬∀ (op : Operator) v, C.lookup op.key = some v → op.operatorSchema v := by
    rw [List.any_eq_true, not_forall]
    refine exists_congr fun op => ?_
    rw [and_iff_right (show op ∈ allSupportedPolicies by cases op <;> decide), Bool.not_eq_true',
      ← Bool.not_eq_true, Option.all_eq_true]
  have hissues (issues : List (List String))
      (h : (keys C).mapM (combinationIssues C) = .ok issues) :
      issues.flatten = [] ↔ ∀ key ∈ keys C, combinationIssues C key = .ok [] := by
    have hall := mapM_eq_ok.mp h
    rw [List.flatten_eq_nil_iff]
    constructor
    · intro hnil key hkey
      obtain ⟨issue, hissue, hok⟩ := exists_of_forall₂ hall hkey
      exact hnil issue hissue ▸ hok
    · intro hnil issue hissue
      obtain ⟨key, hkey, hok⟩ := exists_of_forall₂ hall.flip hissue
      exact Except.ok.inj (hok.symm.trans (hnil key hkey))
  unfold zMetadataPolicy
  constructor
  · intro h
    split at h
    case isTrue => cases h
    case isFalse hs =>
      obtain ⟨issues, hmapM, h⟩ := bind_eq_ok.mp h
      dsimp only at h
      split at h
      case isFalse => cases h
      case isTrue hnil =>
        obtain ⟨hflat, hconditional⟩ := List.append_eq_nil_iff.mp hnil
        obtain ⟨hknown, hcombined⟩ := combinations_iff.mp ((hissues issues hmapM).mp hflat)
        obtain ⟨h₁, h₂, h₃, h₄, h₅, h₆, h₇, h₈⟩ :=
          conditionalCombinationErrors_eq_nil.mp hconditional
        exact ⟨not_not.mp (mt hschema.mpr hs), hknown, hcombined, h₁, h₂, h₃, h₄, h₅, h₆, h₇, h₈⟩
  · intro h
    have hkeys := combinations_iff.mpr ⟨h.known, h.combined⟩
    obtain ⟨issues, hmapM⟩ := exists_mapM_eq_ok fun key hkey => ⟨[], hkeys key hkey⟩
    have hconditional : conditionalCombinationErrors C = [] :=
      conditionalCombinationErrors_eq_nil.mpr
      ⟨h.null_default, h.null_essential, h.add_value, h.oneOf_value, h.value_subsetOf,
        h.supersetOf_value, h.add_subsetOf, h.supersetOf_subsetOf⟩
    rw [if_neg (mt hschema.mp (not_not.mpr h.schema)), hmapM, ok_bind,
      (hissues issues hmapM).mpr hkeys, hconditional]
    rfl

/-! ## Stricter policies -/

theorem isSubset_arr {a b : List Value} : isSubset (some (arr a)) (some (arr b)) ↔
    ∀ x ∈ a, includes b x :=
  List.all_eq_true

theorem includes_mono {a b : List Value} (h : a ⊆ b) {x : Value} (hx : includes a x) :
    includes b x := by
  obtain ⟨y, hy, heq⟩ := List.any_eq_true.mp hx
  exact List.any_eq_true.mpr ⟨y, h hy, heq⟩

theorem exists_arr_of_isSet {op : Operator} (hs : op.isSet) {v : Value} (hv : op.operatorSchema v) :
    ∃ items, v = arr items := by
  obtain ⟨items, rfl, -⟩ := (operatorSchema_of_isSet hs).mp hv
  exact ⟨items, rfl⟩

/-- A policy meets the conditions when a stricter policy does. -/
theorem Conditions.of_refines {C D : Members} (h : Conditions D)
    (hschema : ∀ (op : Operator) v, C.lookup op.key = some v → op.operatorSchema v)
    (hknown : ∀ key ∈ keys C, ofKey key = none → isInherited key = false)
    (href : ∀ (op : Operator) v, C.lookup op.key = some v → ∃ w, D.lookup op.key = some w ∧
      Refines op w v) :
    Conditions C := by
  have hkey (op : Operator) (hop : op.key ∈ keys C) : op.key ∈ keys D := by
    obtain ⟨v, hv⟩ := Option.isSome_iff_exists.mp (lookup_isSome_iff.mpr hop)
    obtain ⟨w, hw, -⟩ := href op v hv
    exact lookup_isSome_iff.mp (by rw [hw]; rfl)
  have hvalue (v : Value) (hv : C.lookup value.key = some v) : D.lookup value.key = some v := by
    obtain ⟨w, hw, hr⟩ := href value v hv
    rw [hw]
    exact congrArg some hr
  -- the values of a set, in the policy and in the stricter one
  have hset (op : Operator) (hs : op.isSet) (v : Value) (hv : C.lookup op.key = some v) :
      ∃ a b, v = arr a ∧ D.lookup op.key = some (arr b) ∧ Refines op (arr b) (arr a) := by
    obtain ⟨a, rfl⟩ := exists_arr_of_isSet hs (hschema op v hv)
    obtain ⟨w, hw, hr⟩ := href op _ hv
    obtain ⟨b, rfl⟩ := exists_arr_of_isSet hs (h.schema op w hw)
    exact ⟨a, b, rfl, hw, hr⟩
  refine ⟨hschema, hknown, fun op op' hop hop' => h.combined op op' (hkey op hop)
    (hkey op' hop'), ?_, ?_, ?_, ?_, ?_, ?_, ?_, ?_⟩
  · intro hnull
    have hdefault := h.null_default (hvalue null hnull)
    by_contra hne
    obtain ⟨v, hv⟩ := Option.ne_none_iff_exists'.mp hne
    obtain ⟨w, hw, -⟩ := href default v hv
    rw [hdefault] at hw
    cases hw
  · intro hnull hess
    obtain ⟨w, hw, hr⟩ := href essential _ hess
    obtain rfl := hr rfl
    exact h.null_essential (hvalue null hnull) hw
  · intro v w hv hw
    obtain ⟨a, b, rfl, hb, hr⟩ := hset add rfl w hw
    obtain ⟨b', X, heq, hX, hsub⟩ := arr_of_isSubset (h.add_value v _ (hvalue v hv) hb)
    cases heq
    rw [Option.some.inj hX, isSubset_arr]
    exact fun x hx => hsub x (hr hx)
  · intro v w hv hw
    obtain ⟨a, b, rfl, hb, hr⟩ := hset oneOf rfl w hw
    obtain ⟨items, heq, hnull, hincludes⟩ := h.oneOf_value v _ (hvalue v hv) hb
    cases heq
    exact ⟨a, rfl, hnull, includes_mono hr hincludes⟩
  · intro v w hv hw
    obtain ⟨a, b, rfl, hb, hr⟩ := hset subsetOf rfl w hw
    obtain ⟨X, b', hX, heq, hsub⟩ := arr_of_isSubset (h.value_subsetOf v _ (hvalue v hv) hb)
    cases heq
    rw [Option.some.inj hX, isSubset_arr]
    exact fun x hx => includes_mono hr (hsub x hx)
  · intro v w hv hw
    obtain ⟨a, b, rfl, hb, hr⟩ := hset supersetOf rfl w hw
    obtain ⟨b', X, heq, hX, hsub⟩ := arr_of_isSubset (h.supersetOf_value v _ (hvalue v hv) hb)
    cases heq
    rw [Option.some.inj hX, isSubset_arr]
    exact fun x hx => hsub x (hr hx)
  · intro v w hv hw
    obtain ⟨a, b, rfl, hb, hr⟩ := hset add rfl v hv
    obtain ⟨a', b', rfl, hb', hr'⟩ := hset subsetOf rfl w hw
    rw [isSubset_arr]
    exact fun x hx => includes_mono hr' (isSubset_arr.mp (h.add_subsetOf _ _ hb hb') x (hr hx))
  · intro v w hv hw
    obtain ⟨a, b, rfl, hb, hr⟩ := hset supersetOf rfl v hv
    obtain ⟨a', b', rfl, hb', hr'⟩ := hset subsetOf rfl w hw
    rw [isSubset_arr]
    exact fun x hx => includes_mono hr'
      (isSubset_arr.mp (h.supersetOf_subsetOf _ _ hb hb') x (hr hx))

end IdentityCommon.OpenidFederation
