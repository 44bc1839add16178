import IdentityCommon.OpenidFederation.PolicyApplication

/-!
# The stages of a parameter

The values that a parameter goes through while the operators of its policy are applied, in their
order, and what the order and the conditions on combinations make of them.

## Main definitions

- `Stages` — the values of a parameter between the operators

## Main results

- `exists_stages` — a policy that applies takes the parameter through its stages
- `Stages.add_subset`, `Stages.mem_oneOf`, `Stages.subset_subsetOf`, `Stages.supersetOf_subset` —
  what the last stage keeps
-/

namespace IdentityCommon.OpenidFederation

open IdentityCommon.Except AssocList Ecma Value Operator

variable {path property : String} {C : Members} {o o' : Option Value}

/-! ## One operator -/

theorem scopeValue_arr (isScope : Bool) (items : List Value) :
    scopeValue isScope (arr items) = arr items := rfl

theorem read_eq_arr {items : List Value} (h : read property o = arr items) :
    o = some (arr items) := by
  cases o with
  | none => exact absurd h not_arr_inherited
  | some v => exact congrArg some h

theorem applyIf_eq_ok {op : Operator} (h : applyIf path property C o op = .ok o') :
    C.lookup op.key = none ∧ o' = o ∨ ∃ v action, C.lookup op.key = some v ∧
      operate path op (scopeValue (property = "scope") v) (read property o) = .ok action ∧
      o' = action.result o := by
  rw [applyIf] at h
  split at h
  case h_1 v hv =>
    obtain ⟨action, haction, h⟩ := bind_eq_ok.mp h
    exact Or.inr ⟨v, action, hv, haction, (Except.ok.inj h).symm⟩
  case h_2 hnone => exact Or.inl ⟨hnone, (Except.ok.inj h).symm⟩

theorem applyIf_value (h : applyIf path property C o value = .ok o') :
    C.lookup value.key = none ∧ o' = o ∨ C.lookup value.key = some null ∧ o' = none ∨
      ∃ v, C.lookup value.key = some v ∧ v ≠ null ∧
      o' = some (scopeValue (property = "scope") v) := by
  obtain ⟨hnone, rfl⟩ | ⟨v, action, hv, haction, rfl⟩ := applyIf_eq_ok h
  · exact Or.inl ⟨hnone, rfl⟩
  · rw [operate.eq_def] at haction
    dsimp only at haction
    split at haction
    case h_1 heq =>
      cases haction
      refine Or.inr (Or.inl ⟨?_, rfl⟩)
      rw [hv]
      unfold scopeValue at heq
      split at heq
      · split at heq <;> cases heq
      · rw [heq]
    case h_2 hne =>
      cases haction
      refine Or.inr (Or.inr ⟨v, hv, ?_, rfl⟩)
      rintro rfl
      exact hne rfl

theorem arr_of_schema {op : Operator} {v : Value} (h : op.operatorSchema v)
    (hop : op ∈ [add, oneOf, subsetOf, supersetOf]) :
    ∃ items, v = arr items ∧ (items.all isString || items.all isNumber) := by
  simp only [List.mem_cons, List.not_mem_nil, or_false] at hop
  rcases hop with rfl | rfl | rfl | rfl
  all_goals
    unfold operatorSchema at h
    split at h
    all_goals first | contradiction | exact ⟨_, rfl, h⟩

theorem applyIf_add (hC : ValidPolicy C) (h : applyIf path property C o add = .ok o') :
    C.lookup add.key = none ∧ o' = o ∨ ∃ A T, C.lookup add.key = some (arr A) ∧
    o' = some (arr (union T A)) ∧
      (o = some (arr T) ∨ T = [] ∧ isNullOrUndefined (read property o)) := by
  obtain ⟨hnone, rfl⟩ | ⟨v, action, hv, haction, rfl⟩ := applyIf_eq_ok h
  · exact Or.inl ⟨hnone, rfl⟩
  · obtain ⟨A, rfl, -⟩ := arr_of_schema (hC.schema add v hv) (by simp)
    rw [scopeValue_arr, operate.eq_def] at haction
    dsimp only at haction
    refine Or.inr ?_
    generalize htarget : (if isNullOrUndefined (read property o) then arr [] else read property o) =
      target at haction
    cases target with
    | leaf l => cases haction
    | obj members => cases haction
    | arr T =>
      cases haction
      refine ⟨A, T, hv, rfl, ?_⟩
      split at htarget
      case isTrue hnull =>
        cases htarget
        exact Or.inr ⟨rfl, hnull⟩
      case isFalse => exact Or.inl (read_eq_arr htarget)

theorem applyIf_default (h : applyIf path property C o default = .ok o') :
    o' = o ∧ (C.lookup default.key = none ∨ read property o ≠ undefined) ∨
      ∃ d, C.lookup default.key = some d ∧ read property o = undefined ∧
      o' = some (scopeValue (property = "scope") d) := by
  obtain ⟨hnone, rfl⟩ | ⟨v, action, hv, haction, rfl⟩ := applyIf_eq_ok h
  · exact Or.inl ⟨rfl, Or.inl hnone⟩
  · rw [operate.eq_def] at haction
    dsimp only at haction
    split at haction
    case h_1 heq =>
      cases haction
      exact Or.inr ⟨v, hv, heq, rfl⟩
    case h_2 hne =>
      cases haction
      exact Or.inl ⟨rfl, Or.inr hne⟩

theorem applyIf_oneOf (h : applyIf path property C o oneOf = .ok o') :
    o' = o ∧ ∀ v, C.lookup oneOf.key = some v → isNullOrUndefined (read property o) ∨
      ∃ items, scopeValue (property = "scope") v = arr items ∧
      includes items (read property o) := by
  obtain ⟨hnone, rfl⟩ | ⟨v, action, hv, haction, rfl⟩ := applyIf_eq_ok h
  · exact ⟨rfl, fun v hv => by rw [hnone] at hv; cases hv⟩
  · rw [operate.eq_def] at haction
    dsimp only at haction
    split at haction
    case isTrue hnull =>
      cases haction
      exact ⟨rfl, fun _ _ => Or.inl hnull⟩
    case isFalse =>
      split at haction
      case h_1 items hitems =>
        split at haction
        case isTrue hincludes =>
          cases haction
          refine ⟨rfl, fun w hw => Or.inr ⟨items, ?_, hincludes⟩⟩
          rw [← Option.some.inj (hv.symm.trans hw)]
          exact hitems
        case isFalse => cases haction
      case h_2 => cases haction

theorem applyIf_subsetOf (hC : ValidPolicy C) (h : applyIf path property C o subsetOf = .ok o') :
    C.lookup subsetOf.key = none ∧ o' = o ∨ ∃ S, C.lookup subsetOf.key = some (arr S) ∧
      (o' = o ∧ isNullOrUndefined (read property o) ∨ ∃ T, o = some (arr T) ∧
        o' = some (arr (T.filter (includes S)))) := by
  obtain ⟨hnone, rfl⟩ | ⟨v, action, hv, haction, rfl⟩ := applyIf_eq_ok h
  · exact Or.inl ⟨hnone, rfl⟩
  · obtain ⟨S, rfl, -⟩ := arr_of_schema (hC.schema subsetOf v hv) (by simp)
    rw [scopeValue_arr, operate.eq_def] at haction
    dsimp only at haction
    refine Or.inr ⟨S, hv, ?_⟩
    split at haction
    case isTrue hnull =>
      cases haction
      exact Or.inl ⟨rfl, hnull⟩
    case isFalse =>
      cases htarget : read property o with
      | leaf l => rw [htarget] at haction; cases haction
      | obj members => rw [htarget] at haction; cases haction
      | arr T =>
        rw [htarget] at haction
        cases haction
        exact Or.inr ⟨T, read_eq_arr htarget, rfl⟩

theorem applyIf_supersetOf (hC : ValidPolicy C)
    (h : applyIf path property C o supersetOf = .ok o') :
    o' = o ∧ ∀ v, C.lookup supersetOf.key = some v → isNullOrUndefined (read property o) ∨
      ∃ S T, v = arr S ∧ o = some (arr T) ∧ S ⊆ T := by
  obtain ⟨hnone, rfl⟩ | ⟨v, action, hv, haction, rfl⟩ := applyIf_eq_ok h
  · exact ⟨rfl, fun v hv => by rw [hnone] at hv; cases hv⟩
  · obtain ⟨S, rfl, -⟩ := arr_of_schema (hC.schema supersetOf v hv) (by simp)
    rw [scopeValue_arr, operate.eq_def] at haction
    dsimp only at haction
    split at haction
    case isTrue hnull =>
      cases haction
      exact ⟨rfl, fun _ _ => Or.inl hnull⟩
    case isFalse =>
      cases htarget : read property o with
      | leaf l => rw [htarget] at haction; cases haction
      | obj members => rw [htarget] at haction; cases haction
      | arr T =>
        rw [htarget] at haction
        dsimp only at haction
        split at haction
        case isTrue hall =>
          cases haction
          refine ⟨rfl, fun w hw => Or.inr ⟨S, T, (Option.some.inj (hv.symm.trans hw)).symm,
            read_eq_arr htarget, ?_⟩⟩
          exact fun x hx => mem_of_includes (List.all_eq_true.mp hall x hx)
        case isFalse => cases haction

theorem applyIf_essential (h : applyIf path property C o essential = .ok o') :
    o' = o ∧ (C.lookup essential.key = some (Value.bool true) →
      isNullOrUndefined (read property o) = false) := by
  obtain ⟨hnone, rfl⟩ | ⟨v, action, hv, haction, rfl⟩ := applyIf_eq_ok h
  · exact ⟨rfl, fun hv => by rw [hnone] at hv; cases hv⟩
  · rw [operate.eq_def] at haction
    dsimp only at haction
    split at haction
    case isTrue => cases haction
    case isFalse hcondition =>
      cases haction
      refine ⟨rfl, fun htrue => ?_⟩
      cases hv.symm.trans htrue
      rw [Bool.and_eq_true, not_and, Bool.not_eq_true] at hcondition
      exact hcondition rfl

/-! ## All operators -/

/-- The values of a parameter while the operators are applied. The last operators leave the
value. -/
structure Stages (path property : String) (C : Members) (o o' : Option Value) where
  afterValue : Option Value
  afterAdd : Option Value
  afterDefault : Option Value
  value : applyIf path property C o .value = .ok afterValue
  add : applyIf path property C afterValue .add = .ok afterAdd
  default : applyIf path property C afterAdd .default = .ok afterDefault
  oneOf : applyIf path property C afterDefault .oneOf = .ok afterDefault
  subsetOf : applyIf path property C afterDefault .subsetOf = .ok o'
  supersetOf : applyIf path property C o' .supersetOf = .ok o'
  essential : applyIf path property C o' .essential = .ok o'

theorem exists_stages (hC : ValidPolicy C)
    (h : operatorsInOrder.foldlM (applyIf path property C) o = .ok o') :
    Nonempty (Stages path property C o o') := by
  simp only [operatorsInOrder, List.foldlM_cons, List.foldlM_nil] at h
  obtain ⟨o₁, hvalue, h⟩ := bind_eq_ok.mp h
  obtain ⟨o₂, hadd, h⟩ := bind_eq_ok.mp h
  obtain ⟨o₃, hdefault, h⟩ := bind_eq_ok.mp h
  obtain ⟨o₄, honeOf, h⟩ := bind_eq_ok.mp h
  obtain ⟨o₅, hsubset, h⟩ := bind_eq_ok.mp h
  obtain ⟨o₆, hsuperset, h⟩ := bind_eq_ok.mp h
  obtain ⟨o₇, hessential, h⟩ := bind_eq_ok.mp h
  cases h
  obtain rfl := (applyIf_oneOf honeOf).1
  obtain rfl := (applyIf_supersetOf hC hsuperset).1
  obtain rfl := (applyIf_essential hessential).1
  exact ⟨o₁, o₂, o₄, hvalue, hadd, hdefault, honeOf, hsubset, hsuperset, hessential⟩

/-- No value of the array is there twice, by identity. -/
def NoRepeats (items : List Value) : Prop := items.Pairwise fun v w => ¬strictEquals w v

theorem read_some (v : Value) : read property (some v) = v := rfl

theorem unique_of_noRepeats {items : List Value} (h : NoRepeats items) : unique items = items := by
  have hfold : ∀ (rest : List Value) {seen : List Value}, NoRepeats (seen ++ rest) →
      rest.foldl (fun seen v => if includes seen v then seen else seen ++ [v]) seen =
        seen ++ rest := by
    intro rest
    induction rest with
    | nil => exact fun _ => (List.append_nil _).symm
    | cons x rest ih =>
      intro seen hrest
      have hx : ¬includes seen x := by
        intro hincludes
        obtain ⟨w, hw, heq⟩ := List.any_eq_true.mp hincludes
        exact (List.pairwise_append.mp hrest).2.2 w hw x List.mem_cons_self heq
      rw [List.foldl_cons, if_neg hx, ih (by rwa [List.append_assoc]), List.append_assoc]
      rfl
  exact hfold items (show NoRepeats ([] ++ items) from h)

/-- Values that are there are not added again. -/
theorem union_of_noRepeats {T A : List Value} (hT : NoRepeats T) (hA : ∀ x ∈ A, includes T x) :
    union T A = T := by
  have hfold : ∀ {rest : List Value}, (∀ x ∈ rest, includes T x) →
      rest.foldl (fun seen v => if includes seen v then seen else seen ++ [v]) T = T := by
    intro rest
    induction rest with
    | nil => exact fun _ => rfl
    | cons x rest ih =>
      intro hrest
      obtain ⟨hx, hrest⟩ := List.forall_mem_cons.mp hrest
      rw [List.foldl_cons, if_pos hx, ih hrest]
  rw [union, unique, List.foldl_append]
  rw [show T.foldl (fun seen v => if includes seen v then seen else seen ++ [v]) [] =
    T from unique_of_noRepeats hT]
  exact hfold hA

theorem isInherited_iff :
    isInherited property ↔ isNullOrUndefined (inherited property) = false := by
  have hnull : inherited property ≠ null := by
    intro h
    rw [inherited] at h
    split at h
    · cases h
    · split at h <;> cases h
  unfold isInherited
  generalize inherited property = v at hnull
  cases v with
  | leaf l => cases l <;> simp_all [isNullOrUndefined]
  | arr items => simp [isNullOrUndefined]
  | obj members => simp [isNullOrUndefined]

namespace Stages

variable (stages : Stages path property C o o') (hC : ValidPolicy C)

include stages

include hC in
theorem subset_cases : C.lookup Operator.subsetOf.key = none ∧ o' = stages.afterDefault ∨
    ∃ S, C.lookup Operator.subsetOf.key = some (arr S) ∧
      (o' = stages.afterDefault ∧ isNullOrUndefined (read property stages.afterDefault) ∨
        ∃ T, stages.afterDefault = some (arr T) ∧ o' = some (arr (T.filter (includes S)))) :=
  applyIf_subsetOf hC stages.subsetOf

/-- A value that is there is not replaced by the default. -/
theorem afterDefault_of_some {v : Value} (h : stages.afterAdd = some v) (hv : v ≠ undefined) :
    stages.afterDefault = some v := by
  obtain ⟨heq, -⟩ | ⟨d, -, hread, -⟩ := applyIf_default stages.default
  · rw [heq, h]
  · rw [h, read_some] at hread
    exact absurd hread hv

include hC in
theorem eq_none_of_null (hvalue : C.lookup Operator.value.key = some null)
    (hadd : C.lookup Operator.add.key = none) :
    o' = none := by
  have h₁ : stages.afterValue = none := by
    obtain ⟨hnone, -⟩ | ⟨-, h⟩ | ⟨v, hv, hne, -⟩ := applyIf_value stages.value
    · rw [hnone] at hvalue; cases hvalue
    · exact h
    · exact absurd (Option.some.inj (hv.symm.trans hvalue)) hne
  have h₂ : stages.afterAdd = none := by
    obtain ⟨-, h⟩ | ⟨A, T, hA, -⟩ := applyIf_add hC stages.add
    · rw [h, h₁]
    · rw [hadd] at hA; cases hA
  have h₃ : stages.afterDefault = none := by
    obtain ⟨h, -⟩ | ⟨d, hd, -⟩ := applyIf_default stages.default
    · rw [h, h₂]
    · rw [hC.null_default hvalue] at hd; cases hd
  obtain ⟨-, h⟩ | ⟨S, -, ⟨h, -⟩ | ⟨T, hT, -⟩⟩ := stages.subset_cases hC
  · rw [h, h₃]
  · rw [h, h₃]
  · rw [h₃] at hT; cases hT

theorem afterValue_of_some {v : Value} (hvalue : C.lookup Operator.value.key = some v)
    (hne : v ≠ null) :
    stages.afterValue = some (scopeValue (property = "scope") v) := by
  obtain ⟨hnone, -⟩ | ⟨hnull, -⟩ | ⟨w, hw, -, h⟩ := applyIf_value stages.value
  · rw [hnone] at hvalue; cases hvalue
  · exact absurd (Option.some.inj (hvalue.symm.trans hnull)) hne
  · rw [h, ← Option.some.inj (hvalue.symm.trans hw)]

include hC in
/-- Only an array can be combined with `add` and `subset_of`. -/
theorem eq_of_value {v : Value} (hvalue : C.lookup Operator.value.key = some v) (hne : v ≠ null)
    (harr : ∀ items, v ≠ arr items) : o' = some (scopeValue (property = "scope") v) := by
  have hempty : ∀ X, nullAsEmpty v ≠ arr X := by
    intro X
    unfold nullAsEmpty
    split
    · exact absurd rfl hne
    · exact harr X
  have h₂ : stages.afterAdd = some (scopeValue (property = "scope") v) := by
    obtain ⟨-, h⟩ | ⟨A, T, hA, -⟩ := applyIf_add hC stages.add
    · rw [h, stages.afterValue_of_some hvalue hne]
    · obtain ⟨X, hX, -⟩ := hC.add_value v A hvalue hA
      exact absurd hX (hempty X)
  have hundefined : scopeValue (property = "scope") v ≠ undefined := by
    intro heq
    unfold scopeValue at heq
    split at heq
    · split at heq <;> cases heq
    · cases heq
      have hschema := hC.schema .value _ hvalue
      cases hschema
  have h₃ := stages.afterDefault_of_some h₂ hundefined
  obtain ⟨-, h⟩ | ⟨S, hS, -⟩ := stages.subset_cases hC
  · rw [h, h₃]
  · obtain ⟨X, hX, -⟩ := hC.value_subsetOf v S hvalue hS
    exact absurd hX (hempty X)

include hC in
/-- An array that a policy gives as the value, with the values that it adds. -/
theorem eq_of_arr {X : List Value} (hvalue : C.lookup Operator.value.key = some (arr X)) :
    ∃ T, o' = some (arr T) ∧ (∀ x, x ∈ T ↔ x ∈ X) ∧ (C.lookup Operator.add.key = none → T = X) ∧
      (C.lookup Operator.add.key ≠ none → NoRepeats T ∧ (NoRepeats X → T = X)) := by
  have h₁ := stages.afterValue_of_some hvalue nofun
  rw [scopeValue_arr] at h₁
  have h₂ : ∃ T, stages.afterAdd = some (arr T) ∧ (∀ x, x ∈ T ↔ x ∈ X) ∧
      (C.lookup Operator.add.key = none → T = X) ∧
      (C.lookup Operator.add.key ≠ none → NoRepeats T ∧ (NoRepeats X → T = X)) := by
    obtain ⟨hadd, h⟩ | ⟨A, T, hA, h, htarget⟩ := applyIf_add hC stages.add
    · exact ⟨X, by rw [h, h₁], fun x => Iff.rfl, fun _ => rfl, fun hne => absurd hadd hne⟩
    · rw [h₁, read_some] at htarget
      obtain heq | ⟨-, hnull⟩ := htarget
      · cases heq
        obtain ⟨X', hX', hsub⟩ := hC.add_value _ A hvalue hA
        cases hX'
        refine ⟨union X A, h, fun x => ?_, fun hnone => ?_,
          fun _ => ⟨pairwise_unique _, fun hX => ?_⟩⟩
        · rw [mem_union, or_iff_left_of_imp fun hx => mem_of_includes (hsub x hx)]
        · rw [hA] at hnone
          cases hnone
        · exact union_of_noRepeats hX hsub
      · cases hnull
  obtain ⟨T, hT, hmem, hnone, hsome⟩ := h₂
  have h₃ := stages.afterDefault_of_some hT nofun
  refine ⟨T, ?_, hmem, hnone, hsome⟩
  obtain ⟨-, h⟩ | ⟨S, hS, ⟨h, -⟩ | ⟨T', hT', h⟩⟩ := stages.subset_cases hC
  · rw [h, h₃]
  · rw [h, h₃]
  · rw [h₃] at hT'
    cases hT'
    obtain ⟨X', hX', hsub⟩ := hC.value_subsetOf _ S hvalue hS
    cases hX'
    rw [h, List.filter_eq_self.mpr fun x hx => hsub x ((hmem x).mp hx)]

include hC in
theorem add_subset {A : List Value} (hadd : C.lookup Operator.add.key = some (arr A)) :
    ∃ T, o' = some (arr T) ∧ A ⊆ T := by
  have h₂ : ∃ T, stages.afterAdd = some (arr T) ∧ A ⊆ T := by
    obtain ⟨hnone, -⟩ | ⟨A', T, hA, h, -⟩ := applyIf_add hC stages.add
    · rw [hnone] at hadd; cases hadd
    · cases hadd.symm.trans hA
      exact ⟨_, h, fun x hx => mem_union.mpr (Or.inr hx)⟩
  obtain ⟨T, hT, hsub⟩ := h₂
  have h₃ := stages.afterDefault_of_some hT nofun
  obtain ⟨-, h⟩ | ⟨S, hS, ⟨h, -⟩ | ⟨T', hT', h⟩⟩ := stages.subset_cases hC
  · exact ⟨T, by rw [h, h₃], hsub⟩
  · exact ⟨T, by rw [h, h₃], hsub⟩
  · rw [h₃] at hT'
    cases hT'
    exact ⟨_, h, fun x hx => List.mem_filter.mpr ⟨hsub hx, hC.add_subsetOf A S hadd hS x hx⟩⟩

include hC in
/-- A policy with `one_of` has no operators that change the value after it. -/
theorem mem_oneOf {items : List Value} (honeOf : C.lookup Operator.oneOf.key = some (arr items))
    {w : Value} (hw : o' = some w) (hpresent : isNullOrUndefined w = false) : includes items w := by
  have hsubset : C.lookup Operator.subsetOf.key = none :=
    (hC.oneOf_alone (by rw [honeOf]; exact nofun)).2.1
  obtain ⟨-, h⟩ | ⟨S, hS, -⟩ := stages.subset_cases hC
  · obtain hnull | ⟨items', hitems', hincludes⟩ := (applyIf_oneOf stages.oneOf).2 _ honeOf
    · rw [← h, hw, read_some, hpresent] at hnull
      cases hnull
    · rw [scopeValue_arr] at hitems'
      cases hitems'
      rwa [← h, hw, read_some] at hincludes
  · rw [hsubset] at hS; cases hS

include hC in
theorem subset_subsetOf {S : List Value}
    (hsubset : C.lookup Operator.subsetOf.key = some (arr S)) {w : Value} (hw : o' = some w)
    (hpresent : isNullOrUndefined w = false) : ∃ T, w = arr T ∧ T ⊆ S := by
  obtain ⟨hnone, -⟩ | ⟨S', hS', ⟨h, hnull⟩ | ⟨T, -, h⟩⟩ := stages.subset_cases hC
  · rw [hnone] at hsubset; cases hsubset
  · rw [← h, hw, read_some, hpresent] at hnull
    cases hnull
  · cases hsubset.symm.trans hS'
    exact ⟨_, Option.some.inj (hw.symm.trans h),
      fun x hx => mem_of_includes (List.mem_filter.mp hx).2⟩

include hC in
theorem supersetOf_subset {S : List Value}
    (hsuperset : C.lookup Operator.supersetOf.key = some (arr S)) {w : Value} (hw : o' = some w)
    (hpresent : isNullOrUndefined w = false) : ∃ T, w = arr T ∧ S ⊆ T := by
  obtain hnull | ⟨S', T, hS', hT, hsub⟩ := (applyIf_supersetOf hC stages.supersetOf).2 _ hsuperset
  · rw [hw, read_some, hpresent] at hnull
    cases hnull
  · cases hS'
    exact ⟨T, Option.some.inj (hw.symm.trans hT), hsub⟩

include hC in
/-- A parameter that is absent after all operators was absent, and no policy gives a value for
it. -/
theorem none_of_essential (hessential : C.lookup Operator.essential.key = some (Value.bool true))
    (ho' : o' = none) :
    isInherited property ∧ o = none ∧ C.lookup Operator.value.key = none := by
  have hread := (applyIf_essential stages.essential).2 hessential
  rw [ho'] at hread
  refine ⟨isInherited_iff.mpr hread, ?_⟩
  have h₃ : stages.afterDefault = none := by
    obtain ⟨-, h⟩ | ⟨S, -, ⟨h, -⟩ | ⟨T, -, h⟩⟩ := stages.subset_cases hC
    · rw [← h, ho']
    · rw [← h, ho']
    · rw [ho'] at h; cases h
  have h₂ : stages.afterAdd = none := by
    obtain ⟨h, -⟩ | ⟨d, -, -, h⟩ := applyIf_default stages.default
    · rw [← h, h₃]
    · rw [h₃] at h; cases h
  have h₁ : stages.afterValue = none := by
    obtain ⟨-, h⟩ | ⟨A, T, -, h, -⟩ := applyIf_add hC stages.add
    · rw [← h, h₂]
    · rw [h₂] at h; cases h
  obtain ⟨hnone, h⟩ | ⟨hnull, -⟩ | ⟨v, -, -, h⟩ := applyIf_value stages.value
  · exact ⟨h.symm.trans h₁, hnone⟩
  · exact absurd hessential (hC.null_essential hnull)
  · rw [h₁] at h; cases h

include hC in
/-- An inherited member stays in the place of a parameter that no policy gives a value for. -/
theorem none_of_inherited (hinherited : isInherited property) (ho : o = none)
    (hvalue : C.lookup Operator.value.key = none) : o' = none := by
  have hread : isNullOrUndefined (read property none) = false := isInherited_iff.mp hinherited
  have h₁ : stages.afterValue = none := by
    obtain ⟨-, h⟩ | ⟨hnull, -⟩ | ⟨v, hv, -⟩ := applyIf_value stages.value
    · rw [h, ho]
    · rw [hvalue] at hnull; cases hnull
    · rw [hvalue] at hv; cases hv
  have h₂ : stages.afterAdd = none := by
    obtain ⟨-, h⟩ | ⟨A, T, -, -, h | ⟨-, h⟩⟩ := applyIf_add hC stages.add
    · rw [h, h₁]
    · rw [h₁] at h; cases h
    · rw [h₁, hread] at h; cases h
  have h₃ : stages.afterDefault = none := by
    obtain ⟨h, -⟩ | ⟨d, -, h, -⟩ := applyIf_default stages.default
    · rw [h, h₂]
    · rw [h₂] at h
      rw [h] at hread
      cases hread
  obtain ⟨-, h⟩ | ⟨S, -, ⟨h, -⟩ | ⟨T, h, -⟩⟩ := stages.subset_cases hC
  · rw [h, h₃]
  · rw [h, h₃]
  · rw [h₃] at h; cases h

end Stages

end IdentityCommon.OpenidFederation
