import IdentityCommon.OpenidFederation.PolicyConditions

/-!
# The algebra of policies

Merging the policies of one parameter, two of them and a list of them.

## Main definitions

- `mergePolicies`, `mergeAll` — two policies merged, and a list of policies from the first one on
- `SamePolicy` — the same policy, up to the order of sets
- `SelfMergeable` — a policy that can be merged with an equal one

## Main results

- `mergePolicies_self_iff` — when merging two equal policies succeeds and changes nothing
- `mergePolicies_assoc` — merging is associative
- `mergeAll_split` — a list of policies may be split
-/

namespace IdentityCommon.OpenidFederation

open IdentityCommon.Except AssocList Ecma Value KeyedFold PartialMerge

/-- A policy of a parameter, as a statement has it. -/
structure Accepted (C : Members) : Prop where
  nodup : (keys C).Nodup
  valid : zMetadataPolicy C = .ok ()

theorem Accepted.conditions {C : Members} (h : Accepted C) : Conditions C :=
  zMetadataPolicy_iff.mp h.valid

/-- Combining the policies of two statements, as `combineRules` does where there already is one. -/
def mergePolicies (path : String) (existing new : Members) : Except PolicyError Members := do
  let combined ← combineExistingMetadataPolicyOperators path existing new
  zMetadataPolicy combined
  return combined

/-- The policies of a parameter, from the trust anchor down. -/
def mergeAll (path : String) (first : Members) (policies : List Members) :
    Except PolicyError Members :=
  policies.foldlM (mergePolicies path) first

/-- Values of a key of a policy that are equal, up to the order of a set. -/
def SameEntry (key : String) (v w : Value) : Prop :=
  match ofKey key with
  | some op => SameValue op v w
  | none => v = w

/-- The same policy, up to the order of the members and of the sets. -/
def SamePolicy (P Q : Members) : Prop :=
  ∀ key, Option.Rel (SameEntry key) (P.lookup key) (Q.lookup key)

theorem mergePolicies_eq_ok {path : String} {A B C : Members} : mergePolicies path A B = .ok C ↔
    combineExistingMetadataPolicyOperators path A B = .ok C ∧ zMetadataPolicy C = .ok () := by
  constructor
  · intro h
    obtain ⟨C', hC, h⟩ := bind_eq_ok.mp h
    obtain ⟨⟨⟩, hvalid, h⟩ := bind_eq_ok.mp h
    cases h
    exact ⟨hC, hvalid⟩
  · rintro ⟨hC, hvalid⟩
    exact bind_eq_ok.mpr ⟨C, hC, bind_eq_ok.mpr ⟨(), hvalid, rfl⟩⟩

/-! ## The operators of a combined policy -/

/-- A rule for an operator merges it into the policy. -/
theorem combineRule_op {path : String} {op : Operator} {v : Value} {C C' : Members} :
    combineRule path C (op.key, v) = .ok C' ↔
      ∃ r, mergeOption (mergeOperator path op) (C.lookup op.key) (some v) = .ok (some r) ∧
        C' = AssocList.insert op.key r C := by
  rw [combineRule, isExistingPolicyKey, ofKey_key]
  simp only [Option.isSome_some, Bool.true_or, Bool.not_true, Bool.false_eq_true, if_false]
  cases C.lookup op.key with
  | none =>
    constructor
    · intro h
      cases h
      exact ⟨v, rfl, rfl⟩
    · rintro ⟨r, hr, rfl⟩
      cases hr
      rfl
  | some existing =>
    show (mergeOperator path op existing v >>=
      fun merged => pure (AssocList.insert op.key merged C)) = .ok C' ↔ _
    rw [bind_eq_ok]
    refine exists_congr fun r => and_congr ?_ ⟨fun h => (Except.ok.inj h).symm,
      fun h => congrArg _ h.symm⟩
    rw [mergeOption, map_eq_ok]
    constructor
    · exact fun h => ⟨r, h, rfl⟩
    · rintro ⟨r', h, heq⟩
      rwa [← Option.some.inj heq]

/-- A rule that is not for an operator is skipped. -/
theorem combineRule_unknown {path key : String} {v : Value} {C C' : Members}
    (hkey : ofKey key = none) :
    combineRule path C (key, v) = .ok C' ↔ isInherited key = false ∧ C' = C := by
  rw [combineRule, isExistingPolicyKey, hkey, Option.isSome_none, Bool.false_or]
  cases isInherited key with
  | false => exact ⟨fun h => ⟨rfl, (Except.ok.inj h).symm⟩, fun h => congrArg _ h.2.symm⟩
  | true => exact iff_of_false (error_ne_ok _ _) fun h => absurd h.1.symm Bool.false_ne_true

section Combine

variable {path : String} {A B C : Members}
    (h : combineExistingMetadataPolicyOperators path A B = .ok C)
include h

theorem combineExisting_nodup (hA : (keys A).Nodup) : (keys C).Nodup :=
  foldlM_invariant (motive := fun c => (keys c).Nodup)
    (fun _ _ _ _ hs hstep => combineRule_nodup hs hstep) hA h

/-- The value of an operator is merged from those of both policies. -/
theorem combineExisting_op (hB : (keys B).Nodup) (op : Operator) :
    mergeOption (mergeOperator path op) (A.lookup op.key) (B.lookup op.key) =
      .ok (C.lookup op.key) := by
  have hframe : ∀ rule ∈ B, rule.1 ≠ op.key → ∀ s s', combineRule path s rule = .ok s' →
      s'.lookup op.key = s.lookup op.key := fun rule _ hne s s' hs => combineRule_frame hne hs
  cases hl : B.lookup op.key with
  | none =>
    rw [mergeOption_none_right]
    exact congrArg Except.ok
      (foldlM_of_not_mem (f := fun c : Members => c.lookup op.key) hl hframe h).symm
  | some v =>
    obtain ⟨s, s', hstep, hs, hs'⟩ :=
      foldlM_at (f := fun c : Members => c.lookup op.key) hB hl hframe h
    obtain ⟨r, hr, rfl⟩ := combineRule_op.mp hstep
    rw [← show s.lookup op.key = A.lookup op.key from hs, hr,
      show C.lookup op.key = (AssocList.insert op.key r s).lookup op.key from hs',
        lookup_insert, if_pos rfl]

/-- What is not an operator stays as it is. -/
theorem combineExisting_unknown {key : String} (hkey : ofKey key = none) :
    C.lookup key = A.lookup key := by
  refine foldlM_frame (f := fun c : Members => c.lookup key) (fun rule _ s s' hs => ?_) h
  by_cases hrule : rule.1 = key
  · obtain ⟨k, v⟩ := rule
    obtain rfl : k = key := hrule
    rw [((combineRule_unknown hkey).mp hs).2]
  · exact combineRule_frame hrule hs

end Combine

/-- Policies can be combined when the values of each operator can be merged. -/
theorem exists_combineExisting {path : String} {A B : Members} (hB : Accepted B)
    (h : ∀ op : Operator, ∃ r, mergeOption (mergeOperator path op) (A.lookup op.key)
      (B.lookup op.key) = .ok r) :
    ∃ C, combineExistingMetadataPolicyOperators path A B = .ok C := by
  refine exists_foldlM_eq_ok (g := fun key (c : Members) => c.lookup key) hB.nodup
    (fun rule _ key hne s s' hs => combineRule_frame hne hs) fun rule hrule s hs => ?_
  obtain ⟨key, v⟩ := rule
  cases hkey : ofKey key with
  | none =>
    have hknown := hB.conditions.known key (mem_keys_of_mem hrule) hkey
    exact ⟨s, (combineRule_unknown hkey).mpr ⟨hknown, rfl⟩⟩
  | some op =>
    obtain rfl := ofKey_eq_some.mp hkey
    obtain ⟨r, hr⟩ := h op
    rw [lookup_of_mem hB.nodup hrule, ← show s.lookup op.key = A.lookup op.key from hs] at hr
    cases r with
    | some r => exact ⟨_, combineRule_op.mpr ⟨r, hr, rfl⟩⟩
    | none =>
      cases hl : s.lookup op.key with
      | none =>
        rw [hl] at hr
        cases hr
      | some w =>
        rw [hl] at hr
        obtain ⟨_, _, heq⟩ := map_eq_ok.mp hr
        cases heq

/-! ## Merging two policies -/

section Values

variable {path : String} {op : Operator} {a b r : Option Value}

theorem mergeOption_mergeOperator (h : mergeOption (mergeValid path op) a b = .ok r) :
    mergeOption (mergeOperator path op) a b = .ok r := by
  cases a with
  | none => exact h
  | some v =>
    cases b with
    | none => exact h
    | some w =>
      obtain ⟨x, hx, rfl⟩ := map_eq_ok.mp h
      obtain ⟨y, hy, hx⟩ := bind_eq_ok.mp hx
      obtain ⟨-, rfl⟩ := ite_ok_iff.mp hx
      exact map_eq_ok.mpr ⟨x, hy, rfl⟩

theorem mergeOption_mergeValid (h : mergeOption (mergeOperator path op) a b = .ok r)
    (hr : ∀ v, r = some v → op.operatorSchema v) :
    mergeOption (mergeValid path op) a b = .ok r := by
  cases a with
  | none => exact h
  | some v =>
    cases b with
    | none => exact h
    | some w =>
      obtain ⟨x, hx, rfl⟩ := map_eq_ok.mp h
      exact map_eq_ok.mpr ⟨x, bind_eq_ok.mpr ⟨x, hx, if_pos (hr x rfl)⟩, rfl⟩

theorem schema_of_mergeOption (h : mergeOption (mergeValid path op) a b = .ok r)
    (ha : ∀ v, a = some v → op.operatorSchema v) (hb : ∀ v, b = some v → op.operatorSchema v) :
    ∀ v, r = some v → op.operatorSchema v := by
  cases a with
  | none => exact Except.ok.inj h ▸ hb
  | some v =>
    cases b with
    | none => exact Except.ok.inj h ▸ ha
    | some w =>
      obtain ⟨x, hx, rfl⟩ := map_eq_ok.mp h
      intro v' heq
      exact Option.some.inj heq ▸ operatorSchema_merged hx

/-- A merged value is at least as strict as both values. -/
theorem refines_of_mergeOption (h : mergeOption (mergeValid path op) a b = .ok r) :
    (∀ v, a = some v → ∃ w, r = some w ∧ Refines op w v) ∧ ∀ v, b = some v → ∃ w, r = some w ∧
    Refines op w v := by
  cases a with
  | none =>
    cases h
    exact ⟨nofun, fun v hv => ⟨v, hv, Refines.refl op v⟩⟩
  | some v =>
    cases b with
    | none =>
      cases h
      exact ⟨fun v hv => ⟨v, hv, Refines.refl op v⟩, nofun⟩
    | some w =>
      obtain ⟨x, hx, rfl⟩ := map_eq_ok.mp (mergeOption_mergeOperator h)
      obtain ⟨hv, hw⟩ := mergeOperator_refines hx
      exact ⟨fun v' heq => ⟨x, rfl, Option.some.inj heq ▸ hv⟩,
        fun w' heq => ⟨x, rfl, Option.some.inj heq ▸ hw⟩⟩

end Values

/-- What two policies are merged to. -/
structure MergedFrom (path : String) (A B C : Members) : Prop where
  accepted : Accepted C
  op : ∀ op : Operator, mergeOption (mergeValid path op) (A.lookup op.key) (B.lookup op.key) =
    .ok (C.lookup op.key)
  unknown : ∀ key, ofKey key = none → C.lookup key = A.lookup key

theorem mergedFrom_of_mergePolicies {path : String} {A B C : Members} (hA : Accepted A)
    (hB : Accepted B) (h : mergePolicies path A B = .ok C) : MergedFrom path A B C := by
  obtain ⟨hC, hvalid⟩ := mergePolicies_eq_ok.mp h
  have haccepted : Accepted C := ⟨combineExisting_nodup hC hA.nodup, hvalid⟩
  exact ⟨haccepted, fun op => mergeOption_mergeValid (combineExisting_op hC hB.nodup op)
    (haccepted.conditions.schema op), fun key hkey => combineExisting_unknown hC hkey⟩

/-- Policies can be merged when the values of each operator can, to a policy that is less strict
than one that meets the conditions. -/
theorem exists_mergePolicies {path : String} {A B D : Members} (hA : Accepted A) (hB : Accepted B)
    (hD : Conditions D) {F : Operator → Option Value}
    (hF : ∀ op : Operator, mergeOption (mergeValid path op) (A.lookup op.key)
      (B.lookup op.key) = .ok (F op))
    (href : ∀ op v, F op = some v → ∃ w, D.lookup op.key = some w ∧ Refines op w v) :
    ∃ C, mergePolicies path A B = .ok C ∧ ∀ op : Operator, C.lookup op.key = F op := by
  obtain ⟨C, hC⟩ := exists_combineExisting hB fun op => ⟨F op, mergeOption_mergeOperator (hF op)⟩
  have hop (op : Operator) : C.lookup op.key = F op :=
    Except.ok.inj ((combineExisting_op hC hB.nodup op).symm.trans
      (mergeOption_mergeOperator (hF op)))
  have hconditions : Conditions C := by
    refine hD.of_refines (fun op v hv => ?_) (fun key hkey hunknown => ?_) fun op v hv =>
      href op v (hop op ▸ hv)
    · exact schema_of_mergeOption (hF op) (hA.conditions.schema op)
        (hB.conditions.schema op) v (hop op ▸ hv)
    · refine hA.conditions.known key ?_ hunknown
      rw [← lookup_isSome_iff, ← combineExisting_unknown hC hunknown]
      exact lookup_isSome_iff.mpr hkey
  exact ⟨C, mergePolicies_eq_ok.mpr ⟨hC, zMetadataPolicy_iff.mpr hconditions⟩, hop⟩

/-! ## Associativity -/

/-- Policies that are accepted, and the same. -/
structure SameAccepted (A B : Members) : Prop where
  left : Accepted A
  right : Accepted B
  same : SamePolicy A B

theorem sameEntry_op {op : Operator} {v w : Value} : SameEntry op.key v w ↔ SameValue op v w := by
  rw [SameEntry, ofKey_key]

theorem sameEntry_unknown {key : String} (hkey : ofKey key = none) {v w : Value} :
    SameEntry key v w ↔ v = w := by
  rw [SameEntry, hkey]

theorem SameEntry.refl (key : String) (v : Value) : SameEntry key v v := by
  unfold SameEntry
  split
  · exact SameValue.refl _ v
  · rfl

theorem SamePolicy.refl (A : Members) : SamePolicy A A := by
  intro key
  cases A.lookup key with
  | none => exact .none
  | some v => exact .some (SameEntry.refl key v)

theorem SamePolicy.symm {A B : Members} (h : SamePolicy A B) : SamePolicy B A := by
  intro key
  obtain ⟨ha, hb⟩ | ⟨v, w, ha, hb, hvw⟩ := rel_iff.mp (h key)
  · exact rel_iff.mpr (Or.inl ⟨hb, ha⟩)
  · refine rel_iff.mpr (Or.inr ⟨w, v, hb, ha, ?_⟩)
    unfold SameEntry at hvw ⊢
    split
    case h_1 op hop =>
      rw [hop] at hvw
      exact hvw.symm
    case h_2 hop =>
      rw [hop] at hvw
      exact hvw.symm

theorem SamePolicy.trans {A B C : Members} (h : SamePolicy A B) (h' : SamePolicy B C) :
    SamePolicy A C := by
  intro key
  have hkey' := h' key
  obtain ⟨ha, hb⟩ | ⟨u, v, ha, hb, huv⟩ := rel_iff.mp (h key)
  · rw [ha]
    rwa [hb] at hkey'
  · obtain ⟨hb', -⟩ | ⟨v', w, hb', hc, hvw⟩ := rel_iff.mp hkey'
    · cases hb.symm.trans hb'
    · cases hb.symm.trans hb'
      refine rel_iff.mpr (Or.inr ⟨u, w, ha, hc, ?_⟩)
      unfold SameEntry at huv hvw ⊢
      split
      case h_1 op hop =>
        rw [hop] at huv hvw
        exact huv.trans hvw
      case h_2 hop =>
        rw [hop] at huv hvw
        exact huv.trans hvw

theorem SameAccepted.refl {A : Members} (h : Accepted A) : SameAccepted A A :=
  ⟨h, h, SamePolicy.refl A⟩

theorem SameAccepted.symm {A B : Members} (h : SameAccepted A B) : SameAccepted B A :=
  ⟨h.right, h.left, h.same.symm⟩

theorem SameAccepted.op {A B : Members} (h : SameAccepted A B) (op : Operator) :
    Option.Rel (SameValid op) (A.lookup op.key) (B.lookup op.key) := by
  have hA := h.left.conditions.schema op
  have hB := h.right.conditions.schema op
  obtain ⟨ha, hb⟩ | ⟨v, w, ha, hb, hvw⟩ := rel_iff.mp (h.same op.key)
  · exact rel_iff.mpr (Or.inl ⟨ha, hb⟩)
  · exact rel_iff.mpr (Or.inr ⟨v, w, ha, hb, hA v ha, hB w hb, sameEntry_op.mp hvw⟩)

theorem SameAccepted.unknown {A B : Members} (h : SameAccepted A B) {key : String}
    (hkey : ofKey key = none) :
    A.lookup key = B.lookup key := by
  obtain ⟨ha, hb⟩ | ⟨v, w, ha, hb, hvw⟩ := rel_iff.mp (h.same key)
  · rw [ha, hb]
  · rw [ha, hb, (sameEntry_unknown hkey).mp hvw]

theorem samePolicy_of {P Q : Members}
    (hop : ∀ op : Operator, Option.Rel (SameValid op) (P.lookup op.key) (Q.lookup op.key))
    (hunknown : ∀ key, ofKey key = none → P.lookup key = Q.lookup key) : SamePolicy P Q := by
  intro key
  cases hkey : ofKey key with
  | none =>
    rw [hunknown key hkey]
    exact SamePolicy.refl Q key
  | some op =>
    obtain rfl := ofKey_eq_some.mp hkey
    obtain hnone | ⟨v, w, ha, hb, hvw⟩ := rel_iff.mp (hop op)
    · exact rel_iff.mpr (Or.inl hnone)
    · exact rel_iff.mpr (Or.inr ⟨v, w, ha, hb, sameEntry_op.mpr hvw.2.2⟩)

theorem refines_of_rel {op : Operator} {a b : Option Value} (h : Option.Rel (SameValid op) a b) :
    ∀ v, b = some v → ∃ w, a = some w ∧ Refines op w v := by
  cases h with
  | none => exact nofun
  | some hvw => exact fun v heq => ⟨_, rfl, Option.some.inj heq ▸ hvw.2.2.refines⟩

section Merge

variable {path : String} {A A' B B' C D P Q : Members}

theorem mergePolicies_congr (hA : SameAccepted A A') (hB : SameAccepted B B')
    (h : mergePolicies path A B = .ok C) :
    ∃ C', mergePolicies path A' B' = .ok C' ∧ SameAccepted C C' := by
  have hC := mergedFrom_of_mergePolicies hA.left hB.left h
  have hex (op : Operator) :=
    ((mergeValid_assoc path op).option.congr (hA.op op) (hB.op op)).exists_right (hC.op op)
  choose F hF hrel using hex
  obtain ⟨C', hmerge, hop⟩ := exists_mergePolicies hA.right hB.right hC.accepted.conditions hF
    fun op => refines_of_rel (hrel op)
  have hC' := mergedFrom_of_mergePolicies hA.right hB.right hmerge
  refine ⟨C', hmerge, hC.accepted, hC'.accepted,
    samePolicy_of (fun op => hop op ▸ hrel op) fun key hkey => ?_⟩
  rw [hC.unknown key hkey, hC'.unknown key hkey, hA.unknown hkey]

/-- What is merged from the left can be merged from the right. -/
theorem mergePolicies_regroup (hA : Accepted A) (hB : Accepted B) (hC : Accepted C)
    (hD : mergePolicies path A B = .ok D) (hP : mergePolicies path D C = .ok P) :
    ∃ Q P', mergePolicies path B C = .ok Q ∧ mergePolicies path A Q = .ok P' ∧
    SameAccepted P P' := by
  have hD := mergedFrom_of_mergePolicies hA hB hD
  have hP := mergedFrom_of_mergePolicies hD.accepted hC hP
  have hex (op : Operator) : ∃ q p, mergeOption (mergeValid path op) (B.lookup op.key)
      (C.lookup op.key) = .ok q ∧
      mergeOption (mergeValid path op) (A.lookup op.key) q = .ok p ∧
      Option.Rel (SameValid op) (P.lookup op.key) p := by
    have hassoc := (mergeValid_assoc path op).option.assoc ((SameAccepted.refl hA).op op)
      ((SameAccepted.refl hB).op op) ((SameAccepted.refl hC).op op)
    obtain ⟨p, hp, hrel⟩ := hassoc.exists_right (bind_eq_ok.mpr ⟨_, hD.op op, hP.op op⟩)
    obtain ⟨q, hq, hp⟩ := bind_eq_ok.mp hp
    exact ⟨q, p, hq, hp, hrel⟩
  choose q p hq hp hrel using hex
  -- the policy merged first is less strict than the one merged from all
  have hstrict (op : Operator) (v : Value) (hv : q op = some v) : ∃ w, P.lookup op.key = some w ∧
      Refines op w v := by
    obtain ⟨u, hu, huv⟩ := (refines_of_mergeOption (hp op)).2 v hv
    obtain ⟨w, hw, hwu⟩ := refines_of_rel (hrel op) u hu
    exact ⟨w, hw, hwu.trans huv⟩
  obtain ⟨Q, hQ, hQop⟩ := exists_mergePolicies hB hC hP.accepted.conditions hq hstrict
  have hQ' := mergedFrom_of_mergePolicies hB hC hQ
  obtain ⟨P', hP', hop⟩ := exists_mergePolicies hA hQ'.accepted hP.accepted.conditions
    (fun op => (hQop op).symm ▸ hp op) fun op => refines_of_rel (hrel op)
  have hmerged := mergedFrom_of_mergePolicies hA hQ'.accepted hP'
  refine ⟨Q, P', hQ, hP', hP.accepted, hmerged.accepted,
    samePolicy_of (fun op => hop op ▸ hrel op) fun key hkey => ?_⟩
  rw [hP.unknown key hkey, hD.unknown key hkey, hmerged.unknown key hkey]

/-- What is merged from the right can be merged from the left. -/
theorem mergePolicies_regroup' (hA : Accepted A) (hB : Accepted B) (hC : Accepted C)
    (hQ : mergePolicies path B C = .ok Q) (hP : mergePolicies path A Q = .ok P) :
    ∃ D P', mergePolicies path A B = .ok D ∧ mergePolicies path D C = .ok P' := by
  have hQ := mergedFrom_of_mergePolicies hB hC hQ
  have hP := mergedFrom_of_mergePolicies hA hQ.accepted hP
  have hex (op : Operator) : ∃ d p, mergeOption (mergeValid path op) (A.lookup op.key)
      (B.lookup op.key) = .ok d ∧
      mergeOption (mergeValid path op) d (C.lookup op.key) = .ok p ∧
      Option.Rel (SameValid op) (P.lookup op.key) p := by
    have hassoc := (mergeValid_assoc path op).option.assoc ((SameAccepted.refl hA).op op)
      ((SameAccepted.refl hB).op op) ((SameAccepted.refl hC).op op)
    obtain ⟨p, hp, hrel⟩ := hassoc.exists_left (bind_eq_ok.mpr ⟨_, hQ.op op, hP.op op⟩)
    obtain ⟨d, hd, hp⟩ := bind_eq_ok.mp hp
    exact ⟨d, p, hd, hp, (mergeValid_assoc path op).option.symm _ _ hrel⟩
  choose d p hd hp hrel using hex
  have hstrict (op : Operator) (v : Value) (hv : d op = some v) : ∃ w, P.lookup op.key = some w ∧
      Refines op w v := by
    obtain ⟨u, hu, huv⟩ := (refines_of_mergeOption (hp op)).1 v hv
    obtain ⟨w, hw, hwu⟩ := refines_of_rel (hrel op) u hu
    exact ⟨w, hw, hwu.trans huv⟩
  obtain ⟨D, hD, hDop⟩ := exists_mergePolicies hA hB hP.accepted.conditions hd hstrict
  have hD' := mergedFrom_of_mergePolicies hA hB hD
  obtain ⟨P', hP', -⟩ := exists_mergePolicies hD'.accepted hC hP.accepted.conditions
    (fun op => (hDop op).symm ▸ hp op) fun op => refines_of_rel (hrel op)
  exact ⟨D, P', hD, hP'⟩

/-- Merging policies is associative. -/
theorem mergePolicies_assoc (path : String) : IsAssocUpTo SameAccepted (mergePolicies path) where
  symm := fun _ _ h => h.symm
  trans := fun _ _ _ h h' => ⟨h.left, h'.right, h.same.trans h'.same⟩
  congr := fun hA hB => agree_of_forall (fun _ hC => mergePolicies_congr hA hB hC) fun _ hC => by
    obtain ⟨C', hC', -⟩ := mergePolicies_congr hA.symm hB.symm hC
    exact ⟨C', hC'⟩
  assoc := by
    intro A B C hA hB hC
    refine agree_of_forall (fun P hP => ?_) fun P hP => ?_
    · obtain ⟨D, hD, hP⟩ := bind_eq_ok.mp hP
      obtain ⟨Q, P', hQ, hP', hsame⟩ := mergePolicies_regroup hA.left hB.left hC.left hD hP
      exact ⟨P', bind_eq_ok.mpr ⟨Q, hQ, hP'⟩, hsame⟩
    · obtain ⟨Q, hQ, hP⟩ := bind_eq_ok.mp hP
      obtain ⟨D, P', hD, hP'⟩ := mergePolicies_regroup' hA.left hB.left hC.left hQ hP
      exact ⟨P', bind_eq_ok.mpr ⟨D, hD, hP'⟩⟩

end Merge

/-- A list of policies may be split: the parts are merged, and then their results. -/
theorem mergeAll_split {path : String} {A B : Members} {l l' : List Members} (hA : Accepted A)
    (hl : ∀ C ∈ l, Accepted C) (hB : Accepted B) (hl' : ∀ C ∈ l', Accepted C) :
    Agree SameAccepted (mergeAll path A (l ++ B :: l')) (do
      let x ← mergeAll path A l
      let y ← mergeAll path B l'
      mergePolicies path x y) :=
  (mergePolicies_assoc path).foldlM_split (.refl hA) (fun C hC => .refl (hl C hC))
    (.refl hB) fun C hC => .refl (hl' C hC)

/-! ## Equal policies -/

/-- A policy whose value and default are neither objects nor arrays with objects or arrays, and
whose `one_of` is not empty. -/
def SelfMergeable (A : Members) : Prop :=
  (∀ v, A.lookup Operator.value.key = some v → isFlat v) ∧
  (∀ v, A.lookup Operator.default.key = some v → isFlat v) ∧
    A.lookup Operator.oneOf.key ≠ some (arr [])

/-- When two equal values of an operator can be merged; then nothing changes. -/
theorem mergeable_same {op : Operator} {v w : Value} (h : SameValid op v w) :
    (Mergeable op v w ↔ (op = .value ∨ op = .default → isFlat v) ∧ (op = .oneOf → v ≠ arr [])) ∧
      SameValue op (merged op v w) v := by
  obtain ⟨hv, hw, hsame⟩ := h
  have hunion (hs : op.isSet) (x : Value) : x ∈ union (elements v) (elements w) ↔
      x ∈ elements v := by
    rw [SameValue, if_pos hs] at hsame
    rw [mem_union, ← hsame, or_self]
  have hinter (hs : op.isSet) (x : Value) : x ∈ intersect (elements v) (elements w) ↔
      x ∈ elements v := by
    rw [SameValue, if_pos hs] at hsame
    rw [mem_intersect hs hw, ← hsame, and_self]
  -- the operators with no condition on their values
  have hfree (hvalue : op ≠ .value) (hdefault : op ≠ .default) (honeOf : op ≠ .oneOf) :
      (op = .value ∨ op = .default → isFlat v) ∧ (op = .oneOf → v ≠ arr []) :=
    ⟨fun h => (h.elim hvalue hdefault).elim, fun h => absurd h honeOf⟩
  cases op with
  | value => exact ⟨⟨fun h => ⟨fun _ => h.2, fun heq => by cases heq⟩,
      fun h => ⟨hsame, h.1 (Or.inl rfl)⟩⟩, rfl⟩
  | default => exact ⟨⟨fun h => ⟨fun _ => h.2, fun heq => by cases heq⟩,
      fun h => ⟨hsame, h.1 (Or.inr rfl)⟩⟩, rfl⟩
  | essential =>
    obtain ⟨a, rfl⟩ := bool_of_essential hv
    obtain rfl : Value.bool a = w := hsame
    refine ⟨iff_of_true trivial (hfree (by decide) (by decide) (by decide)), ?_⟩
    show Value.bool (a || a) = Value.bool a
    rw [Bool.or_self]
  | add =>
    refine ⟨iff_of_true ?_ (hfree (by decide) (by decide) (by decide)), hunion rfl⟩
    exact operatorSchema_of_subset rfl hv fun x hx => (hunion rfl x).mp hx
  | supersetOf =>
    obtain ⟨a, rfl⟩ := exists_arr_of_isSet rfl hv
    refine ⟨iff_of_true ?_ (hfree (by decide) (by decide) (by decide)), hunion rfl⟩
    have hadd : Operator.add.operatorSchema (arr a) := hv
    exact operatorSchema_of_subset rfl hadd fun x hx => (hunion rfl x).mp hx
  | subsetOf => exact ⟨iff_of_true trivial (hfree (by decide) (by decide) (by decide)), hinter rfl⟩
  | oneOf =>
    obtain ⟨a, rfl⟩ := exists_arr_of_isSet rfl hv
    refine ⟨?_, hinter rfl⟩
    show ¬intersect (elements (arr a)) (elements w) = [] ↔ _
    rw [eq_nil_congr (hinter rfl)]
    constructor
    · refine fun h => ⟨fun hop => ?_, fun _ heq => h (arr.inj heq)⟩
      rcases hop with hop | hop <;> cases hop
    · exact fun h heq => h.2 rfl (congrArg arr heq)

/-- Merging two equal policies succeeds and changes nothing, for the policies that can be merged
with themselves. -/
theorem mergePolicies_self_iff {path : String} {A B : Members} (h : SameAccepted A B) :
    (∃ C, mergePolicies path A B = .ok C ∧ SamePolicy C A) ↔ SelfMergeable A := by
  constructor
  · rintro ⟨C, hC, -⟩
    have hmerged := mergedFrom_of_mergePolicies h.left h.right hC
    have hop (op : Operator) (v : Value) (hv : A.lookup op.key = some v) :
        (op = .value ∨ op = .default → isFlat v) ∧ (op = .oneOf → v ≠ arr []) := by
      have hmerge := hmerged.op op
      obtain ⟨ha, -⟩ | ⟨v', w, ha, hb, hsame⟩ := rel_iff.mp (h.op op)
      · rw [ha] at hv
        cases hv
      · rw [ha, hb] at hmerge
        obtain ⟨r, hr, -⟩ := map_eq_ok.mp hmerge
        cases hv.symm.trans ha
        exact (mergeable_same hsame).1.mp ((mergeValid_eq_ok hsame.1 hsame.2.1).mp hr).1
    exact ⟨fun v hv => (hop .value v hv).1 (Or.inl rfl),
      fun v hv => (hop .default v hv).1 (Or.inr rfl), fun heq => (hop .oneOf _ heq).2 rfl rfl⟩
  · rintro ⟨hvalue, hdefault, honeOf⟩
    have hex (op : Operator) : ∃ r, mergeOption (mergeValid path op) (A.lookup op.key)
        (B.lookup op.key) = .ok r ∧
        Option.Rel (SameValid op) (A.lookup op.key) r := by
      obtain ⟨ha, hb⟩ | ⟨v, w, ha, hb, hsame⟩ := rel_iff.mp (h.op op)
      · exact ⟨none, by rw [ha, hb]; rfl, by rw [ha]; exact .none⟩
      · obtain ⟨hiff, hself⟩ := mergeable_same hsame
        have hmergeable : Mergeable op v w := by
          refine hiff.mpr ⟨?_, ?_⟩
          · rintro (rfl | rfl)
            · exact hvalue v ha
            · exact hdefault v ha
          · rintro rfl rfl
            exact honeOf ha
        refine ⟨some (merged op v w), ?_, ?_⟩
        · rw [ha, hb]
          exact map_eq_ok.mpr ⟨_, (mergeValid_eq_ok hsame.1 hsame.2.1).mpr ⟨hmergeable, rfl⟩, rfl⟩
        · rw [ha]
          exact .some ⟨hsame.1, hmergeable.operatorSchema hsame.1, hself.symm⟩
    choose F hF hrel using hex
    obtain ⟨C, hC, hop⟩ := exists_mergePolicies h.left h.right h.left.conditions hF fun op =>
      refines_of_rel (hrel op)
    refine ⟨C, hC, SamePolicy.symm (samePolicy_of (fun op => hop op ▸ hrel op) fun key hkey => ?_)⟩
    exact ((mergedFrom_of_mergePolicies h.left h.right hC).unknown key hkey).symm

end IdentityCommon.OpenidFederation
