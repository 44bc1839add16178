import IdentityCommon.OpenidFederation.PolicyAlgebra

/-!
# The combined policy, parameter by parameter

The policies of the statements are combined for each parameter on its own: combining succeeds just
when the policies of every parameter can be merged, and then has the merged policy of each.

## Main definitions

- `CritSupported` — no critical operator of a statement is unknown
- `HasMerged` — the merged policy of a parameter, as the combined policy has it

## Main results

- `combineMetadataPolicies_iff` — when combining succeeds
- `combineMetadataPolicies_merged` — what it has for each parameter
- `policies_merge` — merging equal policies, splitting a list of policies, and what a failure leaves
-/

namespace IdentityCommon.OpenidFederation

open IdentityCommon.Except AssocList Ecma Value KeyedFold PartialMerge

/-- The operators of two policies have the same values. -/
def SameOperators (P Q : Members) : Prop := ∀ op : Operator, P.lookup op.key = Q.lookup op.key

theorem accepted_nil : Accepted [] := ⟨List.nodup_nil, rfl⟩

/-! ## One more policy of a parameter -/

section Step

variable {path : String} {A B C P Q : Members}

/-- Policies with the same operators can be merged with the same policies. -/
theorem mergePolicies_of_sameOperators (hP : Accepted P) (hQ : Accepted Q) (hB : Accepted B)
    (hsame : SameOperators P Q) (h : mergePolicies path P B = .ok C) :
    ∃ D, mergePolicies path Q B = .ok D ∧ SameOperators C D := by
  have hC := mergedFrom_of_mergePolicies hP hB h
  obtain ⟨D, hD, hop⟩ :=
    exists_mergePolicies hQ hB hC.accepted.conditions (fun op => hsame op ▸ hC.op op)
    fun op v hv => ⟨v, hv, Refines.refl op v⟩
  exact ⟨D, hD, fun op => (hop op).symm⟩

/-- Merging a policy into nothing leaves its operators. -/
theorem exists_mergePolicies_nil (path : String) (hB : Accepted B) :
    ∃ C, mergePolicies path [] B = .ok C ∧ SameOperators C B :=
  exists_mergePolicies accepted_nil hB hB.conditions (fun _ => rfl) fun op v hv =>
    ⟨v, hv, Refines.refl op v⟩

end Step

/-- Without a policy of its own, a parameter reads as one without members, or as none. -/
theorem truthy_getPropertyValue_of_none {merged : Metadata} {service property : String}
    (h : own merged service property = none) (hp : isInherited property = false) :
    (getPropertyValue merged service property).truthy = false := by
  have hundefined : inherited property = undefined := by
    unfold isInherited at hp
    split at hp
    case h_1 heq => exact heq
    case h_2 => cases hp
  rw [getPropertyValue]
  split
  case h_1 block hblock =>
    rw [own, hblock] at h
    rw [get_obj_of_none (show block.lookup property = none from h), hundefined]
    rfl
  case h_2 =>
    have hget : (inherited service).get property = null ∨
        (inherited service).get property = undefined := by
      generalize hv : inherited service = v
      rw [inherited] at hv
      split at hv
      case isTrue =>
        rw [← hv, Value.get.eq_def]
        dsimp only
        split
        case isTrue => exact Or.inl rfl
        case isFalse => exact Or.inr hundefined
      case isFalse => split at hv <;> exact Or.inr (by rw [← hv]; rfl)
    rcases hget with heq | heq
    · rw [heq]; rfl
    · rw [heq]; rfl

/-- Combining the rules of a parameter that has no policy yet. -/
theorem combineRules_of_none {crit : Option (List String)} {merged : Metadata}
    {service property : String} {rules : Members}
    (hcrit : unsupportedMethodsAndRequired crit rules = []) (hrules : Accepted rules)
    (hown : own merged service property = none) :
    ∃ merged', combineRules crit merged service property rules = .ok merged' := by
  unfold combineRules
  rw [hcrit]
  dsimp only
  rw [if_neg (not_not.mpr rfl), spread_of_own_none hown]
  by_cases htruthy : (getPropertyValue merged service property).truthy
  · rw [htruthy]
    obtain ⟨C, hC, -⟩ := exists_mergePolicies_nil (service ++ "." ++ property) hrules
    obtain ⟨hcombine, hvalid⟩ := mergePolicies_eq_ok.mp hC
    exact ⟨setPropertyValue merged service property (obj C), by rw [hcombine, ok_bind, hvalid]; rfl⟩
  · rw [Bool.not_eq_true] at htruthy
    rw [htruthy]
    exact ⟨_, rfl⟩

/-- Combining the rules of a parameter that has a policy. -/
theorem combineRules_of_some {crit : Option (List String)} {merged : Metadata}
    {service property : String} {rules P : Members}
    (hcrit : unsupportedMethodsAndRequired crit rules = [])
    (hown : own merged service property = some (obj P)) :
    combineRules crit merged service property rules =
      (mergePolicies (service ++ "." ++ property) P rules).map fun C =>
        setPropertyValue merged service property (obj C) := by
  unfold combineRules
  rw [hcrit, getPropertyValue_of_own hown]
  dsimp only
  rw [if_neg (not_not.mpr rfl)]
  show (combineExistingMetadataPolicyOperators _ P rules >>=
    fun C => zMetadataPolicy C >>= fun _ => _) = _
  unfold mergePolicies
  cases combineExistingMetadataPolicyOperators (service ++ "." ++ property) P rules with
  | error e => rfl
  | ok C =>
    rw [ok_bind, ok_bind]
    cases zMetadataPolicy C with
    | error e => rfl
    | ok => rfl

theorem unsupported_of_combineRules {crit : Option (List String)} {merged merged' : Metadata}
    {service property : String} {rules : Members}
    (h : combineRules crit merged service property rules = .ok merged') :
    unsupportedMethodsAndRequired crit rules = [] := by
  unfold combineRules at h
  dsimp only at h
  split at h
  case isTrue => cases h
  case isFalse hcrit => exact not_not.mp hcrit

/-! ## The merged policy of a parameter -/

/-- What the combined policy has for a parameter, from its policies: nothing, or the merged policy.
Of a name that every object has a member of, only the operators are those of the merged policy. -/
def HasMerged (service property : String) (policies : List Members) (own : Option Value) : Prop :=
  match policies with
  | [] => own = none
  | first :: rest => ∃ P P', mergeAll (service ++ "." ++ property) first rest = .ok P ∧
      own = some (obj P') ∧
      Accepted P' ∧ SameOperators P' P ∧
      (isInherited service = false → isInherited property = false → P' = P)

theorem mergeAll_append (path : String) (first rules : Members) (rest : List Members) :
    mergeAll path first (rest ++ [rules]) = mergeAll path first rest >>=
      (mergePolicies path · rules) := by
  unfold mergeAll
  rw [List.foldlM_append]
  refine congrArg _ (funext fun P => ?_)
  rw [List.foldlM_cons]
  exact bind_pure _

theorem mergeAll_accepted {path : String} {first P : Members} {rest : List Members}
    (hfirst : Accepted first) (hrest : ∀ C ∈ rest, Accepted C)
    (h : mergeAll path first rest = .ok P) : Accepted P :=
  ((mergePolicies_assoc path).foldlM_closed (.refl hfirst) (fun C hC => .refl (hrest C hC)) h).left

section Rules

variable {crit : Option (List String)} {m m' : Metadata} {service property : String}
    {policies : List Members}
  {rules : Members}

/-- The rules of one more statement are merged into the policy of their parameter. -/
theorem combineRules_hasMerged (hpolicies : ∀ C ∈ policies, Accepted C) (hrules : Accepted rules)
    (hm : HasMerged service property policies (own m service property))
    (h : combineRules crit m service property rules = .ok m') :
    HasMerged service property (policies ++ [rules]) (own m' service property) := by
  have hcrit := unsupported_of_combineRules h
  cases policies with
  | nil =>
    have hnone : own m service property = none := hm
    obtain ⟨C, rfl, hC⟩ := combineRules_eq_ok h
    rw [own_setPropertyValue, if_pos ⟨rfl, rfl⟩]
    obtain ⟨rfl, -⟩ | ⟨hC, hvalid⟩ := hC
    · exact ⟨C, C, rfl, rfl, hrules, fun op => rfl, fun _ _ => rfl⟩
    · rw [spread_of_own_none hnone] at hC
      have hmerged := mergedFrom_of_mergePolicies accepted_nil hrules
        (mergePolicies_eq_ok.mpr ⟨hC, hvalid⟩)
      refine ⟨rules, C, rfl, rfl, hmerged.accepted, fun op => (Except.ok.inj (hmerged.op op)).symm,
        fun _ hp => ?_⟩
      -- a parameter that reads as nothing gets the rules as they are
      have hset : combineRules crit m service property rules =
          .ok (setPropertyValue m service property (obj rules)) := by
        unfold combineRules
        rw [hcrit]
        dsimp only
        rw [if_neg (not_not.mpr rfl), truthy_getPropertyValue_of_none hnone hp]
        rfl
      have hown := congrArg (fun m => own m service property) (Except.ok.inj (h.symm.trans hset))
      simp only [own_setPropertyValue, and_self, if_true, Option.some.injEq, obj.injEq] at hown
      exact hown
  | cons first rest =>
    obtain ⟨P, P', hP, hown, hP', hsame, heq⟩ := hm
    obtain ⟨hfirst, hrest⟩ := List.forall_mem_cons.mp hpolicies
    rw [combineRules_of_some hcrit hown] at h
    cases hC : mergePolicies (service ++ "." ++ property) P' rules with
    | error e =>
      rw [hC] at h
      cases h
    | ok C =>
      rw [hC] at h
      cases h
      rw [own_setPropertyValue, if_pos ⟨rfl, rfl⟩]
      have haccepted := mergeAll_accepted hfirst hrest hP
      obtain ⟨D, hD, hCD⟩ := mergePolicies_of_sameOperators hP' haccepted hrules hsame hC
      refine ⟨D, C, ?_, rfl, (mergedFrom_of_mergePolicies hP' hrules hC).accepted, hCD,
        fun hs hp => ?_⟩
      · show mergeAll (service ++ "." ++ property) first (rest ++ [rules]) = .ok D
        rw [mergeAll_append, hP, ok_bind, hD]
      · rw [heq hs hp] at hC
        exact Except.ok.inj (hC.symm.trans hD)

/-- The rules of one more statement can be combined when they can be merged. -/
theorem exists_combineRules (hcrit : unsupportedMethodsAndRequired crit rules = [])
    (hpolicies : ∀ C ∈ policies, Accepted C) (hrules : Accepted rules)
    (hm : HasMerged service property policies (own m service property))
    (h : ∀ first rest, policies ++ [rules] = first :: rest →
      ∃ P, mergeAll (service ++ "." ++ property) first rest = .ok P) :
    ∃ m', combineRules crit m service property rules = .ok m' := by
  cases policies with
  | nil => exact combineRules_of_none hcrit hrules hm
  | cons first rest =>
    obtain ⟨P, P', hP, hown, hP', hsame, -⟩ := hm
    obtain ⟨hfirst, hrest⟩ := List.forall_mem_cons.mp hpolicies
    obtain ⟨D, hD⟩ := h first (rest ++ [rules]) rfl
    rw [mergeAll_append, hP, ok_bind] at hD
    obtain ⟨C, hC, -⟩ :=
      mergePolicies_of_sameOperators (mergeAll_accepted hfirst hrest hP) hP' hrules
      (fun op => (hsame op).symm) hD
    exact ⟨_, by rw [combineRules_of_some hcrit hown, hC]; rfl⟩

end Rules

/-! ## One more statement -/

theorem PolicyStatement.rules_accepted {statement : PolicyStatement} {service property : String}
    {rules : Members} (h : statement.rules service property = some rules) : Accepted rules := by
  obtain ⟨block, hblock, hrules⟩ := Option.bind_eq_some_iff.mp h
  obtain ⟨policy, hpolicy, hblock⟩ := Option.bind_eq_some_iff.mp hblock
  obtain ⟨hn, hvalid⟩ :=
    ((statement.valid policy hpolicy).2 _ (mem_of_lookup hblock)).2 _ (mem_of_lookup hrules)
  exact ⟨hn, hvalid⟩

theorem accepted_of_mem_policiesOf {statements : List PolicyStatement} {service property : String}
    {rules : Members} (h : rules ∈ policiesOf statements service property) : Accepted rules := by
  obtain ⟨statement, -, hrules⟩ := mem_policiesOf.mp h
  exact PolicyStatement.rules_accepted hrules

/-- No operator of a statement that is critical is unknown. -/
def CritSupported (statement : PolicyStatement) : Prop :=
  ∀ service property rules, statement.rules service property = some rules →
    unsupportedMethodsAndRequired statement.metadataPolicyCrit rules = []

section Statement

variable {m m' : Metadata} {statement : PolicyStatement} {service property : String}

/-- A statement without rules for a parameter leaves its policy. -/
theorem combineStatement_of_none (hrules : statement.rules service property = none)
    (h : combineStatement m statement = .ok m') :
    own m' service property = own m service property := by
  obtain ⟨policy, crit, hvalid⟩ := statement
  cases policy with
  | none =>
    cases h
    rfl
  | some policy =>
    have hframe : ∀ block ∈ policy, block.1 ≠ service →
        ∀ s s', combineService crit s block = .ok s' →
        own s' service property = own s service property :=
          fun block _ hne s s' hstep => combineService_frame hne hstep
    cases hl : policy.lookup service with
    | none => exact foldlM_of_not_mem (f := fun m => own m service property) hl hframe h
    | some properties =>
      obtain ⟨s, s', hstep, hs, hs'⟩ :=
        foldlM_at (f := fun m => own m service property) (hvalid policy rfl).1 hl hframe h
      have hl' : properties.lookup property = none := by
        simpa [PolicyStatement.rules, hl] using hrules
      have hinner : own s' service property = own s service property :=
        foldlM_of_not_mem (f := fun m => own m service property) hl' (fun rule _ hne t t' ht =>
          combineRules_frame (fun heq => hne heq.2.symm) ht) hstep
      exact hs'.trans (hinner.trans hs)

/-- The rules of a statement for a parameter are combined with the policy that it has. -/
theorem combineStatement_of_some {rules : Members}
    (hrules : statement.rules service property = some rules)
    (h : combineStatement m statement = .ok m') :
    ∃ m₁ m₂, combineRules statement.metadataPolicyCrit m₁ service property rules = .ok m₂ ∧
      own m₁ service property = own m service property ∧
      own m' service property = own m₂ service property := by
  obtain ⟨policy, crit, hvalid⟩ := statement
  obtain ⟨properties, hproperties, hlookup⟩ := Option.bind_eq_some_iff.mp hrules
  obtain ⟨policy', rfl, hl⟩ := Option.bind_eq_some_iff.mp hproperties
  obtain ⟨hn, hblocks⟩ := hvalid policy' rfl
  have hframe : ∀ block ∈ policy', block.1 ≠ service →
      ∀ s s', combineService crit s block = .ok s' →
      own s' service property = own s service property :=
        fun block _ hne s s' hstep => combineService_frame hne hstep
  obtain ⟨s, s', hstep, hs, hs'⟩ := foldlM_at (f := fun m => own m service property) hn hl hframe h
  obtain ⟨m₁, m₂, hm, hm₁, hm₂⟩ := foldlM_at (f := fun m => own m service property)
    (hblocks (service, properties) (mem_of_lookup hl)).1 hlookup (fun rule _ hne t t' ht =>
      combineRules_frame (fun heq => hne heq.2.symm) ht) hstep
  exact ⟨m₁, m₂, hm, hm₁.trans hs, hs'.trans hm₂⟩

variable {policies : String → String → List Members}
    (haccepted : ∀ s p, ∀ C ∈ policies s p, Accepted C)
  (hm : ∀ s p, HasMerged s p (policies s p) (own m s p))
include haccepted hm

theorem combineStatement_hasMerged (h : combineStatement m statement = .ok m')
    (service property : String) :
    HasMerged service property (policies service property ++
      (statement.rules service property).toList)
      (own m' service property) := by
  cases hrules : statement.rules service property with
  | none =>
    rw [combineStatement_of_none hrules h, Option.toList_none, List.append_nil]
    exact hm service property
  | some rules =>
    obtain ⟨m₁, m₂, hstep, hm₁, hm₂⟩ := combineStatement_of_some hrules h
    rw [hm₂]
    exact combineRules_hasMerged (haccepted service property)
      (PolicyStatement.rules_accepted hrules) (hm₁ ▸ hm service property) hstep

/-- A statement can be combined when its rules can be merged and no critical operator is unknown. -/
theorem exists_combineStatement (hcrit : CritSupported statement)
    (h : ∀ s p first rest, policies s p ++ (statement.rules s p).toList = first :: rest →
      ∃ P, mergeAll (s ++ "." ++ p) first rest = .ok P) :
      ∃ m', combineStatement m statement = .ok m' := by
  obtain ⟨policy, crit, hvalid⟩ := statement
  cases policy with
  | none => exact ⟨m, rfl⟩
  | some policy =>
    obtain ⟨hn, hblocks⟩ := hvalid policy rfl
    refine exists_foldlM_eq_ok (g := fun s m => fun p => own m s p) hn
      (fun block _ s hne t t' ht => funext fun p => combineService_frame hne ht)
        fun block hblock t ht => ?_
    refine exists_foldlM_eq_ok (g := fun p m => own m block.1 p) (hblocks block hblock).1
      (fun rule _ p hne u u' hu => combineRules_frame (fun heq => hne heq.2.symm) hu)
        fun rule hrule u hu => ?_
    have hrules : (PolicyStatement.mk (some policy) crit hvalid).rules block.1 rule.1 =
        some rule.2 := by
      show (policy.lookup block.1).bind (List.lookup rule.1) = some rule.2
      rw [lookup_of_mem hn hblock, Option.bind_some, lookup_of_mem (hblocks block hblock).1 hrule]
    have hown : own u block.1 rule.1 = own m block.1 rule.1 := hu.trans (congrFun ht rule.1)
    refine exists_combineRules (hcrit _ _ _ hrules) (haccepted _ _)
      (PolicyStatement.rules_accepted hrules) (hown ▸ hm block.1 rule.1) fun first rest heq => ?_
    refine h block.1 rule.1 first rest ?_
    rw [hrules]
    exact heq

end Statement

/-! ## All statements -/

theorem policiesOf_append (R : List PolicyStatement) (statement : PolicyStatement)
    (service property : String) :
    policiesOf (R ++ [statement]) service property =
      policiesOf R service property ++ (statement.rules service property).toList := by
  unfold policiesOf
  rw [List.filterMap_append, List.filterMap_cons, List.filterMap_nil]
  cases statement.rules service property with
  | none => rfl
  | some rules => rfl

theorem foldlM_concat {m : Metadata} (R : List PolicyStatement) (statement : PolicyStatement) :
    (R ++ [statement]).foldlM combineStatement m = R.foldlM combineStatement m >>=
      (combineStatement · statement) := by
  rw [List.foldlM_append]
  refine congrArg _ (funext fun m => ?_)
  rw [List.foldlM_cons]
  exact bind_pure _

/-- The statements, from the trust anchor down, leave the merged policy of each parameter. -/
theorem combineStatements_hasMerged {R : List PolicyStatement} : ∀ {m : Metadata},
    R.foldlM combineStatement [] = .ok m → ∀ service property,
      HasMerged service property (policiesOf R service property) (own m service property) := by
  induction R using List.reverseRecOn with
  | nil =>
    intro m h service property
    cases h
    rfl
  | append_singleton R statement ih =>
    intro m h service property
    rw [foldlM_concat] at h
    obtain ⟨m₁, hm₁, h⟩ := bind_eq_ok.mp h
    rw [policiesOf_append]
    exact combineStatement_hasMerged (fun s p C hC => accepted_of_mem_policiesOf hC)
      (ih hm₁) h service property

/-- The statements can be combined when no critical operator is unknown and the policies of each
parameter can be merged. -/
theorem exists_combineStatements {R : List PolicyStatement} :
    (∃ m, R.foldlM combineStatement [] = .ok m) ↔
      (∀ statement ∈ R, CritSupported statement) ∧ ∀ service property first rest,
        policiesOf R service property = first :: rest →
        ∃ P, mergeAll (service ++ "." ++ property) first rest = .ok P := by
  induction R using List.reverseRecOn with
  | nil => exact iff_of_true ⟨[], rfl⟩ ⟨nofun, nofun⟩
  | append_singleton R statement ih =>
    constructor
    · rintro ⟨m, h⟩
      have hmerged := combineStatements_hasMerged h
      rw [foldlM_concat] at h
      obtain ⟨m₁, hm₁, h⟩ := bind_eq_ok.mp h
      refine ⟨?_, fun service property first rest heq => ?_⟩
      · intro st hst
        rcases List.mem_append.mp hst with hst | hst
        · exact (ih.mp ⟨m₁, hm₁⟩).1 st hst
        · rw [List.mem_singleton.mp hst]
          intro service property rules hrules
          obtain ⟨_, _, hstep, -⟩ := combineStatement_of_some hrules h
          exact unsupported_of_combineRules hstep
      · have hparameter := hmerged service property
        rw [heq] at hparameter
        obtain ⟨P, -, hP, -⟩ := hparameter
        exact ⟨P, hP⟩
    · rintro ⟨hcrit, hmerge⟩
      have hprefix : ∃ m, R.foldlM combineStatement [] = .ok m := by
        refine ih.mpr ⟨fun st hst => hcrit st (List.mem_append_left _ hst),
          fun service property first rest heq => ?_⟩
        -- the policies of the first statements are merged on the way to those of all
        have happend := policiesOf_append R statement service property
        rw [heq] at happend
        obtain ⟨P, hP⟩ := hmerge service property first
          (rest ++ (statement.rules service property).toList) happend
        unfold mergeAll at hP
        rw [List.foldlM_append] at hP
        obtain ⟨Q, hQ, -⟩ := bind_eq_ok.mp hP
        exact ⟨Q, hQ⟩
      obtain ⟨m₁, hm₁⟩ := hprefix
      obtain ⟨m, hm⟩ := @exists_combineStatement _ statement _
        (fun s p C (hC : C ∈ policiesOf R s p) => accepted_of_mem_policiesOf hC)
        (combineStatements_hasMerged hm₁)
          (hcrit statement (List.mem_append_right _ (List.mem_singleton_self _)))
        fun s p first rest heq => hmerge s p first rest (by rw [policiesOf_append, heq])
      exact ⟨m, by rw [foldlM_concat, hm₁, ok_bind, hm]⟩

/-- Policies are combined all or none: combining succeeds when no critical operator is unknown and
the policies of every parameter can be merged. -/
theorem combineMetadataPolicies_iff {statements : List PolicyStatement} :
    (∃ merged, combineMetadataPolicies statements = .ok merged) ↔
      statements ≠ [] ∧ (∀ statement ∈ statements, CritSupported statement) ∧
        ∀ service property first rest, policiesOf statements.reverse service property =
          first :: rest →
          ∃ P, mergeAll (service ++ "." ++ property) first rest = .ok P := by
  unfold combineMetadataPolicies
  by_cases hnil : statements = []
  · rw [if_pos hnil]
    exact iff_of_false (fun ⟨_, h⟩ => nomatch h) fun h => h.1 hnil
  · rw [if_neg hnil, exists_combineStatements, and_iff_right hnil]
    simp only [List.mem_reverse]

/-- The combined policy has the merged policy of each parameter. -/
theorem combineMetadataPolicies_merged {statements : List PolicyStatement} {merged : Metadata}
    (h : combineMetadataPolicies statements = .ok merged) (service property : String) :
    HasMerged service property (policiesOf statements.reverse service property)
      (own merged service property) := by
  unfold combineMetadataPolicies at h
  split at h
  case isTrue => cases h
  case isFalse => exact combineStatements_hasMerged h service property

/-- The metadata that the policies of the statements leave of those of the leaf. -/
def resolveMetadata (statements : List PolicyStatement) (leafMetadata : Metadata) :
    Except PolicyError Metadata := do
  let merged ← combineMetadataPolicies statements
  applyMetadataPolicyToMetadata leafMetadata merged

/-- Merging equal policies changes nothing, for the policies that can be merged with themselves; a
list of policies can be split; the statements are combined parameter by parameter, all or none of
them, and no metadata is resolved with policies of which some cannot be merged. -/
theorem policies_merge :
    (∀ path A B, SameAccepted A B → ((∃ C, mergePolicies path A B = .ok C ∧ SamePolicy C A) ↔
      SelfMergeable A)) ∧
    (∀ path A l B l', Accepted A → (∀ C ∈ l, Accepted C) → Accepted B → (∀ C ∈ l', Accepted C) →
      Agree SameAccepted (mergeAll path A (l ++ B :: l')) (do
        let x ← mergeAll path A l
        let y ← mergeAll path B l'
        mergePolicies path x y)) ∧
    (∀ statements, (∃ merged, combineMetadataPolicies statements = .ok merged) ↔
      statements ≠ [] ∧ (∀ statement ∈ statements, CritSupported statement) ∧
        ∀ service property first rest, policiesOf statements.reverse service property =
          first :: rest →
          ∃ P, mergeAll (service ++ "." ++ property) first rest = .ok P) ∧
    (∀ statements merged, combineMetadataPolicies statements = .ok merged → ∀ service property,
      HasMerged service property (policiesOf statements.reverse service property)
        (own merged service property)) ∧
    ∀ statements leafMetadata resolved, resolveMetadata statements leafMetadata = .ok resolved →
      ∀ service property first rest, policiesOf statements.reverse service property =
        first :: rest →
        ∃ P, mergeAll (service ++ "." ++ property) first rest = .ok P := by
  refine ⟨fun path A B h => mergePolicies_self_iff h, fun path A l B l' hA hl hB hl' =>
    mergeAll_split hA hl hB hl', fun statements => combineMetadataPolicies_iff,
      fun statements merged h => combineMetadataPolicies_merged h, ?_⟩
  intro statements leafMetadata resolved h
  obtain ⟨merged, hmerged, -⟩ := bind_eq_ok.mp h
  exact (combineMetadataPolicies_iff.mp ⟨merged, hmerged⟩).2.2

/-- The policies of a trust anchor, of an intermediate below it, and of the superior of the leaf. -/
def anchorGrants : Members :=
  [("subset_of", arr [str "authorization_code", str "refresh_token", str "implicit"])]

def intermediateGrants : Members :=
  [("subset_of", arr [str "refresh_token", str "authorization_code"]),
    ("superset_of", arr [str "authorization_code"])]

def addedGrant : Members := [("add", arr [str "authorization_code"])]

def mergedGrants : Members :=
  [("subset_of", arr [str "authorization_code", str "refresh_token"]),
    ("superset_of", arr [str "authorization_code"]), ("add", arr [str "authorization_code"])]

/-- The three policies are merged to the same policy from either side, and the merged policy with
itself to itself. -/
theorem policies_merge_grants :
    (∃ C, mergePolicies "openid_relying_party.grant_types" mergedGrants mergedGrants = .ok C ∧
      SamePolicy C mergedGrants) ∧
    mergeAll "openid_relying_party.grant_types" anchorGrants [intermediateGrants, addedGrant] =
      .ok mergedGrants ∧
    ∃ C, (do
      let x ← mergeAll "openid_relying_party.grant_types" anchorGrants []
      let y ← mergeAll "openid_relying_party.grant_types" intermediateGrants [addedGrant]
      mergePolicies "openid_relying_party.grant_types" x y) = .ok C ∧
      SamePolicy mergedGrants C := by
  obtain ⟨hself, hsplit, -⟩ := policies_merge
  have hallowed : Accepted anchorGrants := ⟨by decide, rfl⟩
  have hrequired : Accepted intermediateGrants := ⟨by decide, rfl⟩
  have hadded : Accepted addedGrant := ⟨by decide, rfl⟩
  have hmerged : Accepted mergedGrants := ⟨by decide, rfl⟩
  have hmergeable : SelfMergeable mergedGrants := ⟨nofun, nofun, nofun⟩
  have hmerge : mergeAll "openid_relying_party.grant_types" anchorGrants [intermediateGrants,
      addedGrant] =
      .ok mergedGrants := by rfl
  refine ⟨(hself _ _ _ (.refl hmerged)).mpr hmergeable, hmerge, ?_⟩
  have hagree := hsplit "openid_relying_party.grant_types" anchorGrants [] intermediateGrants
    [addedGrant] hallowed (List.forall_mem_nil _) hrequired (List.forall_mem_singleton.mpr hadded)
  obtain ⟨C, hC, hsame⟩ := hagree.exists_right hmerge
  exact ⟨C, hC, hsame.same⟩

/-- Policies that the schema accepts, and that cannot be merged with themselves: with an empty
`one_of`, and with an object as the value. -/
theorem not_mergePolicies_self :
    (Accepted [("one_of", arr [])] ∧
      ¬∃ C, mergePolicies "openid_provider.op_policy" [("one_of", arr [])]
        [("one_of", arr [])] = .ok C) ∧
    Accepted [("value", obj [("name", str "a")])] ∧
      ¬∃ C, mergePolicies "openid_provider.op_policy" [("value", obj [("name", str "a")])]
        [("value", obj [("name", str "a")])] = .ok C :=
  ⟨⟨⟨by decide, rfl⟩, fun ⟨_, h⟩ => nomatch h⟩, ⟨by decide, rfl⟩, fun ⟨_, h⟩ => nomatch h⟩

end IdentityCommon.OpenidFederation
