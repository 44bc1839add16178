import IdentityCommon.Lib.KeyedFold
import IdentityCommon.OpenidFederation.MetadataPolicy

/-!
# Combined policies

The combined policy of a parameter is at least as strict as the policy of every statement.

## Main definitions

- `Refines` — one value of an operator is at least as strict as another
- `Combined` — a policy that has the operators of some policies, each at least as strict as theirs
- `PolicyStatement.rules` — the policy of a parameter in a statement

## Main results

- `mergeOperator_refines` — a merged value is at least as strict as both
- `combineMetadataPolicies_combined` — for each parameter the combined policy combines those of the
  statements
-/

namespace IdentityCommon.OpenidFederation

open IdentityCommon.Except AssocList Ecma Value KeyedFold

/-! ## Merging two values -/

def elements : Value → List Value
  | arr items => items
  | _ => []

/-- A value of an operator is at least as strict as another. -/
def Refines : Operator → Value → Value → Prop
  | .value, w, v => w = v
  | .default, _, _ => True
  | .add, w, v | .supersetOf, w, v => elements v ⊆ elements w
  | .oneOf, w, v | .subsetOf, w, v => elements w ⊆ elements v
  | .essential, w, v => v = Value.bool true → w = Value.bool true

theorem Refines.refl (op : Operator) (v : Value) : Refines op v v := by
  cases op with
  | value => rfl
  | default => trivial
  | add => exact List.Subset.refl _
  | supersetOf => exact List.Subset.refl _
  | oneOf => exact List.Subset.refl _
  | subsetOf => exact List.Subset.refl _
  | essential => exact id

theorem Refines.trans {op : Operator} {u v w : Value} (h : Refines op u v) (h' : Refines op v w) :
    Refines op u w := by
  cases op with
  | value => exact Eq.trans h h'
  | default => trivial
  | add => exact List.Subset.trans h' h
  | supersetOf => exact List.Subset.trans h' h
  | oneOf => exact List.Subset.trans h h'
  | subsetOf => exact List.Subset.trans h h'
  | essential => exact fun hw => h (h' hw)

theorem eq_of_zip {a b : List Value} (hl : a.length = b.length)
    (h : ¬((a.zip b).any fun (v, w) => !strictEquals v w)) : a = b := by
  induction a generalizing b with
  | nil => exact (List.length_eq_zero_iff.mp hl.symm).symm
  | cons v a ih =>
    cases b with
    | nil => cases hl
    | cons w b =>
      simp only [List.zip_cons_cons, List.any_cons, Bool.or_eq_true, not_or, Bool.not_eq_true,
        Bool.not_eq_false'] at h
      rw [eq_of_strictEquals h.1, ih (Nat.succ.inj hl) (by simpa using h.2)]

/-- A merged value is at least as strict as both values. -/
theorem mergeOperator_refines {path : String} {op : Operator} {existing new merged : Value}
    (h : mergeOperator path op existing new = .ok merged) :
    Refines op merged existing ∧ Refines op merged new := by
  unfold mergeOperator at h
  split at h
  case isTrue => cases h
  case isFalse =>
    have hequal : op.mergeStrategy = .operatorValuesEqual → merged = existing ∧ existing = new := by
      intro hstrategy
      rw [hstrategy] at h
      split at h
      case h_1 a b hs =>
        split at h
        case isTrue => cases h
        case isFalse hne =>
          rw [not_or, not_not] at hne
          exact ⟨(Except.ok.inj h).symm, congrArg arr (eq_of_zip hne.1 hne.2)⟩
      case h_2 =>
        split at h
        case isTrue heq => exact ⟨(Except.ok.inj h).symm, eq_of_strictEquals heq⟩
        case isFalse => cases h
      all_goals contradiction
    have hunion : op.mergeStrategy = .union →
        elements existing ⊆ elements merged ∧ elements new ⊆ elements merged := by
      intro hstrategy
      rw [hstrategy] at h
      split at h
      case h_3 a b hs =>
        cases h
        exact ⟨fun v hv => mem_union.mpr (Or.inl hv), fun v hv => mem_union.mpr (Or.inr hv)⟩
      case h_4 => cases h
      all_goals contradiction
    have hintersection : op.mergeStrategy = .intersection ∨
        op.mergeStrategy = .intersectionMayBeEmpty →
        elements merged ⊆ elements existing ∧ elements merged ⊆ elements new := by
      intro hstrategy
      split at h
      case h_5 a b hs =>
        split at h
        case isTrue => cases h
        case isFalse =>
          cases h
          exact ⟨fun v hv => (mem_of_mem_intersect hv).1, fun v hv => (mem_of_mem_intersect hv).2⟩
      case h_6 a b hs =>
        cases h
        exact ⟨fun v hv => (mem_of_mem_intersect hv).1, fun v hv => (mem_of_mem_intersect hv).2⟩
      case h_7 => cases h
      case h_8 => cases h
      all_goals simp_all
    have hor : op.mergeStrategy = .logicalOr →
        (existing = Value.bool true → merged = Value.bool true) ∧
        (new = Value.bool true → merged = Value.bool true) := by
      intro hstrategy
      rw [hstrategy] at h
      split at h
      case h_9 a b hs =>
        cases h
        constructor
        · rintro ⟨⟩
          rfl
        · rintro ⟨⟩
          rw [Bool.or_true]
      case h_10 => cases h
      all_goals contradiction
    cases op with
    | value =>
      obtain ⟨rfl, rfl⟩ := hequal rfl
      exact ⟨rfl, rfl⟩
    | default => exact ⟨trivial, trivial⟩
    | add => exact hunion rfl
    | supersetOf => exact hunion rfl
    | oneOf => exact hintersection (Or.inl rfl)
    | subsetOf => exact hintersection (Or.inr rfl)
    | essential => exact hor rfl

/-! ## Combining two policies -/

/-- The value that an operator has in a combined policy, from those of the policies. -/
def Merges (op : Operator) (policies : List Members) : Option Value → Prop
  | none => ∀ rules ∈ policies, rules.lookup op.key = none
  | some c => (∃ rules ∈ policies, rules.lookup op.key ≠ none) ∧
      ∀ rules ∈ policies, ∀ v, rules.lookup op.key = some v → Refines op c v

/-- A policy of a parameter that combines the policies of the statements. -/
def Combined (policies : List Members) : Option Value → Prop
  | none => policies = []
  | some v => ∃ C, v = obj C ∧ (keys C).Nodup ∧ zMetadataPolicy C = .ok () ∧
      ∀ op, Merges op policies (C.lookup op.key)

theorem Merges.nil (op : Operator) : Merges op [] none := by
  intro rules h
  cases h

theorem Merges.single (op : Operator) (rules : Members) :
    Merges op [rules] (rules.lookup op.key) := by
  cases h : rules.lookup op.key with
  | none =>
    intro rules' hrules
    rwa [List.mem_singleton.mp hrules]
  | some v =>
    refine ⟨⟨rules, List.mem_singleton_self _, by rw [h]; exact nofun⟩,
      fun rules' hrules w hw => ?_⟩
    rw [List.mem_singleton.mp hrules, h] at hw
    cases hw
    exact Refines.refl op v

theorem Merges.cons_none {op : Operator} {policies : List Members} {c : Option Value}
    {rules : Members} (h : Merges op policies c) (hr : rules.lookup op.key = none) :
    Merges op (rules :: policies) c := by
  cases c with
  | none => exact List.forall_mem_cons.mpr ⟨hr, h⟩
  | some c =>
    obtain ⟨⟨rules', hmem, hne⟩, href⟩ := h
    refine ⟨⟨rules', List.mem_cons_of_mem _ hmem, hne⟩,
      List.forall_mem_cons.mpr ⟨fun v hv => ?_, href⟩⟩
    rw [hr] at hv
    cases hv

theorem Merges.cons_some {op : Operator} {policies : List Members} {c : Option Value} {c' v : Value}
    {rules : Members} (h : Merges op policies c) (hr : rules.lookup op.key = some v)
    (hv : Refines op c' v) (hc : ∀ w, c = some w → Refines op c' w) :
    Merges op (rules :: policies) (some c') := by
  refine ⟨⟨rules, List.mem_cons_self, by rw [hr]; exact nofun⟩,
    List.forall_mem_cons.mpr ⟨fun w hw => ?_, ?_⟩⟩
  · rw [hr] at hw
    cases hw
    exact hv
  · intro rules' hrules w hw
    cases c with
    | none => rw [h rules' hrules] at hw; cases hw
    | some c => exact (hc c rfl).trans (h.2 rules' hrules w hw)

theorem Merges.of_mem {op : Operator} {policies : List Members} {c : Option Value}
    (h : Merges op policies c) {rules : Members} (hr : rules ∈ policies) {v : Value}
    (hv : rules.lookup op.key = some v) :
    ∃ w, c = some w ∧ Refines op w v := by
  cases c with
  | none => rw [h rules hr] at hv; cases hv
  | some w => exact ⟨w, rfl, h.2 rules hr v hv⟩

theorem Merges.exists_of_some {op : Operator} {policies : List Members} {c : Value}
    (h : Merges op policies (some c)) : ∃ rules ∈ policies, ∃ v, rules.lookup op.key = some v ∧
    Refines op c v := by
  obtain ⟨⟨rules, hmem, hne⟩, href⟩ := h
  obtain ⟨v, hv⟩ := Option.ne_none_iff_exists'.mp hne
  exact ⟨rules, hmem, v, hv, href rules hmem v hv⟩

/-- What a rule makes of the operator that it names. -/
theorem combineRule_at {path : String} {op : Operator} {v : Value} {combined combined' : Members}
    (h : combineRule path combined (op.key, v) = .ok combined') :
    ∃ c, combined'.lookup op.key = some c ∧ Refines op c v ∧ ∀ w, combined.lookup op.key = some w →
    Refines op c w := by
  rw [combineRule, isExistingPolicyKey, ofKey_key] at h
  cases hl : combined.lookup op.key with
  | none =>
    simp only [Option.isSome_some, Bool.true_or, Bool.not_true,
      Bool.false_eq_true, if_false, hl] at h
    cases h
    exact ⟨v, by rw [lookup_insert, if_pos rfl], Refines.refl op v, fun w hw => by cases hw⟩
  | some existing =>
    simp only [Option.isSome_some, Bool.true_or, Bool.not_true,
      Bool.false_eq_true, if_false, hl] at h
    obtain ⟨merged, hmerged, h⟩ := bind_eq_ok.mp h
    cases h
    obtain ⟨hexisting, hnew⟩ := mergeOperator_refines hmerged
    refine ⟨merged, by rw [lookup_insert, if_pos rfl], hnew, fun w hw => ?_⟩
    cases hw
    exact hexisting

/-- A rule assigns to its own key, or to none. -/
theorem combineRule_eq_ok {path : String} {rule : String × Value} {combined combined' : Members}
    (h : combineRule path combined rule = .ok combined') :
    combined' = combined ∨ ∃ v, combined' = AssocList.insert rule.1 v combined := by
  unfold combineRule at h
  split at h
  case isTrue =>
    cases h
    exact Or.inl rfl
  case isFalse =>
    split at h
    case h_1 => cases h
    case h_2 =>
      split at h
      case h_1 =>
        cases h
        exact Or.inr ⟨_, rfl⟩
      case h_2 =>
        obtain ⟨merged, -, h⟩ := bind_eq_ok.mp h
        cases h
        exact Or.inr ⟨merged, rfl⟩

theorem combineRule_frame {path key : String} {rule : String × Value} {combined combined' : Members}
    (hne : rule.1 ≠ key) (h : combineRule path combined rule = .ok combined') :
    combined'.lookup key = combined.lookup key := by
  obtain rfl | ⟨v, rfl⟩ := combineRule_eq_ok h
  · rfl
  · rw [lookup_insert, if_neg (Ne.symm hne)]

theorem combineRule_nodup {path : String} {rule : String × Value} {combined combined' : Members}
    (hn : (keys combined).Nodup) (h : combineRule path combined rule = .ok combined') :
    (keys combined').Nodup := by
  obtain rfl | ⟨v, rfl⟩ := combineRule_eq_ok h
  · exact hn
  · exact nodup_insert v hn

/-- The combined policy has the operators of both, each at least as strict as theirs. -/
theorem combineExisting_merges {path : String} {policies : List Members}
    {existing new combined : Members} (hnew : (keys new).Nodup)
    (hexisting : ∀ op, Merges op policies (existing.lookup op.key))
    (h : combineExistingMetadataPolicyOperators path existing new = .ok combined) (op : Operator) :
    Merges op (new :: policies) (combined.lookup op.key) := by
  have hframe : ∀ rule ∈ new, rule.1 ≠ op.key → ∀ s s', combineRule path s rule = .ok s' →
      s'.lookup op.key = s.lookup op.key := fun rule _ hne s s' hs => combineRule_frame hne hs
  cases hl : new.lookup op.key with
  | none =>
    rw [foldlM_of_not_mem (f := (·.lookup op.key)) hl hframe h]
    exact (hexisting op).cons_none hl
  | some v =>
    obtain ⟨s, s', hstep, hs, hs'⟩ := foldlM_at (f := (·.lookup op.key)) hnew hl hframe h
    obtain ⟨c, hc, hv, hw⟩ := combineRule_at hstep
    rw [hs', hc]
    exact (hexisting op).cons_some hl hv fun w hw' => hw w (hs.trans hw')

/-! ## Combining the statements -/

/-- The own member of an entity type. -/
def own (metadata : Metadata) (service property : String) : Option Value :=
  (metadata.lookup service).bind (List.lookup property)

/-- The policy of a parameter in a statement. -/
def PolicyStatement.rules (statement : PolicyStatement) (service property : String) :
    Option Members :=
  (statement.metadataPolicy.bind (List.lookup service)).bind (List.lookup property)

def policiesOf (statements : List PolicyStatement) (service property : String) : List Members :=
  statements.filterMap fun statement => statement.rules service property

theorem mem_policiesOf {statements : List PolicyStatement} {service property : String}
    {rules : Members} :
    rules ∈ policiesOf statements service property ↔
      ∃ statement ∈ statements, statement.rules service property = some rules :=
  List.mem_filterMap

/-- The names of the entity types, and of the parameters of each, are distinct. -/
def KeysDistinct (metadata : Metadata) : Prop :=
  (keys metadata).Nodup ∧ ∀ block ∈ metadata, (keys block.2).Nodup

theorem getPropertyValue_of_own {metadata : Metadata} {service property : String} {v : Value}
    (h : own metadata service property = some v) :
    getPropertyValue metadata service property = v := by
  rw [own, Option.bind_eq_some_iff] at h
  obtain ⟨block, hblock, hv⟩ := h
  rw [getPropertyValue, hblock]
  exact get_obj_of_some hv

/-- What an entity type does not own has no members. -/
theorem spread_of_own_none {metadata : Metadata} {service property : String}
    (h : own metadata service property = none) :
    spread (getPropertyValue metadata service property) = [] := by
  have hinherited : ∀ key, spread (inherited key) = [] := fun key => by
    rw [inherited]
    split
    case isTrue => rfl
    case isFalse => split <;> rfl
  rw [getPropertyValue]
  split
  case h_1 block hblock =>
    rw [own, hblock] at h
    rw [get_obj_of_none (show block.lookup property = none from h)]
    exact hinherited property
  case h_2 =>
    have hget : (inherited service).get property = null ∨
        (inherited service).get property = inherited property ∨
        (inherited service).get property = undefined := by
      generalize hv : inherited service = v
      rw [inherited] at hv
      split at hv
      case isTrue =>
        rw [← hv, Value.get.eq_def]
        dsimp only
        split
        case isTrue => exact Or.inl rfl
        case isFalse => exact Or.inr (Or.inl rfl)
      case isFalse => split at hv <;> exact Or.inr (Or.inr (by rw [← hv]; rfl))
    rcases hget with heq | heq | heq
    · rw [heq]; rfl
    · rw [heq]; exact hinherited property
    · rw [heq]; rfl

theorem own_setPropertyValue (metadata : Metadata) (service property s p : String) (v : Value) :
    own (setPropertyValue metadata service property v) s p =
      if s = service ∧ p = property then some v else own metadata s p := by
  rw [own, setPropertyValue, lookup_insert]
  by_cases hs : s = service
  · subst hs
    rw [if_pos rfl, Option.bind_some, lookup_insert, own]
    by_cases hp : p = property
    · rw [if_pos hp, if_pos ⟨rfl, hp⟩]
    · rw [if_neg hp, if_neg fun h => hp h.2]
      cases metadata.lookup s <;> rfl
  · rw [if_neg hs, if_neg fun h => hs h.1, own]

theorem keysDistinct_setPropertyValue {metadata : Metadata} {service property : String} {v : Value}
    (h : KeysDistinct metadata) : KeysDistinct (setPropertyValue metadata service property v) := by
  refine ⟨nodup_insert _ h.1, fun block hblock => ?_⟩
  obtain rfl | hblock := mem_of_mem_insert hblock
  · refine nodup_insert _ ?_
    cases hl : metadata.lookup service with
    | none => exact List.nodup_nil
    | some members => exact h.2 (service, members) (mem_of_lookup hl)
  · exact h.2 block hblock

/-- Combining the rules of a parameter sets the policy of that parameter. -/
theorem combineRules_eq_ok {crit : Option (List String)} {merged merged' : Metadata}
    {service property : String} {rules : Members}
    (h : combineRules crit merged service property rules = .ok merged') :
    ∃ C, merged' = setPropertyValue merged service property (obj C) ∧
      (C = rules ∧ (getPropertyValue merged service property).truthy = false ∨
        (combineExistingMetadataPolicyOperators (service ++ "." ++ property)
          (spread (getPropertyValue merged service property)) rules = .ok C ∧
            zMetadataPolicy C = .ok ())) := by
  rw [combineRules] at h
  split at h
  case isTrue => cases h
  case isFalse =>
    dsimp only at h
    split at h
    case isTrue hfalsy =>
      cases h
      exact ⟨rules, rfl, Or.inl ⟨rfl, by simpa using hfalsy⟩⟩
    case isFalse =>
      obtain ⟨C, hC, h⟩ := bind_eq_ok.mp h
      obtain ⟨⟨⟩, hvalid, h⟩ := bind_eq_ok.mp h
      cases h
      exact ⟨C, rfl, Or.inr ⟨hC, hvalid⟩⟩

theorem combineRules_frame {crit : Option (List String)} {merged merged' : Metadata}
    {service property s p : String} {rules : Members} (hne : ¬(s = service ∧ p = property))
    (h : combineRules crit merged service property rules = .ok merged') :
    own merged' s p = own merged s p := by
  obtain ⟨C, rfl, -⟩ := combineRules_eq_ok h
  rw [own_setPropertyValue, if_neg hne]

/-- The rules of one more statement. -/
theorem combineRules_combined {crit : Option (List String)} {merged merged' : Metadata}
    {service property : String} {policies : List Members} {rules : Members}
    (hn : (keys rules).Nodup) (hvalid : zMetadataPolicy rules = .ok ())
    (hmerged : Combined policies (own merged service property))
    (h : combineRules crit merged service property rules = .ok merged') :
    Combined (rules :: policies) (own merged' service property) := by
  obtain ⟨C, rfl, hC⟩ := combineRules_eq_ok h
  rw [own_setPropertyValue, if_pos ⟨rfl, rfl⟩]
  cases hown : own merged service property with
  | none =>
    rw [hown] at hmerged
    obtain rfl : policies = [] := hmerged
    obtain ⟨rfl, -⟩ | ⟨hC, hzC⟩ := hC
    · exact ⟨C, rfl, hn, hvalid, fun op => Merges.single op C⟩
    · rw [spread_of_own_none hown] at hC
      have hnC : (keys C).Nodup :=
        foldlM_invariant (motive := fun c => (keys c).Nodup)
          (fun _ _ _ _ hs hstep => combineRule_nodup hs hstep)
          (show (keys ([] : Members)).Nodup from List.nodup_nil) hC
      exact ⟨C, rfl, hnC, hzC, fun op => combineExisting_merges hn (fun op => Merges.nil op) hC op⟩
  | some v =>
    rw [hown] at hmerged
    obtain ⟨E, rfl, hnE, -, hE⟩ := hmerged
    rw [getPropertyValue_of_own hown] at hC
    obtain ⟨-, hfalsy⟩ | ⟨hC, hzC⟩ := hC
    · cases hfalsy
    · have hnC : (keys C).Nodup :=
        foldlM_invariant (motive := fun c => (keys c).Nodup)
          (fun _ _ _ _ hs hstep => combineRule_nodup hs hstep) hnE hC
      exact ⟨C, rfl, hnC, hzC, fun op => combineExisting_merges hn hE hC op⟩

theorem combineService_frame {crit : Option (List String)} {merged merged' : Metadata}
    {service : String × List (String × Members)} {s p : String} (hne : service.1 ≠ s)
    (h : combineService crit merged service = .ok merged') : own merged' s p = own merged s p :=
  foldlM_frame (f := fun m => own m s p)
    (fun _ _ _ _ hstep => combineRules_frame (fun heq => hne heq.1.symm) hstep) h

theorem combineService_combined {crit : Option (List String)} {merged merged' : Metadata}
    {service property : String} {policies : List Members} {properties : List (String × Members)}
    (hn : (keys properties).Nodup)
    (hvalid : ∀ rules ∈ properties, (keys rules.2).Nodup ∧ zMetadataPolicy rules.2 = .ok ())
    (hmerged : Combined policies (own merged service property))
    (h : combineService crit merged (service, properties) = .ok merged') :
    Combined ((properties.lookup property).toList ++ policies) (own merged' service property) := by
  have hframe : ∀ m ∈ properties, m.1 ≠ property →
      ∀ s s', combineRules crit s service m.1 m.2 = .ok s' →
      own s' service property = own s service property :=
    fun m _ hne s s' hstep => combineRules_frame (fun heq => hne heq.2.symm) hstep
  cases hl : properties.lookup property with
  | none =>
    rw [foldlM_of_not_mem (f := fun m => own m service property) hl hframe h]
    exact hmerged
  | some rules =>
    obtain ⟨s, s', hstep, hs, hs'⟩ :=
      foldlM_at (f := fun m => own m service property) hn hl hframe h
    obtain ⟨hnr, hvr⟩ := hvalid (property, rules) (mem_of_lookup hl)
    rw [hs']
    exact combineRules_combined hnr hvr (hs ▸ hmerged) hstep

/-- One more statement, from the trust anchor down. -/
theorem combineStatement_combined {merged merged' : Metadata} {statement : PolicyStatement}
    {service property : String} {policies : List Members}
    (hmerged : Combined policies (own merged service property))
    (h : combineStatement merged statement = .ok merged') :
    Combined ((statement.rules service property).toList ++ policies)
      (own merged' service property) := by
  obtain ⟨policy, crit, hvalid⟩ := statement
  cases policy with
  | none =>
    cases h
    exact hmerged
  | some policy =>
    obtain ⟨hn, hblocks⟩ := hvalid policy rfl
    have hframe : ∀ m ∈ policy, m.1 ≠ service → ∀ s s', combineService crit s m = .ok s' →
        own s' service property = own s service property :=
          fun m _ hne s s' hstep => combineService_frame hne hstep
    rw [PolicyStatement.rules, Option.bind_some]
    cases hl : policy.lookup service with
    | none =>
      rw [foldlM_of_not_mem (f := fun m => own m service property) hl hframe h]
      exact hmerged
    | some properties =>
      obtain ⟨s, s', hstep, hs, hs'⟩ :=
        foldlM_at (f := fun m => own m service property) hn hl hframe h
      obtain ⟨hnp, hvp⟩ := hblocks (service, properties) (mem_of_lookup hl)
      rw [hs']
      exact combineService_combined hnp hvp (hs ▸ hmerged) hstep

theorem Combined.of_perm {policies policies' : List Members} {own : Option Value}
    (h : Combined policies own) (hp : policies.Perm policies') : Combined policies' own := by
  cases own with
  | none =>
    rw [show policies = [] from h] at hp
    exact hp.nil_eq.symm
  | some v =>
    obtain ⟨C, hv, hn, hz, hC⟩ := h
    refine ⟨C, hv, hn, hz, fun op => ?_⟩
    have hop := hC op
    cases hc : C.lookup op.key with
    | none =>
      rw [hc] at hop
      exact fun rules hr => hop rules (hp.mem_iff.mpr hr)
    | some c =>
      rw [hc] at hop
      obtain ⟨⟨rules, hr, hne⟩, href⟩ := hop
      exact ⟨⟨rules, hp.mem_iff.mp hr, hne⟩, fun rules' hr' => href rules' (hp.mem_iff.mpr hr')⟩

theorem combineStatements_combined {service property : String} {statements : List PolicyStatement} :
    ∀ {merged merged' : Metadata} {policies : List Members},
    Combined policies (own merged service property) →
      statements.foldlM combineStatement merged = .ok merged' →
      Combined (policiesOf statements service property ++ policies)
        (own merged' service property) := by
  induction statements with
  | nil =>
    intro merged merged' policies hmerged h
    cases h
    exact hmerged
  | cons statement statements ih =>
    intro merged merged' policies hmerged h
    rw [List.foldlM_cons] at h
    obtain ⟨next, hnext, h⟩ := bind_eq_ok.mp h
    refine (ih (combineStatement_combined hmerged hnext) h).of_perm ?_
    rw [policiesOf, policiesOf, List.filterMap_cons]
    cases statement.rules service property with
    | none => exact List.Perm.refl _
    | some rules => exact List.perm_middle

/-- The combined policy of a parameter combines those of the statements. -/
theorem combineMetadataPolicies_combined {statements : List PolicyStatement} {merged : Metadata}
    (h : combineMetadataPolicies statements = .ok merged) (service property : String) :
    Combined (policiesOf statements service property) (own merged service property) := by
  rw [combineMetadataPolicies] at h
  split at h
  case isTrue => cases h
  case isFalse =>
    have hstart : Combined [] (own [] service property) := rfl
    have hcombined := combineStatements_combined hstart h
    rw [List.append_nil] at hcombined
    exact hcombined.of_perm ((List.reverse_perm statements).filterMap _)

theorem combineStatement_keysDistinct {merged merged' : Metadata} {statement : PolicyStatement}
    (hmerged : KeysDistinct merged) (h : combineStatement merged statement = .ok merged') :
    KeysDistinct merged' := by
  rw [combineStatement] at h
  split at h
  case h_1 =>
    refine foldlM_invariant (motive := KeysDistinct)
      (fun service _ s s' hs hservice => ?_) hmerged h
    refine foldlM_invariant (motive := KeysDistinct)
      (fun property _ t t' ht hstep => ?_) hs hservice
    obtain ⟨C, rfl, -⟩ := combineRules_eq_ok hstep
    exact keysDistinct_setPropertyValue ht
  case h_2 =>
    cases h
    exact hmerged

theorem combineMetadataPolicies_keysDistinct {statements : List PolicyStatement} {merged : Metadata}
    (h : combineMetadataPolicies statements = .ok merged) : KeysDistinct merged := by
  rw [combineMetadataPolicies] at h
  split at h
  case isTrue => cases h
  case isFalse =>
    exact foldlM_invariant (motive := KeysDistinct)
      (fun _ _ _ _ hs hstep => combineStatement_keysDistinct hs hstep)
      ⟨show (keys ([] : Metadata)).Nodup from List.nodup_nil, fun _ hblock => by cases hblock⟩ h

end IdentityCommon.OpenidFederation
