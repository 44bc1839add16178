import IdentityCommon.OpenidFederation.PolicyApplication
import IdentityCommon.OpenidFederation.TrustChains

/-!
# The entity types of a trust chain

Which entity types are left in the metadata of a leaf when the metadata of its superior is merged
into it, the entity types that the constraints do not allow are removed, and the policies are
applied.

## Main results

- `hasService_resolveLeafMetadata` — those of the leaf that every constraint allows; an entity type
  that has the name of a member of every object is the exception, as it is taken to be there
-/

namespace IdentityCommon.OpenidFederation

open IdentityCommon.Except AssocList Ecma Value KeyedFold

variable {s service property : String} {metadata metadata' : Metadata}

theorem hasService_iff : HasService s metadata ↔ s ∈ keys metadata := lookup_isSome_iff

theorem hasService_of_hasEntityType (hs : isInherited s = false)
    (h : hasEntityType metadata s = true) :
    HasService s metadata := by
  rw [hasEntityType, hs, Bool.or_false] at h
  exact h

/-! ## Setting and deleting -/

theorem hasService_insert_iff {block : Members} (hs : s ≠ service) :
    HasService s (insert service block metadata) ↔ HasService s metadata := by
  rw [HasService, lookup_insert, if_neg hs, HasService]

theorem hasService_setPropertyValue_iff {v : Value} (hs : s ≠ service) :
    HasService s (setPropertyValue metadata service property v) ↔ HasService s metadata := by
  rw [setPropertyValue]
  exact hasService_insert_iff hs

theorem hasService_perform_iff {action : Action} (hs : s ≠ service) :
    HasService s (perform metadata service property action) ↔ HasService s metadata := by
  cases action with
  | keep => exact Iff.rfl
  | set v => exact hasService_setPropertyValue_iff hs
  | delete =>
    rw [perform, deleteProperty]
    split
    case h_1 => exact hasService_insert_iff hs
    case h_2 =>
      by_cases hinherited : isInherited service = true
      · rw [if_pos hinherited]
        exact hasService_insert_iff hs
      · rw [if_neg hinherited]

/-! ## Policies -/

/-- The policy of a parameter changes the entity type of the parameter only. -/
theorem hasService_applyProperty_iff {rule : String × Value} (hs : s ≠ service)
    (h : applyProperty service metadata rule = .ok metadata') :
    HasService s metadata' ↔ HasService s metadata := by
  rw [applyProperty] at h
  split at h
  case isTrue =>
    cases h
    exact Iff.rfl
  case isFalse =>
    have hopen : HasService s (openScope metadata service rule.1) ↔ HasService s metadata := by
      rw [openScope]
      split
      case h_1 => exact hasService_setPropertyValue_iff hs
      case h_2 => exact Iff.rfl
    obtain ⟨applied, happlied, h⟩ := bind_eq_ok.mp h
    have hrun : HasService s applied ↔ HasService s metadata := by
      refine foldlM_invariant (motive := fun t => HasService s t ↔ HasService s metadata)
        (fun policy _ t t' ht hstep => ?_) hopen happlied
      obtain ⟨action, -, hstep⟩ := bind_eq_ok.mp hstep
      cases hstep
      exact (hasService_perform_iff hs).trans ht
    rw [closeScope] at h
    split at h
    case h_1 =>
      split at h
      case h_1 =>
        cases h
        exact (hasService_setPropertyValue_iff hs).trans hrun
      case h_2 => cases h
    case h_2 =>
      cases h
      exact hrun

/-- Policies neither add nor remove an entity type. -/
theorem hasService_applyMetadataPolicyToMetadata {policy : Metadata} (hs : isInherited s = false)
    (h : applyMetadataPolicyToMetadata metadata policy = .ok metadata') :
    HasService s metadata' ↔ HasService s metadata := by
  refine foldlM_invariant (motive := fun t => HasService s t ↔ HasService s metadata)
    (fun service _ t t' ht hstep => ?_) Iff.rfl h
  by_cases hsame : s = service.1
  · -- an entity type that is there stays, and the policy of one that is not there is skipped
    by_cases hhas : HasService s t
    · exact iff_of_true (applyService_frame (p := "") hhas hstep).1 (ht.mp hhas)
    · have hnot : hasEntityType t service.1 = false := by
        rw [← hsame, Bool.eq_false_iff]
        exact fun h => hhas (hasService_of_hasEntityType hs h)
      rw [applyService, hnot] at hstep
      cases hstep
      exact ht
  · rw [applyService] at hstep
    split at hstep
    case isTrue =>
      cases hstep
      exact ht
    case isFalse =>
      refine foldlM_invariant (motive := fun t => HasService s t ↔ HasService s metadata)
        (fun rule _ t t' ht hstep => ?_) ht hstep
      exact (hasService_applyProperty_iff hsame hstep).trans ht

/-! ## Merging and constraints -/

theorem hasService_foldl_set {block : Members} (h : s = service → HasService s metadata) :
    HasService s (block.foldl
      (fun merged property => setPropertyValue merged service property.1 property.2) metadata) ↔
      HasService s metadata := by
  induction block generalizing metadata with
  | nil => exact Iff.rfl
  | cons property block ih =>
    rw [List.foldl_cons, ih fun hs => hasService_setPropertyValue (h hs)]
    by_cases hs : s = service
    · exact iff_of_true (hasService_setPropertyValue (h hs)) (h hs)
    · exact hasService_setPropertyValue_iff hs

/-- The metadata of a superior does not add an entity type. -/
theorem hasService_mergeMetadata (hs : isInherited s = false) (leafMetadata superior : Metadata) :
    HasService s (mergeMetadata leafMetadata superior) ↔ HasService s leafMetadata := by
  rw [mergeMetadata]
  induction superior generalizing leafMetadata with
  | nil => exact Iff.rfl
  | cons entity superior ih =>
    rw [List.foldl_cons, ih]
    split
    case isTrue hhas => exact hasService_foldl_set fun hsame =>
      hasService_of_hasEntityType hs (hsame ▸ hhas)
    case isFalse => exact Iff.rfl

/-- An entity type that the constraints of a statement allow. -/
def Allows (statement : EntityStatementClaims) (entityType : String) : Prop :=
  ∀ types, statement.constraints.bind (·.allowedEntityTypes) = some types →
    entityType = "federation_entity" ∨ entityType ∈ types

theorem hasService_restrictEntityTypes {statements : List EntityStatementClaims} :
    HasService s (restrictEntityTypes metadata statements) ↔
      HasService s metadata ∧ ∀ statement ∈ statements, Allows statement s := by
  rw [restrictEntityTypes, hasService_iff, hasService_iff]
  by_cases hnone : (statements.filterMap fun statement => statement.constraints.bind
    (·.allowedEntityTypes)) = []
  · rw [if_pos hnone]
    refine (and_iff_left fun statement hstatement types htypes => ?_).symm
    have hmem : types ∈ statements.filterMap fun statement => statement.constraints.bind
        (·.allowedEntityTypes) :=
      List.mem_filterMap.mpr ⟨statement, hstatement, htypes⟩
    rw [hnone] at hmem
    cases hmem
  · rw [if_neg hnone]
    constructor
    · intro hmem
      obtain ⟨entity, hentity, rfl⟩ := List.mem_map.mp hmem
      obtain ⟨hentity, hallowed⟩ := List.mem_filter.mp hentity
      refine ⟨mem_keys_of_mem hentity, fun statement hstatement types htypes => ?_⟩
      rcases Bool.or_eq_true _ _ ▸ hallowed with hfederation | hall
      · exact .inl (of_decide_eq_true hfederation)
      · have htype := List.all_eq_true.mp hall types
          (List.mem_filterMap.mpr ⟨statement, hstatement, htypes⟩)
        exact .inr (of_decide_eq_true htype)
    · rintro ⟨hmem, hallows⟩
      obtain ⟨entity, hentity, rfl⟩ := List.mem_map.mp hmem
      refine List.mem_map.mpr ⟨entity, List.mem_filter.mpr ⟨hentity, ?_⟩, rfl⟩
      by_cases hfederation : entity.1 = "federation_entity"
      · rw [decide_eq_true hfederation, Bool.true_or]
      · rw [decide_eq_false hfederation, Bool.false_or, List.all_eq_true]
        intro types htypes
        obtain ⟨statement, hstatement, htypes⟩ := List.mem_filterMap.mp htypes
        exact decide_eq_true ((hallows statement hstatement types htypes).resolve_left hfederation)

/-- The entity types that are left are those of the leaf that the constraints of all statements
allow. -/
theorem hasService_resolveLeafMetadata {leafConfiguration : EntityStatementClaims}
    {statements : List EntityStatementClaims} (hs : isInherited s = false)
    (h : resolveLeafMetadata leafConfiguration statements = .ok metadata) :
    HasService s metadata ↔
      HasService s (leafConfiguration.metadata.getD []) ∧
      ∀ statement ∈ statements, Allows statement s := by
  obtain ⟨mergedPolicy, -, h⟩ := bind_eq_ok.mp h
  rw [hasService_applyMetadataPolicyToMetadata hs h, hasService_restrictEntityTypes,
    hasService_mergeMetadata hs]

end IdentityCommon.OpenidFederation
