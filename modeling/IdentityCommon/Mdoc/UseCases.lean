import Mathlib.Data.List.Sort
import IdentityCommon.Lib.CompatibleChoice
import IdentityCommon.Mdoc.Attribution

/-!
# Use cases of a device request

Which use cases a response satisfies, and the document sets they are answered with together.

## Main definitions

- `docRequestResults` — the doc requests that are satisfied
- `matchUseCases` — the document sets of each use case that are satisfied
- `chooseDocumentSets` — one document set per use case, answered together
- `Choosable`, `IsChoice` — what the choice is meant to be, in terms of what can be answered
  together

## Main results

- `chooseDocumentSets_isSome_iff`, `chooseDocumentSets_eq_some` — when there is a choice, and what
  it is
- `useCaseChoice` — the choice for the documents of a response

## Design notes

A doc request and a use case are known by their positions. `canAnswer` is the function that the
attribution gives, whatever it was called for before.
-/

namespace IdentityCommon.Mdoc

open AssocList CompatibleChoice

/-! ## Use cases -/

structure UseCase where
  mandatory : Bool
  purposeHints : Option (List (String × ℤ)) := none
  documentSets : List (List ℕ)

inductive UseCasesSource
  | deviceRequestInfo | eachDocRequest | allDocRequests
  deriving DecidableEq

structure UseCaseMatch where
  useCaseIndex : ℕ
  mandatory : Bool
  purposeHints : Option (List (String × ℤ))
  success : Bool
  documentSets : List (List ℕ)
  matchingDocumentSets : List (List ℕ)

/-- The use cases of a device request with `docRequests` doc requests: its own, or else the doc
requests. -/
def resolveUseCases (useCases : Option (List UseCase)) (docRequests : ℕ)
    (treatAmbiguousMultipleDocRequestsAsAlternatives : Bool) : UseCasesSource × List UseCase :=
  match useCases with
  | some useCases => (.deviceRequestInfo, useCases)
  | none =>
    if treatAmbiguousMultipleDocRequestsAsAlternatives ∧ docRequests > 1 then
      (.eachDocRequest,
        (List.range docRequests).map fun index =>
          { mandatory := false, documentSets := [[index]] })
    else (.allDocRequests, [{ mandatory := true, documentSets := [List.range docRequests] }])

/-- Every doc request of a set is satisfied, and they can be answered together. -/
def isSatisfied (docRequests : List Bool) (canAnswer : List ℕ → Bool) (set : List ℕ) : Bool :=
  (set.all fun index => docRequests[index]? = some true) && canAnswer set

def matchUseCase (docRequests : List Bool) (canAnswer : List ℕ → Bool) (useCaseIndex : ℕ)
    (useCase : UseCase) : UseCaseMatch :=
  let satisfied := useCase.documentSets.filter (isSatisfied docRequests canAnswer)
  { useCaseIndex
    mandatory := useCase.mandatory
    purposeHints := useCase.purposeHints
    success := !satisfied.isEmpty
    documentSets := useCase.documentSets
    matchingDocumentSets := satisfied }

def matchUseCases (useCases : List UseCase) (docRequests : List Bool) (canAnswer : List ℕ → Bool) :
    List UseCaseMatch × Bool :=
  let matched := useCases.mapIdx (matchUseCase docRequests canAnswer)
  (matched, (matched.all fun useCase => !useCase.mandatory || useCase.success) &&
    matched.any UseCaseMatch.success)

/-! ## The choice -/

/-- A use case with the document set it is answered with. -/
structure Chosen where
  useCaseIndex : ℕ
  documentSet : List ℕ
  deriving DecidableEq

/-- The sets of a use case, the one that most documents may answer first. -/
def preferredOf (documentsOf : List ℕ → ℕ) (useCase : UseCaseMatch) : List Chosen :=
  let sets := useCase.matchingDocumentSets.mapIdx fun order documentSet => (documentSet, order,
    documentsOf documentSet)
  let sorted := sets.mergeSort fun a b => b.2.2 < a.2.2 || (b.2.2 = a.2.2 && a.2.1 ≤ b.2.1)
  sorted.map fun a => { useCaseIndex := useCase.useCaseIndex, documentSet := a.1 }

def preferences (documentsOf : List ℕ → ℕ) (useCases : List UseCaseMatch) :
    List (ℕ × List Chosen) :=
  useCases.foldl (fun acc useCase => insert useCase.useCaseIndex
    (preferredOf documentsOf useCase) acc) []

def preferred (documentsOf : List ℕ → ℕ) (useCases : List UseCaseMatch)
    (useCase : UseCaseMatch) : List Chosen :=
  ((preferences documentsOf useCases).lookup useCase.useCaseIndex).getD []

def chooseDocumentSets (useCases : List UseCaseMatch) (canAnswer : List ℕ → Bool)
    (documentsOf : List ℕ → ℕ) : Option (List Chosen) :=
  let options := preferred documentsOf useCases
  match search canAnswer Chosen.documentSet options (useCases.filter UseCaseMatch.mandatory) [] with
  | none => none
  | some chosen =>
    let chosen := extend canAnswer Chosen.documentSet options
      (useCases.filter fun useCase => !useCase.mandatory) chosen
    let sorted := chosen.mergeSort fun a b => a.useCaseIndex ≤ b.useCaseIndex
    if sorted.length > 0 then some sorted else none

/-! ## The documents of a response -/

/-- The documents that may answer a doc request, and those that satisfy it. -/
structure DocRequestDocuments where
  uniqueDocSetRequired : Bool
  candidateDocuments : List ℕ
  validDocuments : List ℕ
  valid_subset : validDocuments ⊆ candidateDocuments

def attributionCandidates (docRequests : List DocRequestDocuments) : List DocRequestCandidates :=
  docRequests.mapIdx fun docRequestIndex docRequest => { docRequest with docRequestIndex }

/-- A doc request with a document that satisfies it, unless it takes one document only and they are
too many, or leave it none. -/
def docRequestSuccess (excess : Excess) (canAnswer : List ℕ → Bool) (docRequestIndex : ℕ)
    (docRequest : DocRequestDocuments) : Bool :=
  if docRequest.uniqueDocSetRequired ∧
    docRequest.candidateDocuments.any (· ∈ excess.documentIndexes) then false
  else if docRequest.uniqueDocSetRequired ∧ !docRequest.validDocuments.isEmpty ∧
  !canAnswer [docRequestIndex] then false
  else !docRequest.validDocuments.isEmpty

def docRequestResults (excess : Excess) (canAnswer : List ℕ → Bool)
    (docRequests : List DocRequestDocuments) : List Bool :=
  docRequests.mapIdx (docRequestSuccess excess canAnswer)

/-- How many documents may answer the doc requests of a set. -/
def documentsOf (docRequests : List DocRequestDocuments) (documentSet : List ℕ) : ℕ :=
  (documentSet.flatMap fun index =>
    (docRequests[index]?.map DocRequestDocuments.candidateDocuments).getD []).dedup.length

/-! ## What the choice is meant to be -/

/-- The doc requests of one matching document set per mandatory use case can be answered together,
or without a mandatory one those of a matching document set of any use case. -/
def Choosable (answerable : List ℕ → Prop) (useCases : List UseCaseMatch) : Prop :=
  if useCases.filter UseCaseMatch.mandatory = [] then
    ∃ useCase ∈ useCases, ∃ set ∈ useCase.matchingDocumentSets, answerable set
  else
    ∃ sets, List.Forall₂ (fun useCase set => set ∈ useCase.matchingDocumentSets)
      (useCases.filter UseCaseMatch.mandatory) sets ∧ answerable sets.flatten

/-- A choice with every mandatory use case and at most one set per use case, that can be answered
together, and no longer where a set of a use case left out is added. -/
structure IsChoice (answerable : List ℕ → Prop) (useCases : List UseCaseMatch)
    (choice : List Chosen) : Prop where
  matching : ∀ chosen ∈ choice, ∃ useCase ∈ useCases, useCase.useCaseIndex = chosen.useCaseIndex ∧
    chosen.documentSet ∈ useCase.matchingDocumentSets
  nodup : (choice.map Chosen.useCaseIndex).Nodup
  mandatory : ∀ useCase ∈ useCases, useCase.mandatory →
    useCase.useCaseIndex ∈ choice.map Chosen.useCaseIndex
  together : answerable (choice.flatMap Chosen.documentSet)
  maximal : ∀ useCase ∈ useCases, useCase.useCaseIndex ∉ choice.map Chosen.useCaseIndex →
    ∀ set ∈ useCase.matchingDocumentSets, ¬answerable (choice.flatMap Chosen.documentSet ++ set)

/-! ## Options of a use case -/

theorem mem_preferredOf {documentsOf : List ℕ → ℕ} {useCase : UseCaseMatch} {chosen : Chosen} :
    chosen ∈ preferredOf documentsOf useCase ↔
      chosen.useCaseIndex = useCase.useCaseIndex ∧
      chosen.documentSet ∈ useCase.matchingDocumentSets := by
  simp only [preferredOf, List.mem_map, List.mem_mergeSort, List.mem_mapIdx]
  constructor
  · rintro ⟨_, ⟨i, hi, rfl⟩, rfl⟩
    exact ⟨rfl, List.getElem_mem hi⟩
  · rintro ⟨hindex, hset⟩
    obtain ⟨i, hi, heq⟩ := List.mem_iff_getElem.mp hset
    refine ⟨_, ⟨i, hi, rfl⟩, ?_⟩
    cases chosen
    exact congrArg₂ Chosen.mk hindex.symm heq

theorem preferred_eq {documentsOf : List ℕ → ℕ} {useCases : List UseCaseMatch}
    (hn : (useCases.map UseCaseMatch.useCaseIndex).Nodup) {useCase : UseCaseMatch}
    (hmem : useCase ∈ useCases) :
    preferred documentsOf useCases useCase = preferredOf documentsOf useCase := by
  let entries := useCases.map fun useCase => (useCase.useCaseIndex, preferredOf documentsOf useCase)
  have hkeys : keys entries = useCases.map UseCaseMatch.useCaseIndex := List.map_map
  have hentries : preferences documentsOf useCases = entries := by
    have hfold : preferences documentsOf useCases =
        entries.foldl (fun acc m => insert m.1 m.2 acc) [] := by
      rw [List.foldl_map]
      rfl
    rw [hfold, foldl_insert]
    · rfl
    · rw [List.nil_append, hkeys]
      exact hn
  have hlookup : entries.lookup useCase.useCaseIndex = some (preferredOf documentsOf useCase) :=
    lookup_of_mem (hkeys ▸ hn) (List.mem_map_of_mem hmem)
  rw [preferred, hentries, hlookup]
  rfl

theorem mem_preferred {documentsOf : List ℕ → ℕ} {useCases : List UseCaseMatch}
    (hn : (useCases.map UseCaseMatch.useCaseIndex).Nodup) {useCase : UseCaseMatch}
    (hmem : useCase ∈ useCases) {chosen : Chosen} :
    chosen ∈ preferred documentsOf useCases useCase ↔
      chosen.useCaseIndex = useCase.useCaseIndex ∧
      chosen.documentSet ∈ useCase.matchingDocumentSets := by
  rw [preferred_eq hn hmem, mem_preferredOf]

theorem nodup_useCaseIndex (useCases : List UseCase) (docRequests : List Bool)
    (canAnswer : List ℕ → Bool) :
    ((matchUseCases useCases docRequests canAnswer).1.map UseCaseMatch.useCaseIndex).Nodup := by
  have hrange : (matchUseCases useCases docRequests canAnswer).1.map UseCaseMatch.useCaseIndex =
      List.range useCases.length := by
    apply List.ext_getElem
    · simp [matchUseCases]
    · intro i hi hi'
      simp [matchUseCases, matchUseCase]
  rw [hrange]
  exact List.nodup_range

/-! ## Choices -/

section

variable {useCases : List UseCaseMatch} {canAnswer : List ℕ → Bool} {documentsOf : List ℕ → ℕ}
  (hn : (useCases.map UseCaseMatch.useCaseIndex).Nodup) (hclosed : SubsetClosed canAnswer)

include hn

theorem forall₂_preferred {picked : List UseCaseMatch} {choice : List Chosen}
    (hsub : picked ⊆ useCases)
    (h : List.Forall₂ (fun useCase chosen =>
      chosen ∈ preferred documentsOf useCases useCase) picked choice) :
    choice.map Chosen.useCaseIndex = picked.map UseCaseMatch.useCaseIndex ∧
      (∀ chosen ∈ choice, ∃ useCase ∈ useCases, useCase.useCaseIndex = chosen.useCaseIndex ∧
        chosen.documentSet ∈ useCase.matchingDocumentSets) ∧
      List.Forall₂ (fun useCase set => set ∈ useCase.matchingDocumentSets) picked
        (choice.map Chosen.documentSet) := by
  induction h with
  | nil => exact ⟨rfl, nofun, .nil⟩
  | @cons useCase chosen picked choice hchosen hforall ih =>
    obtain ⟨hmem, hrest⟩ := List.cons_subset.mp hsub
    obtain ⟨hindices, hmatching, hsets⟩ := ih hrest
    obtain ⟨hindex, hset⟩ := (mem_preferred hn hmem).mp hchosen
    refine ⟨?_, ?_, .cons hset hsets⟩
    · rw [List.map_cons, List.map_cons, hindices, hindex]
    · rintro chosen' hchosen'
      rcases List.mem_cons.mp hchosen' with rfl | hmem'
      · exact ⟨useCase, hmem, hindex.symm, hset⟩
      · exact hmatching chosen' hmem'

/-- A set of each use case is an option of each. -/
theorem exists_options {picked : List UseCaseMatch} {sets : List (List ℕ)}
    (hsub : picked ⊆ useCases)
    (h : List.Forall₂ (fun useCase set => set ∈ useCase.matchingDocumentSets) picked sets) :
    ∃ choice, choice.flatMap Chosen.documentSet = sets.flatten ∧
      List.Forall₂ (fun useCase chosen => chosen ∈ preferred documentsOf useCases useCase)
        picked choice := by
  induction h with
  | nil => exact ⟨[], rfl, .nil⟩
  | @cons useCase set picked sets hset hforall ih =>
    obtain ⟨hmem, hrest⟩ := List.cons_subset.mp hsub
    obtain ⟨choice, hflat, hchoice⟩ := ih hrest
    refine ⟨⟨useCase.useCaseIndex, set⟩ :: choice, ?_, .cons ?_ hchoice⟩
    · rw [List.flatMap_cons, hflat, List.flatten_cons]
    · exact (mem_preferred hn hmem).mpr ⟨rfl, hset⟩

include hclosed

/-- What is chosen for the mandatory use cases and the others, before it is sorted. -/
theorem chooseDocumentSets_eq_some {choice : List Chosen}
    (h : chooseDocumentSets useCases canAnswer documentsOf = some choice) :
    IsChoice (fun required => canAnswer required = true) useCases choice := by
  unfold chooseDocumentSets at h
  dsimp only at h
  split at h
  · cases h
  · next found hfound =>
    obtain ⟨picked, hpicked, hforall, hfits⟩ := search_sound hfound
    obtain rfl : found = picked := hpicked
    obtain ⟨added, hadded, ⟨others, hothers, hforall', hleft⟩, hfits'⟩ :=
      extend_spec (preferred documentsOf useCases) hclosed
        (useCases.filter fun useCase => !useCase.mandatory) found
    rw [hadded] at h
    split at h
    · next hpos =>
      obtain rfl := Option.some.inj h
      have hperm : ((found ++ added).mergeSort fun a b => a.useCaseIndex ≤ b.useCaseIndex).Perm
          (found ++ added) :=
        List.mergeSort_perm _ _
      have hsub : useCases.filter UseCaseMatch.mandatory ⊆ useCases := List.filter_sublist.subset
      have hsub' : others ⊆ useCases := (hothers.trans List.filter_sublist).subset
      obtain ⟨hindices, hmatching, -⟩ := forall₂_preferred hn hsub hforall
      obtain ⟨hindices', hmatching', -⟩ := forall₂_preferred hn hsub' hforall'
      have hnodup : ((found ++ added).map Chosen.useCaseIndex).Nodup := by
        rw [List.map_append, hindices, hindices', ← List.map_append]
        have hall : (useCases.filter UseCaseMatch.mandatory ++ useCases.filter fun useCase =>
            !useCase.mandatory).Perm
            useCases := List.filter_append_perm _ _
        exact (((hall.map _).nodup_iff.mpr hn).sublist ((List.Sublist.append_left hothers _).map _))
      have htogether : canAnswer ((found ++ added).flatMap Chosen.documentSet) = true := by
        by_cases hnil : added = []
        · rw [hnil, List.append_nil]
          refine hfits fun hmandatory => ?_
          rw [hmandatory] at hforall
          cases hforall
          rw [hnil] at hpos
          exact absurd hpos (by simp)
        · exact hfits' hnil
      have hmem : ∀ useCase, useCase ∈ useCases.filter UseCaseMatch.mandatory ∨ useCase ∈ others →
          useCase.useCaseIndex ∈ (found ++ added).map Chosen.useCaseIndex := by
        intro useCase huseCase
        rw [List.map_append, hindices, hindices', ← List.map_append]
        exact List.mem_map_of_mem (List.mem_append.mpr huseCase)
      have hflat : ∀ set, ((found ++ added).flatMap Chosen.documentSet ++ set) ⊆
          (((found ++ added).mergeSort fun a b => a.useCaseIndex ≤ b.useCaseIndex).flatMap
            Chosen.documentSet ++ set) :=
        fun set => List.append_subset.mpr
          ⟨fun x hx => List.mem_append_left _ ((hperm.flatMap_right _).symm.subset hx),
            List.subset_append_right _ _⟩
      refine ⟨?_, ?_, ?_, ?_, ?_⟩
      · intro chosen hchosen
        rcases List.mem_append.mp (hperm.mem_iff.mp hchosen) with hfound | hadded
        · exact hmatching chosen hfound
        · exact hmatching' chosen hadded
      · exact (hperm.map _).nodup_iff.mpr hnodup
      · intro useCase huseCase hmandatory
        refine (hperm.map _).mem_iff.mpr
          (hmem useCase (.inl (List.mem_filter.mpr ⟨huseCase, hmandatory⟩)))
      · exact hclosed _ _ (hperm.flatMap_right _).subset htogether
      · intro useCase huseCase hout set hset hanswer
        have hout' : useCase.useCaseIndex ∉ (found ++ added).map Chosen.useCaseIndex :=
          fun h => hout ((hperm.map _).mem_iff.mpr h)
        have hoptional : useCase ∈ useCases.filter fun useCase => !useCase.mandatory := by
          refine List.mem_filter.mpr ⟨huseCase, ?_⟩
          cases hmandatory : useCase.mandatory with
          | false => rfl
          | true =>
            have hin := hmem useCase (.inl (List.mem_filter.mpr ⟨huseCase, hmandatory⟩))
            exact absurd hin hout'
        rcases hleft useCase hoptional with hpicked' | hfails
        · exact hout' (hmem useCase (.inr hpicked'))
        · have hfails' := hfails ⟨useCase.useCaseIndex, set⟩
            ((mem_preferred hn huseCase).mpr ⟨rfl, hset⟩)
          exact Bool.eq_false_iff.mp hfails' (hclosed _ _ (hflat set) hanswer)
    · cases h

/-- There is a choice exactly when the mandatory use cases can be answered together, or without one
some use case. -/
theorem chooseDocumentSets_isSome_iff :
    (∃ choice, chooseDocumentSets useCases canAnswer documentsOf = some choice) ↔
      Choosable (fun required => canAnswer required = true) useCases := by
  have hsub : useCases.filter UseCaseMatch.mandatory ⊆ useCases := List.filter_sublist.subset
  constructor
  · rintro ⟨choice, h⟩
    have hchoice := chooseDocumentSets_eq_some hn hclosed h
    unfold chooseDocumentSets at h
    dsimp only at h
    split at h
    · cases h
    · next found hfound =>
      obtain ⟨picked, hpicked, hforall, hfits⟩ := search_sound hfound
      obtain rfl : found = picked := hpicked
      obtain ⟨-, -, hsets⟩ := forall₂_preferred hn hsub hforall
      unfold Choosable
      split
      · -- without a mandatory use case, any set that is chosen can be answered on its own
        obtain ⟨chosen, hchosen⟩ : ∃ chosen, chosen ∈ choice := by
          split at h
          · next hpos =>
            obtain rfl := Option.some.inj h
            exact List.exists_mem_of_length_pos hpos
          · cases h
        obtain ⟨useCase, huseCase, -, hset⟩ := hchoice.matching chosen hchosen
        refine ⟨useCase, huseCase, chosen.documentSet, hset, hclosed _ _ ?_ hchoice.together⟩
        exact fun index hindex => List.mem_flatMap.mpr ⟨chosen, hchosen, hindex⟩
      · next hmandatory =>
        refine ⟨_, hsets, ?_⟩
        rw [← List.flatMap_def]
        exact hfits hmandatory
  · intro h
    obtain ⟨found, hfound, hnonempty⟩ : ∃ found,
        search canAnswer Chosen.documentSet (preferred documentsOf useCases)
          (useCases.filter UseCaseMatch.mandatory) [] =
          some found ∧ 0 < (extend canAnswer Chosen.documentSet (preferred documentsOf useCases)
            (useCases.filter fun useCase => !useCase.mandatory) found).length := by
      unfold Choosable at h
      split at h
      · next hnil =>
        obtain ⟨useCase, huseCase, set, hset, hanswer⟩ := h
        refine ⟨[], by rw [hnil]; rfl, ?_⟩
        obtain ⟨added, hadded, ⟨others, hothers, hforall, hleft⟩, -⟩ :=
          extend_spec (preferred documentsOf useCases) hclosed
            (useCases.filter fun useCase => !useCase.mandatory) []
        rw [hadded, List.nil_append, List.length_pos_iff]
        rintro rfl
        cases hforall
        have hoptional : useCase ∈ useCases.filter fun useCase => !useCase.mandatory := by
          refine List.mem_filter.mpr ⟨huseCase, ?_⟩
          cases hmandatory : useCase.mandatory with
          | false => rfl
          | true =>
            exact absurd (List.mem_filter.mpr ⟨huseCase, hmandatory⟩) (hnil ▸ List.not_mem_nil)
        rcases hleft useCase hoptional with hpicked | hfails
        · exact absurd hpicked List.not_mem_nil
        · have hfails' := hfails ⟨useCase.useCaseIndex, set⟩
            ((mem_preferred hn huseCase).mpr ⟨rfl, hset⟩)
          exact absurd hanswer (Bool.eq_false_iff.mp hfails')
      · next hmandatory =>
        obtain ⟨sets, hsets, hanswer⟩ := h
        obtain ⟨choice, hflat, hchoice⟩ := @exists_options useCases documentsOf hn _ _ hsub hsets
        have hanswer' : canAnswer (([] ++ choice).flatMap Chosen.documentSet) = true := by
          rw [List.nil_append, hflat]
          exact hanswer
        obtain ⟨found, hfound⟩ := exists_search hclosed hchoice hanswer'
        refine ⟨found, hfound, ?_⟩
        obtain ⟨picked, hpicked, hforall, -⟩ := search_sound hfound
        obtain rfl : found = picked := hpicked
        obtain ⟨added, hadded, -, -⟩ := extend_spec (preferred documentsOf useCases) hclosed
          (useCases.filter fun useCase => !useCase.mandatory) found
        rw [hadded, List.length_append, ← hforall.length_eq]
        exact Nat.lt_of_lt_of_le (List.length_pos_iff.mpr hmandatory) (Nat.le_add_right _ _)
    unfold chooseDocumentSets
    dsimp only
    rw [hfound]
    dsimp only
    rw [if_pos (by rw [List.length_mergeSort]; exact hnonempty)]
    exact ⟨_, rfl⟩

end

/-! ## The documents of a response -/

/-- Fewer doc requests can be answered together as well. -/
theorem Answerable.mono {docRequests : List DocRequestCandidates} {required required' : List ℕ}
    (h : Answerable docRequests required') (hsub : required ⊆ required') :
    Answerable docRequests required := by
  obtain ⟨take, htake⟩ := h.sharesOut
  exact {
    valid := fun index hindex => h.valid index (hsub hindex)
    not_tooMany := fun index hindex => h.not_tooMany index (hsub hindex)
    sharesOut := ⟨take, { htake with
      satisfied := fun d hd hindex => htake.satisfied d hd (hsub hindex) }⟩ }

theorem nodup_attributionCandidates (docRequests : List DocRequestDocuments) :
    ((attributionCandidates docRequests).map DocRequestCandidates.docRequestIndex).Nodup := by
  have hrange : (attributionCandidates docRequests).map DocRequestCandidates.docRequestIndex =
      List.range docRequests.length := by
    apply List.ext_getElem
    · simp [attributionCandidates]
    · intro i hi hi'
      simp [attributionCandidates]
  rw [hrange]
  exact List.nodup_range

theorem Choosable.congr {answerable answerable' : List ℕ → Prop}
    (h : ∀ required, answerable required ↔ answerable' required) {useCases : List UseCaseMatch} :
    Choosable answerable useCases ↔ Choosable answerable' useCases := by
  obtain rfl : answerable = answerable' := funext fun required => propext (h required)
  exact Iff.rfl

theorem IsChoice.congr {answerable answerable' : List ℕ → Prop}
    (h : ∀ required, answerable required ↔ answerable' required) {useCases : List UseCaseMatch}
    {choice : List Chosen} (hchoice : IsChoice answerable useCases choice) :
    IsChoice answerable' useCases choice := by
  obtain rfl : answerable = answerable' := funext fun required => propext (h required)
  exact hchoice

/-- The choice for the documents of a response is complete: where the use cases are matched, there
is one exactly when the mandatory use cases can be answered together, and it cannot be extended. -/
theorem useCaseChoice (docRequests : List DocRequestDocuments) (useCases : List UseCase) :
    ∃ a canAnswer, createAttribution (attributionCandidates docRequests) = some a ∧
      (∀ required, AnswersWith a required (canAnswer required)) ∧
      let answerable := Answerable (attributionCandidates docRequests)
      let (matched, success) :=
        matchUseCases useCases (docRequestResults a.excess canAnswer docRequests) canAnswer
      let choice := chooseDocumentSets matched canAnswer (documentsOf docRequests)
      success = true → ((∃ chosen, choice = some chosen) ↔ Choosable answerable matched) ∧
        ∀ chosen, choice = some chosen → IsChoice answerable matched chosen := by
  obtain ⟨a, ha, hattributes⟩ := exists_createAttribution (nodup_attributionCandidates docRequests)
  choose canAnswer hcanAnswer hiff using hattributes.exists_answersWith
    (nodup_attributionCandidates docRequests)
  have hclosed : SubsetClosed canAnswer := fun required required' hsub htrue =>
    (hiff required).mpr (((hiff required').mp htrue).mono hsub)
  have hn := nodup_useCaseIndex useCases
    (docRequestResults a.excess canAnswer docRequests) canAnswer
  refine ⟨a, canAnswer, ha, hcanAnswer, fun _ => ⟨?_, fun chosen hchosen => ?_⟩⟩
  · exact (chooseDocumentSets_isSome_iff hn hclosed).trans (Choosable.congr hiff)
  · exact (chooseDocumentSets_eq_some hn hclosed hchosen).congr hiff

end IdentityCommon.Mdoc
