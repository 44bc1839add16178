import IdentityCommon.Mdoc.DeviceRequest

/-!
# The answer to a device request

What the verifier makes of the documents that a holder answers a device request with: the documents
of a response that pass the check of the holder are the answer to use cases of the request, and none
of them is one too many.

## Main definitions

- `OwnDocRequests` — a doc request of its own for each document that only doc requests with a unique
  document set may answer
- `Finds` — the verifier finds that the documents satisfy the doc requests that they name

## Main results

- `OwnDocRequests.answerable` — with doc requests of their own, no document is one too many
- `accepted_of_checkRequestInfo` — the verifier accepts what the holder checks

## Design notes

What the documents disclose is seen through the documents that satisfy a doc request.
-/

namespace IdentityCommon.Mdoc

open AssocList BipartiteMatching CompatibleChoice

/-! ## Doc requests of their own -/

theorem Satisfies.mayAnswer {docRequests : List DocRequestCandidates} {d i : ℕ}
    (h : Satisfies docRequests d i) :
    MayAnswer docRequests d i := by
  obtain ⟨docRequest, hmem, hi, hd⟩ := h
  exact ⟨docRequest, hmem, hi, docRequest.valid_subset hd⟩

/-- An assignment of a doc request of its own, which it satisfies, to each document that only doc
requests with a unique document set may answer. -/
structure OwnDocRequests (docRequests : List DocRequestCandidates) (take : ℕ → ℕ) : Prop where
  injective : Set.InjOn take (uniqueDocuments docRequests)
  satisfies : ∀ d ∈ uniqueDocuments docRequests, Satisfies docRequests d (take d)

namespace OwnDocRequests

variable {docRequests : List DocRequestCandidates} {take : ℕ → ℕ}
    (h : OwnDocRequests docRequests take)

include h

/-- A maximum matching assigns to every document when some assignment does. -/
theorem not_tooMany (d : ℕ) : ¬TooMany docRequests d := by
  rintro ⟨m, hm, hd, hnone⟩
  have hall : m.covered = uniqueDocuments docRequests :=
    hm.covered_eq_iff.mpr ⟨take, h.injective, fun d hd => (h.satisfies d hd).mayAnswer⟩
  obtain ⟨i, hi⟩ := Matching.mem_covered.mp (hall ▸ hd)
  cases hnone.symm.trans hi

theorem not_hasTooMany (i : ℕ) : ¬HasTooMany docRequests i := by
  rintro ⟨d, hd, -⟩
  exact h.not_tooMany d hd

theorem answerable {required : List ℕ} (hvalid : ∀ i ∈ required, ∃ d, Satisfies docRequests d i) :
    Answerable docRequests required where
  valid := hvalid
  not_tooMany i _ := h.not_hasTooMany i
  sharesOut := ⟨take, {
    injective := fun _ _ hd hd' heq => h.injective hd.1 hd'.1 heq
    mayAnswer := fun d hd => (h.satisfies d hd.1).mayAnswer
    not_tooMany := fun d _ => h.not_hasTooMany (take d)
    satisfied := fun d hd _ => h.satisfies d hd.1 }⟩

end OwnDocRequests

/-! ## What the verifier finds -/

section

variable {C : Type} {request : DeviceRequest} {documents : List (DocumentOptions C)}
    {docRequests : List DocRequestDocuments}

/-- Some document names the doc request. -/
def Named (documents : List (DocumentOptions C)) (docRequestIndex : ℕ) : Prop :=
  ∃ document ∈ documents, docRequestIndex ∈ document.docRequestIndexes

/-- The verifier has the doc requests of the device request, and finds that each document of the
response satisfies the doc requests that it names. -/
structure Finds (request : DeviceRequest) (documents : List (DocumentOptions C))
    (docRequests : List DocRequestDocuments) : Prop where
  unique : docRequests.map DocRequestDocuments.uniqueDocSetRequired =
    request.docRequests.map DocRequest.uniqueDocSetRequired
  candidates : ∀ docRequest ∈ docRequests, ∀ d ∈ docRequest.candidateDocuments, d < documents.length
  valid : ∀ d (document : DocumentOptions C) i (docRequest : DocRequestDocuments), documents[d]? =
    some document → i ∈ document.docRequestIndexes →
    docRequests[i]? = some docRequest → d ∈ docRequest.validDocuments

theorem mem_attributionCandidates {c : DocRequestCandidates} :
    c ∈ attributionCandidates docRequests ↔
      ∃ (i : ℕ) (docRequest : DocRequestDocuments), docRequests[i]? = some docRequest ∧
        c = { docRequest with docRequestIndex := i } := by
  rw [attributionCandidates, List.mem_mapIdx]
  constructor
  · rintro ⟨i, hi, rfl⟩
    exact ⟨i, docRequests[i], List.getElem?_eq_getElem hi, rfl⟩
  · rintro ⟨i, docRequest, hdocRequest, rfl⟩
    obtain ⟨hi, rfl⟩ := List.getElem?_eq_some_iff.mp hdocRequest
    exact ⟨i, hi, rfl⟩

theorem satisfies_attributionCandidates {d i : ℕ} :
    Satisfies (attributionCandidates docRequests) d i ↔
      ∃ docRequest, docRequests[i]? = some docRequest ∧ d ∈ docRequest.validDocuments := by
  constructor
  · rintro ⟨c, hc, rfl, hd⟩
    obtain ⟨i, docRequest, hdocRequest, rfl⟩ := mem_attributionCandidates.mp hc
    exact ⟨docRequest, hdocRequest, hd⟩
  · rintro ⟨docRequest, hdocRequest, hd⟩
    exact ⟨_, mem_attributionCandidates.mpr ⟨i, docRequest, hdocRequest, rfl⟩, rfl, hd⟩

/-- The doc request of a document that only doc requests with a unique document set may answer. -/
theorem unique_of_mem_uniqueDocuments {d i : ℕ}
    (h : d ∈ uniqueDocuments (attributionCandidates docRequests)) {docRequest : DocRequestDocuments}
    (hdocRequest : docRequests[i]? = some docRequest) (hd : d ∈ docRequest.candidateDocuments) :
    docRequest.uniqueDocSetRequired = true :=
  (Finset.mem_filter.mp h).2 _ (mem_attributionCandidates.mpr ⟨i, docRequest, hdocRequest, rfl⟩) hd

namespace Finds

variable (h : Finds request documents docRequests)

include h

theorem lt_of_mem_uniqueDocuments {d : ℕ}
    (hd : d ∈ uniqueDocuments (attributionCandidates docRequests)) :
    d < documents.length := by
  obtain ⟨c, hc, hmem⟩ := List.mem_flatMap.mp (List.mem_toFinset.mp (Finset.mem_filter.mp hd).1)
  obtain ⟨i, docRequest, hdocRequest, rfl⟩ := mem_attributionCandidates.mp hc
  exact h.candidates docRequest (List.mem_of_getElem? hdocRequest) d hmem

/-- A doc request of the device request is one of the verifier's, with the same requirement. -/
theorem exists_docRequest {i : ℕ} {docRequest : DocRequest}
    (hi : request.docRequests[i]? = some docRequest) :
    ∃ found, docRequests[i]? = some found ∧
    found.uniqueDocSetRequired = docRequest.uniqueDocSetRequired := by
  have hflag := congrArg (fun flags : List Bool => flags[i]?) h.unique
  simp only [List.getElem?_map, hi, Option.map_some] at hflag
  exact Option.map_eq_some_iff.mp hflag

variable {authorityKeyIdentifier : C → Option (List Char)}
  (hanswers : AnswersRequestInfo authorityKeyIdentifier request documents)

include hanswers

/-- A doc request that a document names is satisfied by it. -/
theorem exists_of_named {d i : ℕ} {document : DocumentOptions C}
    (hd : documents[d]? = some document) (hi : i ∈ document.docRequestIndexes) :
    ∃ docRequest found, request.docRequests[i]? = some docRequest ∧
      docRequests[i]? = some found ∧ found.uniqueDocSetRequired = docRequest.uniqueDocSetRequired ∧
      d ∈ found.validDocuments := by
  obtain ⟨docRequest, hdocRequest, -⟩ :=
    (hanswers.names document (List.mem_of_getElem? hd)).accepts i hi
  obtain ⟨found, hfound, hflag⟩ := h.exists_docRequest hdocRequest
  exact ⟨docRequest, found, hdocRequest, hfound, hflag, h.valid d document i found hd hi hfound⟩

theorem satisfies {d i : ℕ} {document : DocumentOptions C} (hd : documents[d]? = some document)
    (hi : i ∈ document.docRequestIndexes) : Satisfies (attributionCandidates docRequests) d i := by
  obtain ⟨-, found, -, hfound, -, hvalid⟩ := h.exists_of_named hanswers hd hi
  exact satisfies_attributionCandidates.mpr ⟨found, hfound, hvalid⟩

theorem satisfies_of_named {i : ℕ} (hi : Named documents i) :
    ∃ d, Satisfies (attributionCandidates docRequests) d i := by
  obtain ⟨document, hmem, hi⟩ := hi
  obtain ⟨d, hd⟩ := List.mem_iff_getElem?.mp hmem
  exact ⟨d, h.satisfies hanswers hd hi⟩

/-- Two documents that only doc requests with a unique document set may answer name none
together. -/
theorem eq_of_named {d d' i : ℕ} {document document' : DocumentOptions C}
    (hd : documents[d]? = some document) (hd' : documents[d']? = some document')
    (hi : i ∈ document.docRequestIndexes) (hi' : i ∈ document'.docRequestIndexes)
    (hmem : d ∈ uniqueDocuments (attributionCandidates docRequests)) : d = d' := by
  obtain ⟨docRequest, found, hdocRequest, hfound, hflag, hvalid⟩ := h.exists_of_named hanswers hd hi
  -- the first document may answer doc requests with a unique document set only, so this is one
  have hunique : found.uniqueDocSetRequired = true :=
    unique_of_mem_uniqueDocuments hmem hfound (found.valid_subset hvalid)
  have hrequires : RequiresUnique request i := ⟨docRequest, hdocRequest, hflag ▸ hunique⟩
  obtain ⟨hlt, rfl⟩ := List.getElem?_eq_some_iff.mp hd
  obtain ⟨hlt', rfl⟩ := List.getElem?_eq_some_iff.mp hd'
  have hpairs := List.pairwise_iff_getElem.mp hanswers.unique
  rcases Nat.lt_trichotomy d d' with hless | heq | hless
  · exact absurd hi' (hpairs d d' hlt hlt' hless i hrequires hi)
  · exact heq
  · exact absurd hi (hpairs d' d hlt' hlt hless i hrequires hi')

/-- Each document takes a doc request that it names. -/
theorem exists_ownDocRequests :
    ∃ take, OwnDocRequests (attributionCandidates docRequests) take := by
  have hnames : ∀ d ∈ uniqueDocuments (attributionCandidates docRequests), ∃ i document,
      documents[d]? = some document ∧ i ∈ document.docRequestIndexes := by
    intro d hd
    have hlt := h.lt_of_mem_uniqueDocuments hd
    obtain ⟨i, hi⟩ := List.exists_mem_of_ne_nil _
      (hanswers.names documents[d] (List.getElem_mem hlt)).nonempty
    exact ⟨i, documents[d], List.getElem?_eq_getElem hlt, hi⟩
  -- any of the doc requests that a document names will do: no two documents share one
  choose! take htake using hnames
  refine ⟨take, ?_, fun d hd => ?_⟩
  · intro d hd d' hd' heq
    obtain ⟨document, hdocument, hi⟩ := htake d hd
    obtain ⟨document', hdocument', hi'⟩ := htake d' hd'
    exact h.eq_of_named hanswers hdocument hdocument' hi (heq ▸ hi') hd
  · obtain ⟨document, hdocument, hi⟩ := htake d hd
    exact h.satisfies hanswers hdocument hi

end Finds

/-! ## The use cases of the verifier -/

/-- A document set of each mandatory use case, and of some use case, is named. -/
def AnswersUseCases (documents : List (DocumentOptions C)) (useCases : List UseCase) : Prop :=
  (∀ useCase ∈ useCases, useCase.mandatory = true → AnswersUseCase documents useCase) ∧
    ∃ useCase ∈ useCases, AnswersUseCase documents useCase

/-- A device request without use cases asks for any doc request, or for all of them. -/
theorem AnswersRequestInfo.resolveUseCases {authorityKeyIdentifier : C → Option (List Char)}
    (h : AnswersRequestInfo authorityKeyIdentifier request documents) (hne : documents ≠ [])
    {treatAmbiguousMultipleDocRequestsAsAlternatives : Bool}
    (hall : request.useCases = none →
      ¬(treatAmbiguousMultipleDocRequestsAsAlternatives ∧ request.docRequests.length > 1) →
        ∀ i < request.docRequests.length, Named documents i) :
    AnswersUseCases documents (Mdoc.resolveUseCases request.useCases request.docRequests.length
      treatAmbiguousMultipleDocRequestsAsAlternatives).2 := by
  cases huseCases : request.useCases with
  | some useCases => exact h.useCases useCases huseCases hne
  | none =>
    unfold Mdoc.resolveUseCases
    dsimp only
    split
    case isTrue =>
      -- any doc request that a document names will do
      obtain ⟨document, hmem⟩ := List.exists_mem_of_ne_nil _ hne
      obtain ⟨i, hi⟩ := List.exists_mem_of_ne_nil _ (h.names document hmem).nonempty
      obtain ⟨docRequest, hdocRequest, -⟩ := (h.names document hmem).accepts i hi
      obtain ⟨hlt, -⟩ := List.getElem?_eq_some_iff.mp hdocRequest
      refine ⟨fun useCase huseCase hmandatory => ?_, _,
        List.mem_map_of_mem (List.mem_range.mpr hlt), [i], List.mem_singleton_self _,
          fun j hj => ?_⟩
      · obtain ⟨j, -, rfl⟩ := List.mem_map.mp huseCase
        exact absurd hmandatory Bool.false_ne_true
      · rw [List.mem_singleton.mp hj]
        exact ⟨document, hmem, hi⟩
    case isFalse hsingle =>
      have hanswers : AnswersUseCase documents
          { mandatory := true, documentSets := [List.range request.docRequests.length] } :=
        ⟨_, List.mem_singleton_self _, fun i hi => hall huseCases hsingle i (List.mem_range.mp hi)⟩
      refine ⟨fun useCase huseCase _ => ?_, _, List.mem_singleton_self _, hanswers⟩
      rw [List.mem_singleton.mp huseCase]
      exact hanswers

theorem mem_matchUseCases {useCases : List UseCase} {results : List Bool}
    {canAnswer : List ℕ → Bool} {m : UseCaseMatch} :
    m ∈ (matchUseCases useCases results canAnswer).1 ↔
      ∃ k useCase, useCases[k]? = some useCase ∧ m = matchUseCase results canAnswer k useCase := by
  simp only [matchUseCases, List.mem_mapIdx]
  constructor
  · rintro ⟨k, hk, rfl⟩
    exact ⟨k, useCases[k], List.getElem?_eq_getElem hk, rfl⟩
  · rintro ⟨k, useCase, huseCase, rfl⟩
    obtain ⟨hk, rfl⟩ := List.getElem?_eq_some_iff.mp huseCase
    exact ⟨k, hk, rfl⟩

section

variable {results : List Bool} {canAnswer : List ℕ → Bool}
    (hresults : ∀ i, Named documents i → results[i]? = some true)
  (hcan : ∀ required : List ℕ, (∀ i ∈ required, Named documents i) → canAnswer required = true)

include hresults hcan

/-- A use case with a document set that is named is matched by it. -/
theorem exists_matching (k : ℕ) {useCase : UseCase} (h : AnswersUseCase documents useCase) :
    ∃ set ∈ (matchUseCase results canAnswer k useCase).matchingDocumentSets, ∀ i ∈ set,
    Named documents i := by
  obtain ⟨set, hset, hnamed⟩ := h
  have hsatisfied : isSatisfied results canAnswer set = true := by
    rw [isSatisfied, Bool.and_eq_true, List.all_eq_true]
    exact ⟨fun i hi => decide_eq_true (hresults i (hnamed i hi)), hcan set hnamed⟩
  exact ⟨set, List.mem_filter.mpr ⟨hset, hsatisfied⟩, hnamed⟩

theorem success_matchUseCase (k : ℕ) {useCase : UseCase} (h : AnswersUseCase documents useCase) :
    (matchUseCase results canAnswer k useCase).success = true := by
  obtain ⟨set, hset, -⟩ := exists_matching hresults hcan k h
  have hne : (matchUseCase results canAnswer k useCase).matchingDocumentSets ≠ [] :=
    List.ne_nil_of_mem hset
  simpa [matchUseCase] using hne

theorem success_matchUseCases {useCases : List UseCase} (h : AnswersUseCases documents useCases) :
    (matchUseCases useCases results canAnswer).2 = true := by
  obtain ⟨hmandatory, useCase, hmem, hanswers⟩ := h
  have hall : ((matchUseCases useCases results canAnswer).1.all fun m =>
      !m.mandatory || m.success) = true := by
    rw [List.all_eq_true]
    intro m hm
    obtain ⟨k, useCase, huseCase, rfl⟩ := mem_matchUseCases.mp hm
    cases hflag : useCase.mandatory with
    | false => simp [matchUseCase, hflag]
    | true =>
      have hanswered := hmandatory useCase (List.mem_of_getElem? huseCase) hflag
      rw [success_matchUseCase hresults hcan k hanswered, Bool.or_true]
  have hany : (matchUseCases useCases results canAnswer).1.any UseCaseMatch.success = true := by
    obtain ⟨k, hk⟩ := List.mem_iff_getElem?.mp hmem
    exact List.any_eq_true.mpr
      ⟨_, mem_matchUseCases.mpr ⟨k, useCase, hk, rfl⟩,
        success_matchUseCase hresults hcan k hanswers⟩
  exact Bool.and_eq_true_iff.mpr ⟨hall, hany⟩

/-- Sets that are named can be answered together. -/
theorem choosable_matchUseCases {useCases : List UseCase} (h : AnswersUseCases documents useCases) :
    Choosable (fun required => canAnswer required = true)
      (matchUseCases useCases results canAnswer).1 := by
  obtain ⟨hmandatory, useCase, hmem, hanswers⟩ := h
  unfold Choosable
  split
  case isTrue =>
    obtain ⟨k, hk⟩ := List.mem_iff_getElem?.mp hmem
    obtain ⟨set, hset, hnamed⟩ := exists_matching hresults hcan k hanswers
    exact ⟨_, mem_matchUseCases.mpr ⟨k, useCase, hk, rfl⟩, set, hset, hcan set hnamed⟩
  case isFalse =>
    have hsets : ∀ m ∈ (matchUseCases useCases results canAnswer).1.filter UseCaseMatch.mandatory,
        ∃ set ∈ m.matchingDocumentSets, ∀ i ∈ set, Named documents i := by
      intro m hm
      obtain ⟨hm, hflag⟩ := List.mem_filter.mp hm
      obtain ⟨k, useCase, huseCase, rfl⟩ := mem_matchUseCases.mp hm
      exact exists_matching hresults hcan k
        (hmandatory useCase (List.mem_of_getElem? huseCase) hflag)
    -- the sets of all mandatory use cases are named, so they can be answered together too
    choose! set hset using hsets
    refine ⟨_, List.forall₂_map_right_iff.mpr (List.forall₂_same.mpr fun m hm => (hset m hm).1),
      hcan _ fun i hi => ?_⟩
    obtain ⟨_, hmem, hi⟩ := List.mem_flatten.mp hi
    obtain ⟨m, hm, rfl⟩ := List.mem_map.mp hmem
    exact (hset m hm).2 i hi

end

/-! ## The verifier -/

/-- A doc request that is named succeeds where no document is one too many. -/
theorem docRequestResults_of_named {excess : Excess} {canAnswer : List ℕ → Bool}
    (hexcess : excess.documentIndexes = [])
    (hcan : ∀ required : List ℕ, (∀ i ∈ required, Named documents i) →
      canAnswer required = true) {i d : ℕ}
    (hi : Named documents i) (hvalid : Satisfies (attributionCandidates docRequests) d i) :
    (docRequestResults excess canAnswer docRequests)[i]? = some true := by
  obtain ⟨docRequest, hdocRequest, hd⟩ := satisfies_attributionCandidates.mp hvalid
  have hcan' : canAnswer [i] = true := hcan [i] fun j hj => List.mem_singleton.mp hj ▸ hi
  have hne : docRequest.validDocuments.isEmpty = false :=
    List.isEmpty_eq_false_iff_exists_mem.mpr ⟨d, hd⟩
  rw [docRequestResults, List.getElem?_mapIdx, hdocRequest, Option.map_some]
  simp [docRequestSuccess, hexcess, hcan', hne]

/-- What the holder's check lets through, the verifier accepts, where it finds that the documents
satisfy the doc requests that they name: no document is one too many, each doc request that is named
succeeds, the use cases are matched, and the document sets that are chosen are answered with
documents that satisfy them. -/
theorem accepted_of_checkRequestInfo {authorityKeyIdentifier : C → Option (List Char)}
    (hcheck : checkRequestInfo authorityKeyIdentifier request documents = .ok ())
    (hne : documents ≠ []) (hfinds : Finds request documents docRequests)
    (treatAmbiguousMultipleDocRequestsAsAlternatives : Bool) (hall : request.useCases = none →
      ¬(treatAmbiguousMultipleDocRequestsAsAlternatives ∧ request.docRequests.length > 1) →
        ∀ i < request.docRequests.length, Named documents i) :
    ∃ a canAnswer, createAttribution (attributionCandidates docRequests) = some a ∧
      (∀ required, AnswersWith a required (canAnswer required)) ∧ a.excess.documentIndexes = [] ∧
      let results := docRequestResults a.excess canAnswer docRequests
      let useCases := resolveUseCases request.useCases request.docRequests.length
        treatAmbiguousMultipleDocRequestsAsAlternatives
      let matched := matchUseCases useCases.2 results canAnswer
      (∀ i, Named documents i → results[i]? = some true) ∧ matched.2 = true ∧
        ∃ chosen byDocRequest, chooseDocumentSets matched.1 canAnswer
          (documentsOf docRequests) = some chosen ∧
          a.answer (chosen.flatMap Chosen.documentSet) = some byDocRequest ∧
          ∀ i ∈ chosen.flatMap Chosen.documentSet, ∃ answers d, byDocRequest.lookup i =
            some answers ∧ d ∈ answers ∧
            Satisfies (attributionCandidates docRequests) d i := by
  have hanswers := answersRequestInfo_of_check hcheck
  have hn := nodup_attributionCandidates docRequests
  obtain ⟨take, hown⟩ := hfinds.exists_ownDocRequests hanswers
  obtain ⟨a, ha, hattributes⟩ := exists_createAttribution hn
  choose canAnswer hcanAnswer hiff using fun required => hattributes.exists_answersWith hn required
  -- with a doc request for each document the excess is empty, and what is named can be answered
  have hexcess : a.excess.documentIndexes = [] :=
    List.eq_nil_iff_forall_not_mem.mpr fun d hd => hown.not_tooMany d
      ((hattributes.mem_documents d).mp hd)
  have hcan : ∀ required : List ℕ, (∀ i ∈ required, Named documents i) →
      canAnswer required = true := fun required hnamed =>
    (hiff required).mpr (hown.answerable fun i hi =>
      hfinds.satisfies_of_named hanswers (hnamed i hi))
  have hresults : ∀ i, Named documents i →
      (docRequestResults a.excess canAnswer docRequests)[i]? = some true := by
    intro i hi
    obtain ⟨d, hd⟩ := hfinds.satisfies_of_named hanswers hi
    exact docRequestResults_of_named hexcess hcan hi hd
  have hclosed : SubsetClosed canAnswer := fun required required' hsub htrue =>
    (hiff required).mpr (((hiff required').mp htrue).mono hsub)
  have huseCases := hanswers.resolveUseCases hne hall
  have hindexes := nodup_useCaseIndex (resolveUseCases request.useCases request.docRequests.length
    treatAmbiguousMultipleDocRequestsAsAlternatives).2
      (docRequestResults a.excess canAnswer docRequests) canAnswer
  obtain ⟨chosen, hchosen⟩ :
      ∃ chosen, chooseDocumentSets (matchUseCases (resolveUseCases request.useCases
      request.docRequests.length treatAmbiguousMultipleDocRequestsAsAlternatives).2
      (docRequestResults a.excess canAnswer docRequests) canAnswer).1 canAnswer
        (documentsOf docRequests) = some chosen :=
    (chooseDocumentSets_isSome_iff hindexes hclosed).mpr
      (choosable_matchUseCases hresults hcan huseCases)
  have htogether := (chooseDocumentSets_eq_some hindexes hclosed hchosen).together
  obtain ⟨byDocRequest, -, hbyDocRequest, -, -, hsatisfied⟩ :=
    hattributes.exists_answer hn ((hiff _).mp htogether)
  exact ⟨a, canAnswer, ha, hcanAnswer, hexcess, hresults,
    success_matchUseCases hresults hcan huseCases, chosen, byDocRequest, hchosen,
      hbyDocRequest, hsatisfied⟩

end

/-! ## An example -/

/-- Two documents for two doc requests that each take one only, and a use case with both. -/
def pairRequest : DeviceRequest where
  docRequests := [{ namespaces := OrderedMap.empty, uniqueDocSetRequired := true },
    { namespaces := OrderedMap.empty, uniqueDocSetRequired := true }]
  useCases := some [{ mandatory := true, documentSets := [[0, 1]] }]

def pairDocuments : List (DocumentOptions Unit) :=
  [{ docRequestIndex := .inl 0 }, { docRequestIndex := .inl 1 }]

/-- Either document may answer either doc request. -/
def pairFound : List DocRequestDocuments :=
  [⟨true, [0, 1], [0], by decide⟩, ⟨true, [0, 1], [1], by decide⟩]

theorem finds_pair : Finds pairRequest pairDocuments pairFound where
  unique := rfl
  candidates := by decide
  valid := by
    intro d document i docRequest hd hi hdocRequest
    rcases d with _ | _ | d
    · cases hd
      obtain rfl : i = 0 := List.mem_singleton.mp hi
      cases hdocRequest
      exact List.mem_singleton_self 0
    · cases hd
      obtain rfl : i = 1 := List.mem_singleton.mp hi
      cases hdocRequest
      exact List.mem_singleton_self 1
    · cases hd

theorem accepted_pair :
    ∃ a canAnswer chosen, createAttribution (attributionCandidates pairFound) = some a ∧
    a.excess.documentIndexes = [] ∧
    chooseDocumentSets (matchUseCases (resolveUseCases pairRequest.useCases 2 false).2
      (docRequestResults a.excess canAnswer pairFound) canAnswer).1 canAnswer
        (documentsOf pairFound) = some chosen := by
  obtain ⟨a, canAnswer, ha, -, hexcess, -, -, chosen, -, hchosen, -⟩ :=
    @accepted_of_checkRequestInfo Unit pairRequest pairDocuments pairFound (fun _ => none) rfl
      (List.cons_ne_nil _ _) finds_pair false (fun h => by cases h)
  exact ⟨a, canAnswer, chosen, ha, hexcess, hchosen⟩

end IdentityCommon.Mdoc
