import IdentityCommon.Ecma.Text
import IdentityCommon.Lib.Except
import IdentityCommon.Mdoc.MaximumMatching

/-!
# Attribution of documents to doc requests

A response does not say which document answers which doc request. A doc request with
`uniqueDocSetRequired` is answered by one document only, so that a document that only such doc
requests may answer needs one of them to itself.

## Main definitions

- `createAttribution` — the documents too many, and those that remain
- `Attribution.canAnswer` — whether doc requests can be answered together
- `Attribution.answer` — the documents that answer each doc request
- `Excess`, `SharesOut` — what both are meant to say, in terms of maximum matchings and assignments

## Main results

- `attribution` — the documents too many, what can be answered and the answers are as they are
  meant, in any order of the documents and of the doc requests

## Design notes

The source remembers the answers of `canAnswer` by a text for the set of doc requests. They are an
argument and a result here.
-/

namespace IdentityCommon.Mdoc

open Ecma AssocList BipartiteMatching

/-- A doc request, with the documents of the response that may answer it; those that satisfy it are
among them. -/
structure DocRequestCandidates where
  docRequestIndex : ℕ
  uniqueDocSetRequired : Bool
  candidateDocuments : List ℕ
  validDocuments : List ℕ
  valid_subset : validDocuments ⊆ candidateDocuments

/-- `new Map(docRequests.map((docRequest) => [docRequest.docRequestIndex, value(docRequest)]))`. -/
def mapByIndex {α : Type} (value : DocRequestCandidates → α)
    (docRequests : List DocRequestCandidates) : List (ℕ × α) :=
  docRequests.foldl (fun acc docRequest => insert docRequest.docRequestIndex
    (value docRequest) acc) []

def byIndex : List DocRequestCandidates → List (ℕ × DocRequestCandidates) := mapByIndex id

def satisfying : List DocRequestCandidates → List (ℕ × List ℕ) :=
  mapByIndex DocRequestCandidates.validDocuments

/-- `candidatesOf.get(documentIndex) ?? []`. -/
def candidatesAt (candidatesOf : List (ℕ × List ℕ)) (documentIndex : ℕ) : List ℕ :=
  (candidatesOf.lookup documentIndex).getD []

/-- One more doc request that some documents may answer. -/
def addCandidates (docRequestIndex : ℕ) (documents : List ℕ) (candidatesOf : List (ℕ × List ℕ)) :
    List (ℕ × List ℕ) :=
  documents.foldl (fun acc documentIndex =>
    insert documentIndex (candidatesAt acc documentIndex ++ [docRequestIndex]) acc) candidatesOf

/-- The doc requests that each document may answer. -/
def candidatesOf (docRequests : List DocRequestCandidates) : List (ℕ × List ℕ) :=
  docRequests.foldl (fun acc docRequest =>
    addCandidates docRequest.docRequestIndex docRequest.candidateDocuments acc) []

/-- The documents that only doc requests with `uniqueDocSetRequired` may answer. -/
def onlyUnique (docRequests : List DocRequestCandidates) : List ℕ :=
  sortNumbers (keys ((candidatesOf docRequests).filter fun m => m.2.all fun index =>
    ((byIndex docRequests).lookup index).any DocRequestCandidates.uniqueDocSetRequired))

structure Attribution where
  docRequests : List DocRequestCandidates
  excess : Excess
  remaining : List ℕ

def createAttribution (docRequests : List DocRequestCandidates) : Option Attribution := do
  let documents := onlyUnique docRequests
  let candidates := candidatesAt (candidatesOf docRequests)
  let matching ← maximumMatching documents candidates
  let excess ← findExcess documents candidates matching
  some { docRequests, excess, remaining := documents.filter (· ∉ excess.documentIndexes) }

namespace Attribution

variable (a : Attribution)

/-- The doc requests that a remaining document can take when some are required. -/
def neighbours (required : List ℕ) (documentIndex : ℕ) : List ℕ :=
  (candidatesAt (candidatesOf a.docRequests) documentIndex).filter fun docRequestIndex =>
    docRequestIndex ∉ a.excess.docRequestIndexes ∧
      (docRequestIndex ∉ required ∨
        ((satisfying a.docRequests).lookup docRequestIndex).any (documentIndex ∈ ·))

/-- A doc request per remaining document, if there is one for each. -/
def shareOut (required : List ℕ) : Option (Option (List (ℕ × ℕ))) := do
  let taken ← maximumMatching a.remaining (a.neighbours required)
  some (if taken.length = a.remaining.length then some taken else none)

def canAnswerUncached (required : List ℕ) : Option Bool :=
  if required.all fun docRequestIndex =>
      match (byIndex a.docRequests).lookup docRequestIndex with
      | none => false
      | some docRequest =>
        !docRequest.validDocuments.isEmpty && docRequestIndex ∉ a.excess.docRequestIndexes then do
    let taken ← a.shareOut required
    some taken.isSome
  else some false

/-- The text that an answer is remembered by. -/
def answerKey (required : List ℕ) : String := join ((sortNumbers required).map Nat.repr) ','

/-- Whether the doc requests can be answered together, and the answers that are remembered. -/
def canAnswer (answers : List (String × Bool)) (docRequestIndexes : List ℕ) :
    Option (Bool × List (String × Bool)) :=
  let required := docRequestIndexes.dedup
  let key := answerKey required
  match answers.lookup key with
  | some known => some (known, answers)
  | none => do
    let answer ← a.canAnswerUncached required
    some (answer, insert key answer answers)

/-- The answers that are remembered after some calls. -/
def remembered (queries : List (List ℕ)) : Option (List (String × Bool)) :=
  queries.foldlM (fun answers query => Prod.snd <$> a.canAnswer answers query) []

/-- The documents that answer a doc request, given what the doc requests take. -/
def answerOf (takes : List (ℕ × ℕ)) (docRequest : DocRequestCandidates) : List ℕ :=
  if !docRequest.uniqueDocSetRequired then docRequest.candidateDocuments
  else if docRequest.docRequestIndex ∈ a.excess.docRequestIndexes then []
  -- a document of its own, or else one it shares with another doc request
  else match takes.lookup docRequest.docRequestIndex with
    | some documentIndex => [documentIndex]
    | none => docRequest.validDocuments.take 1

/-- Per doc request, the documents it answers when some are answered together. -/
def answer (docRequestIndexes : List ℕ) : Option (List (ℕ × List ℕ)) := do
  let taken ← a.shareOut docRequestIndexes.dedup
  some (mapByIndex (a.answerOf (swapped (taken.getD []))) a.docRequests)

end Attribution

/-! ## What attribution is meant to say -/

section Meaning

variable (docRequests : List DocRequestCandidates)

def MayAnswer (documentIndex docRequestIndex : ℕ) : Prop :=
  ∃ docRequest ∈ docRequests, docRequest.docRequestIndex = docRequestIndex ∧
    documentIndex ∈ docRequest.candidateDocuments

def Satisfies (documentIndex docRequestIndex : ℕ) : Prop :=
  ∃ docRequest ∈ docRequests, docRequest.docRequestIndex = docRequestIndex ∧
    documentIndex ∈ docRequest.validDocuments

/-- The documents that may answer some doc request, and only ones with `uniqueDocSetRequired`. -/
def uniqueDocuments : Finset ℕ :=
  (docRequests.flatMap DocRequestCandidates.candidateDocuments).toFinset.filter fun documentIndex =>
    ∀ docRequest ∈ docRequests, documentIndex ∈ docRequest.candidateDocuments →
    docRequest.uniqueDocSetRequired

/-- Some maximum matching leaves a document out. -/
def TooMany (documentIndex : ℕ) : Prop :=
  Matching.LeftOut (MayAnswer docRequests) (uniqueDocuments docRequests) documentIndex

/-- Some document that may answer a doc request is one too many. -/
def HasTooMany (docRequestIndex : ℕ) : Prop :=
  ∃ documentIndex, TooMany docRequests documentIndex ∧
  MayAnswer docRequests documentIndex docRequestIndex

def Remaining (documentIndex : ℕ) : Prop :=
  documentIndex ∈ uniqueDocuments docRequests ∧ ¬TooMany docRequests documentIndex

/-- An assignment of the remaining documents to doc requests of their own. -/
structure SharesOut (required : List ℕ) (take : ℕ → ℕ) : Prop where
  injective : ∀ d d', Remaining docRequests d → Remaining docRequests d' → take d = take d' → d = d'
  mayAnswer : ∀ d, Remaining docRequests d → MayAnswer docRequests d (take d)
  not_tooMany : ∀ d, Remaining docRequests d → ¬HasTooMany docRequests (take d)
  satisfied : ∀ d, Remaining docRequests d → take d ∈ required → Satisfies docRequests d (take d)

/-- Doc requests that can be answered together. -/
structure Answerable (required : List ℕ) : Prop where
  valid : ∀ docRequestIndex ∈ required, ∃ documentIndex,
    Satisfies docRequests documentIndex docRequestIndex
  not_tooMany : ∀ docRequestIndex ∈ required, ¬HasTooMany docRequests docRequestIndex
  sharesOut : ∃ take, SharesOut docRequests required take

end Meaning

/-! ## The maps -/

theorem mem_candidatesAt_addCandidates {docRequestIndex : ℕ} {documents : List ℕ}
    {acc : List (ℕ × List ℕ)} {d i : ℕ} :
    i ∈ candidatesAt (addCandidates docRequestIndex documents acc) d ↔
      i ∈ candidatesAt acc d ∨ i = docRequestIndex ∧ d ∈ documents := by
  induction documents generalizing acc with
  | nil => simp [addCandidates]
  | cons d' documents ih =>
    rw [addCandidates, List.foldl_cons, ← addCandidates, ih, candidatesAt,
      lookup_insert, List.mem_cons]
    by_cases hd : d = d'
    · subst hd
      simp only [if_true, Option.getD_some, List.mem_append, List.mem_singleton, true_or,
        and_true, or_assoc]
      exact or_congr_right ⟨fun h => h.elim id And.left, Or.inl⟩
    · rw [if_neg hd, ← candidatesAt]
      simp only [hd, false_or]

theorem mem_keys_addCandidates {docRequestIndex : ℕ} {documents : List ℕ}
    {acc : List (ℕ × List ℕ)} {d : ℕ} :
    d ∈ keys (addCandidates docRequestIndex documents acc) ↔ d ∈ keys acc ∨ d ∈ documents := by
  induction documents generalizing acc with
  | nil => simp [addCandidates]
  | cons d' documents ih =>
    rw [addCandidates, List.foldl_cons, ← addCandidates, ih, keys_insert, List.mem_cons]
    split
    case isTrue h =>
      refine ⟨fun h' => h'.imp_right Or.inr, ?_⟩
      rintro (h' | rfl | h')
      · exact Or.inl h'
      · exact Or.inl h
      · exact Or.inr h'
    case isFalse => rw [List.mem_append, List.mem_singleton, or_assoc]

theorem nodup_keys_addCandidates {docRequestIndex : ℕ} {documents : List ℕ}
    {acc : List (ℕ × List ℕ)} (h : (keys acc).Nodup) :
    (keys (addCandidates docRequestIndex documents acc)).Nodup := by
  induction documents generalizing acc with
  | nil => exact h
  | cons d documents ih => exact ih (nodup_insert _ h)

theorem candidatesOf_append (docRequests : List DocRequestCandidates)
    (docRequest : DocRequestCandidates) :
    candidatesOf (docRequests ++ [docRequest]) =
      addCandidates docRequest.docRequestIndex docRequest.candidateDocuments
        (candidatesOf docRequests) := by
  rw [candidatesOf, List.foldl_append]
  rfl

theorem mayAnswer_append {docRequests : List DocRequestCandidates}
    {docRequest : DocRequestCandidates} {d i : ℕ} :
    MayAnswer (docRequests ++ [docRequest]) d i ↔
      MayAnswer docRequests d i ∨ i = docRequest.docRequestIndex ∧
      d ∈ docRequest.candidateDocuments := by
  simp only [MayAnswer, List.mem_append, List.mem_singleton, or_and_right, exists_or,
    exists_eq_left, eq_comm (a := i)]

theorem mem_candidatesAt {docRequests : List DocRequestCandidates} {d i : ℕ} :
    i ∈ candidatesAt (candidatesOf docRequests) d ↔ MayAnswer docRequests d i := by
  induction docRequests using List.reverseRecOn with
  | nil => exact ⟨nofun, nofun⟩
  | append_singleton docRequests docRequest ih =>
    rw [candidatesOf_append, mem_candidatesAt_addCandidates, ih, mayAnswer_append]

theorem mem_keys_candidatesOf {docRequests : List DocRequestCandidates} {d : ℕ} :
    d ∈ keys (candidatesOf docRequests) ↔ ∃ i, MayAnswer docRequests d i := by
  induction docRequests using List.reverseRecOn with
  | nil => exact ⟨nofun, nofun⟩
  | append_singleton docRequests docRequest ih =>
    rw [candidatesOf_append, mem_keys_addCandidates, ih]
    simp only [mayAnswer_append, exists_or, exists_eq_left]

theorem nodup_keys_candidatesOf (docRequests : List DocRequestCandidates) :
    (keys (candidatesOf docRequests)).Nodup := by
  induction docRequests using List.reverseRecOn with
  | nil => exact List.nodup_nil
  | append_singleton docRequests docRequest ih =>
    rw [candidatesOf_append]
    exact nodup_keys_addCandidates ih

section Distinct

variable {docRequests : List DocRequestCandidates}
  (hn : (docRequests.map DocRequestCandidates.docRequestIndex).Nodup)
include hn

theorem mapByIndex_eq {α : Type} (value : DocRequestCandidates → α) :
    mapByIndex value docRequests = docRequests.map fun docRequest => (docRequest.docRequestIndex,
      value docRequest) := by
  have hfold : mapByIndex value docRequests =
      (docRequests.map fun docRequest => (docRequest.docRequestIndex, value docRequest)).foldl
        (fun acc m => insert m.1 m.2 acc) [] := by
    rw [List.foldl_map]
    rfl
  rw [hfold, foldl_insert, List.nil_append]
  rw [List.nil_append, keys, List.map_map]
  exact hn

theorem lookup_mapByIndex {α : Type} {value : DocRequestCandidates → α} {i : ℕ} {v : α} :
    (mapByIndex value docRequests).lookup i = some v ↔
      ∃ docRequest ∈ docRequests, docRequest.docRequestIndex = i ∧ value docRequest = v := by
  have hkeys : (keys (mapByIndex value docRequests)).Nodup := by
    rw [mapByIndex_eq hn, keys, List.map_map]
    exact hn
  rw [← mem_iff_lookup hkeys, mapByIndex_eq hn, List.mem_map]
  simp only [Prod.mk.injEq]

theorem any_satisfying {d i : ℕ} :
    ((satisfying docRequests).lookup i).any (d ∈ ·) ↔ Satisfies docRequests d i := by
  rw [Option.any_eq_true]
  constructor
  · rintro ⟨valid, hvalid, hd⟩
    obtain ⟨docRequest, hmem, hi, rfl⟩ := (lookup_mapByIndex hn).mp hvalid
    exact ⟨docRequest, hmem, hi, of_decide_eq_true hd⟩
  · rintro ⟨docRequest, hmem, hi, hd⟩
    exact ⟨_, (lookup_mapByIndex hn).mpr ⟨docRequest, hmem, hi, rfl⟩, decide_eq_true hd⟩

theorem eq_of_index_eq {docRequest docRequest' : DocRequestCandidates}
    (h : docRequest ∈ docRequests) (h' : docRequest' ∈ docRequests)
    (heq : docRequest.docRequestIndex = docRequest'.docRequestIndex) :
    docRequest = docRequest' :=
  List.inj_on_of_nodup_map hn h h' heq

theorem any_byIndex {i : ℕ} :
    ((byIndex docRequests).lookup i).any DocRequestCandidates.uniqueDocSetRequired ↔
      ∃ docRequest ∈ docRequests, docRequest.docRequestIndex = i ∧
      docRequest.uniqueDocSetRequired := by
  rw [Option.any_eq_true]
  constructor
  · rintro ⟨v, hv, hunique⟩
    obtain ⟨docRequest, hmem, hi, rfl⟩ := (lookup_mapByIndex hn).mp hv
    exact ⟨docRequest, hmem, hi, hunique⟩
  · rintro ⟨docRequest, hmem, hi, hunique⟩
    exact ⟨docRequest, (lookup_mapByIndex hn).mpr ⟨docRequest, hmem, hi, rfl⟩, hunique⟩

theorem mem_onlyUnique {d : ℕ} : d ∈ onlyUnique docRequests ↔ d ∈ uniqueDocuments docRequests := by
  have hmember : d ∈ onlyUnique docRequests ↔ d ∈ keys (candidatesOf docRequests) ∧
      ∀ i, MayAnswer docRequests d i →
        ((byIndex docRequests).lookup i).any DocRequestCandidates.uniqueDocSetRequired := by
    rw [onlyUnique, mem_sortNumbers, keys, List.mem_map]
    constructor
    · rintro ⟨m, hm, rfl⟩
      obtain ⟨hm, hall⟩ := List.mem_filter.mp hm
      have hlookup := lookup_of_mem (nodup_keys_candidatesOf docRequests) hm
      refine ⟨mem_keys_of_mem hm, fun i hi => List.all_eq_true.mp hall i ?_⟩
      rw [← mem_candidatesAt, candidatesAt, hlookup] at hi
      exact hi
    · rintro ⟨hkey, hall⟩
      obtain ⟨indexes, hlookup⟩ := Option.isSome_iff_exists.mp (lookup_isSome_iff.mpr hkey)
      refine ⟨(d, indexes), List.mem_filter.mpr ⟨mem_of_lookup hlookup,
        List.all_eq_true.mpr fun i hi => hall i ?_⟩, rfl⟩
      rw [← mem_candidatesAt, candidatesAt, hlookup]
      exact hi
  rw [hmember, mem_keys_candidatesOf, uniqueDocuments, Finset.mem_filter, List.mem_toFinset,
    List.mem_flatMap]
  simp only [any_byIndex hn]
  constructor
  · rintro ⟨⟨i, docRequest, hmem, -, hd⟩, hall⟩
    refine ⟨⟨docRequest, hmem, hd⟩, fun docRequest' hmem' hd' => ?_⟩
    obtain ⟨docRequest'', hmem'', hi, hunique⟩ := hall _ ⟨docRequest', hmem', rfl, hd'⟩
    exact eq_of_index_eq hn hmem'' hmem' hi ▸ hunique
  · rintro ⟨⟨docRequest, hmem, hd⟩, hall⟩
    refine ⟨⟨_, docRequest, hmem, rfl, hd⟩, ?_⟩
    rintro i ⟨docRequest', hmem', hi, hd'⟩
    exact ⟨docRequest', hmem', hi, hall docRequest' hmem' hd'⟩

omit hn in
theorem nodup_onlyUnique (docRequests : List DocRequestCandidates) :
    (onlyUnique docRequests).Nodup := by
  refine (pairwise_sortNumbers ?_).imp ne_of_lt
  exact ((nodup_keys_candidatesOf docRequests).sublist (List.filter_sublist.map _))

theorem toFinset_onlyUnique : (onlyUnique docRequests).toFinset = uniqueDocuments docRequests := by
  ext d
  rw [List.mem_toFinset, mem_onlyUnique hn]

/-! ## The documents too many -/

omit hn in
theorem candidatesAt_eq (docRequests : List DocRequestCandidates) :
    (fun d i => i ∈ candidatesAt (candidatesOf docRequests) d) = MayAnswer docRequests := by
  funext d i
  exact propext mem_candidatesAt

/-- What attribution computes, once and for all. -/
structure Attributes (docRequests : List DocRequestCandidates) (a : Attribution) : Prop where
  docRequests_eq : a.docRequests = docRequests
  documents_sorted : a.excess.documentIndexes.Pairwise (· < ·)
  docRequests_sorted : a.excess.docRequestIndexes.Pairwise (· < ·)
  mem_documents : ∀ d, d ∈ a.excess.documentIndexes ↔ TooMany docRequests d
  mem_docRequests : ∀ i, i ∈ a.excess.docRequestIndexes ↔ HasTooMany docRequests i
  nodup_remaining : a.remaining.Nodup
  mem_remaining : ∀ d, d ∈ a.remaining ↔ Remaining docRequests d

theorem exists_createAttribution :
    ∃ a, createAttribution docRequests = some a ∧ Attributes docRequests a := by
  have hnodup := nodup_onlyUnique docRequests
  obtain ⟨matching, hmatching, m, hm, hmax⟩ :=
    exists_maximumMatching (candidatesAt (candidatesOf docRequests)) hnodup
  obtain ⟨excess, hexcess, hdocs, hreqs, hmem, hmem'⟩ := findExcess_spec hnodup hm hmax
  rw [candidatesAt_eq, toFinset_onlyUnique hn] at hmem
  refine ⟨⟨docRequests, excess, (onlyUnique docRequests).filter (· ∉ excess.documentIndexes)⟩, ?_,
    rfl, hdocs, hreqs, hmem, ?_, hnodup.filter _, ?_⟩
  · rw [createAttribution, hmatching, Option.bind_eq_bind, Option.bind_some, hexcess]
    rfl
  · intro i
    rw [hmem' i]
    simp only [hmem, mem_candidatesAt]
    rfl
  · intro d
    rw [List.mem_filter, mem_onlyUnique hn, decide_eq_true_eq, hmem]
    rfl

/-! ## Sharing out -/

/-- The doc requests that a remaining document can take. -/
def CanTake (docRequests : List DocRequestCandidates) (required : List ℕ) (d i : ℕ) : Prop :=
  MayAnswer docRequests d i ∧ ¬HasTooMany docRequests i ∧ (i ∈ required → Satisfies docRequests d i)

theorem Attributes.mem_neighbours {a : Attribution} (h : Attributes docRequests a)
    {required : List ℕ} {d i : ℕ} :
    i ∈ a.neighbours required d ↔ CanTake docRequests required d i := by
  rw [Attribution.neighbours, List.mem_filter, h.docRequests_eq, mem_candidatesAt,
    decide_eq_true_eq, h.mem_docRequests, any_satisfying hn, ← imp_iff_not_or, CanTake]

theorem Attributes.sharesOut_iff {a : Attribution} (h : Attributes docRequests a)
    {required : List ℕ} {take : ℕ → ℕ} :
    SharesOut docRequests required take ↔
      Set.InjOn take a.remaining.toFinset ∧
      ∀ d ∈ a.remaining.toFinset, take d ∈ a.neighbours required d := by
  simp only [h.mem_neighbours hn, Set.InjOn, Finset.mem_coe, List.mem_toFinset, h.mem_remaining]
  constructor
  · exact fun hs => ⟨fun d hd d' hd' => hs.injective d d' hd hd', fun d hd =>
      ⟨hs.mayAnswer d hd, hs.not_tooMany d hd, hs.satisfied d hd⟩⟩
  · exact fun ⟨hinj, htake⟩ => ⟨fun d d' hd hd' => hinj hd hd', fun d hd => (htake d hd).1,
      fun d hd => (htake d hd).2.1, fun d hd => (htake d hd).2.2⟩

/-- The documents are shared out exactly when they can be. -/
theorem Attributes.exists_shareOut {a : Attribution} (h : Attributes docRequests a)
    (required : List ℕ) :
    ∃ taken, a.shareOut required = some taken ∧
      (taken.isSome ↔ ∃ take, SharesOut docRequests required take) ∧
      ∀ matching, taken = some matching → (keys matching).Nodup ∧
      ∃ take, SharesOut docRequests required take ∧
        ∀ d i, matching.lookup d = some i ↔ Remaining docRequests d ∧ take d = i := by
  obtain ⟨matching, hmatching, m, hm, hmax⟩ :=
    exists_maximumMatching (a.neighbours required) h.nodup_remaining
  have hlength : matching.length = a.remaining.length ↔ m.covered = a.remaining.toFinset := by
    rw [hm.length_eq, ← List.toFinset_card_of_nodup h.nodup_remaining]
    exact ⟨fun heq => Finset.eq_of_subset_of_card_le m.covered_subset heq.ge,
      fun heq => by rw [heq]⟩
  have hexists : m.covered = a.remaining.toFinset ↔
      ∃ take, SharesOut docRequests required take := by
    rw [hmax.covered_eq_iff]
    exact exists_congr fun take => (h.sharesOut_iff hn).symm
  refine ⟨_, by rw [Attribution.shareOut, hmatching]; rfl, ?_, ?_⟩
  · rw [← hexists, ← hlength]
    split
    case isTrue heq => exact ⟨fun _ => heq, fun _ => rfl⟩
    case isFalse hne => exact ⟨nofun, fun heq => absurd heq hne⟩
  · intro matching' heq
    split at heq
    case isFalse => cases heq
    case isTrue hlen =>
      cases heq
      have hall := hlength.mp hlen
      have hassign : ∀ d, Remaining docRequests d →
          matching.lookup d = some ((matching.lookup d).getD 0) := by
        intro d hd
        rw [← h.mem_remaining, ← List.mem_toFinset, ← hall] at hd
        obtain ⟨i, hi⟩ := Matching.mem_covered.mp hd
        rw [hm.assign] at hi
        rw [hi, Option.getD_some]
      refine ⟨hm.nodup, fun d => (matching.lookup d).getD 0, ?_, fun d i => ?_⟩
      · rw [h.sharesOut_iff hn]
        have hsome : ∀ d ∈ a.remaining.toFinset, m.assign d = some ((matching.lookup d).getD 0) :=
            fun d hd =>
          (hm.assign d).trans (hassign d ((h.mem_remaining d).mp (List.mem_toFinset.mp hd)))
        exact ⟨fun d hd d' hd' heq => m.injective (hsome d hd)
          ((hsome d' hd').trans (congrArg some heq.symm)), fun d hd => (m.mem (hsome d hd)).2⟩
      · constructor
        · intro hd
          have hremaining := (m.mem ((hm.assign d).trans hd)).1
          refine ⟨(h.mem_remaining d).mp (List.mem_toFinset.mp hremaining), ?_⟩
          dsimp only
          rw [hd, Option.getD_some]
        · rintro ⟨hd, rfl⟩
          exact hassign d hd

/-! ## Answers -/

omit hn in
theorem answerable_congr {required required' : List ℕ} (h : ∀ i, i ∈ required ↔ i ∈ required') :
    Answerable docRequests required ↔ Answerable docRequests required' := by
  have hshares : ∀ take, SharesOut docRequests required take ↔
      SharesOut docRequests required' take := fun take =>
    ⟨fun hs => { hs with satisfied := fun d hd hmem => hs.satisfied d hd ((h _).mpr hmem) },
      fun hs => { hs with satisfied := fun d hd hmem => hs.satisfied d hd ((h _).mp hmem) }⟩
  constructor
  · exact fun ⟨hv, ht, take, hs⟩ =>
      ⟨fun i hi => hv i ((h i).mpr hi), fun i hi => ht i ((h i).mpr hi), take, (hshares take).mp hs⟩
  · exact fun ⟨hv, ht, take, hs⟩ =>
      ⟨fun i hi => hv i ((h i).mp hi), fun i hi => ht i ((h i).mp hi), take, (hshares take).mpr hs⟩

theorem Attributes.exists_canAnswerUncached {a : Attribution} (h : Attributes docRequests a)
    (required : List ℕ) :
    ∃ answer, a.canAnswerUncached required = some answer ∧
    (answer = true ↔ Answerable docRequests required) := by
  obtain ⟨taken, htaken, hiff, -⟩ := h.exists_shareOut hn required
  have hall : (required.all fun docRequestIndex =>
      match (byIndex a.docRequests).lookup docRequestIndex with
      | none => false
      | some docRequest =>
        !docRequest.validDocuments.isEmpty && docRequestIndex ∉ a.excess.docRequestIndexes) ↔
      ∀ i ∈ required, (∃ d, Satisfies docRequests d i) ∧ ¬HasTooMany docRequests i := by
    rw [List.all_eq_true]
    refine forall₂_congr fun i _ => ?_
    rw [h.docRequests_eq, ← h.mem_docRequests]
    cases hlookup : (byIndex docRequests).lookup i with
    | none =>
      refine ⟨nofun, fun ⟨⟨d, docRequest, hmem, hi, _⟩, _⟩ => ?_⟩
      rw [byIndex, (lookup_mapByIndex hn).mpr ⟨docRequest, hmem, hi, rfl⟩] at hlookup
      cases hlookup
    | some docRequest =>
      obtain ⟨docRequest', hmem, hi, rfl⟩ := (lookup_mapByIndex hn).mp hlookup
      dsimp only [id]
      rw [Bool.and_eq_true, decide_eq_true_eq, Bool.not_eq_true',
        List.isEmpty_eq_false_iff_exists_mem]
      refine and_congr_left' ⟨fun ⟨d, hd⟩ => ⟨d, docRequest', hmem, hi, hd⟩,
        fun ⟨d, docRequest'', hmem', hi', hd⟩ => ?_⟩
      exact ⟨d, eq_of_index_eq hn hmem' hmem (hi'.trans hi.symm) ▸ hd⟩
  unfold Attribution.canAnswerUncached
  split
  case isTrue htrue =>
    rw [htaken]
    refine ⟨taken.isSome, rfl, hiff.trans ?_⟩
    have hvalid := hall.mp htrue
    exact ⟨fun hs => ⟨fun i hi => (hvalid i hi).1, fun i hi => (hvalid i hi).2, hs⟩,
      fun ha => ha.sharesOut⟩
  case isFalse hfalse =>
    refine ⟨false, rfl, nofun, fun ha => absurd (hall.mpr fun i hi => ?_) hfalse⟩
    exact ⟨ha.valid i hi, ha.not_tooMany i hi⟩

/-- Every answer that is remembered is right. -/
def Right (docRequests : List DocRequestCandidates) (answers : List (String × Bool)) : Prop :=
  ∀ key answer, answers.lookup key = some answer →
    ∃ required, key = Attribution.answerKey required ∧
    (answer = true ↔ Answerable docRequests required)

omit hn in
theorem mem_of_answerKey_eq {required required' : List ℕ}
    (h : Attribution.answerKey required = Attribution.answerKey required') (i : ℕ) :
    i ∈ required ↔ i ∈ required' := by
  have hparts : ∀ (l : List ℕ), ∀ part ∈ (sortNumbers l).map Nat.repr, part ≠ "" ∧
      ',' ∉ part.toList := by
    intro l part hpart
    obtain ⟨n, -, rfl⟩ := List.mem_map.mp hpart
    exact ⟨repr_ne_empty n, fun hmem => absurd (isDigit_of_mem_repr hmem) (by decide)⟩
  have hsort := List.map_injective_iff.mpr repr_injective (join_injective (hparts _) (hparts _) h)
  rw [← mem_sortNumbers, hsort, mem_sortNumbers]

/-- What is remembered makes no difference to an answer. -/
theorem Attributes.exists_canAnswer {a : Attribution} (h : Attributes docRequests a)
    {answers : List (String × Bool)} (hr : Right docRequests answers) (required : List ℕ) :
    ∃ answer answers', a.canAnswer answers required = some (answer, answers') ∧
      (answer = true ↔ Answerable docRequests required) ∧ Right docRequests answers' := by
  have hdedup : Answerable docRequests required.dedup ↔ Answerable docRequests required :=
    answerable_congr fun _ => List.mem_dedup
  unfold Attribution.canAnswer
  dsimp only
  cases hlookup : answers.lookup (Attribution.answerKey required.dedup) with
  | some known =>
    obtain ⟨required', hkey, hknown⟩ := hr _ _ hlookup
    refine ⟨known, answers, rfl, ?_, hr⟩
    rw [hknown, ← hdedup]
    exact answerable_congr fun i => (mem_of_answerKey_eq hkey i).symm
  | none =>
    obtain ⟨answer, hanswer, hiff⟩ := h.exists_canAnswerUncached hn required.dedup
    refine ⟨answer, insert (Attribution.answerKey required.dedup) answer answers, by
      dsimp only; rw [hanswer]; rfl, hiff.trans hdedup, fun key answer' hkey => ?_⟩
    rw [lookup_insert] at hkey
    split at hkey
    case isTrue heq =>
      cases hkey
      exact ⟨required.dedup, heq, hiff⟩
    case isFalse => exact hr key answer' hkey

theorem Attributes.exists_remembered {a : Attribution} (h : Attributes docRequests a)
    (queries : List (List ℕ)) :
    ∃ answers, a.remembered queries = some answers ∧ Right docRequests answers := by
  induction queries using List.reverseRecOn with
  | nil => exact ⟨[], rfl, nofun⟩
  | append_singleton queries query ih =>
    obtain ⟨answers, hanswers, hr⟩ := ih
    obtain ⟨answer, answers', hcan, -, hr'⟩ := h.exists_canAnswer hn hr query
    refine ⟨answers', ?_, hr'⟩
    rw [Attribution.remembered, List.foldlM_append, ← Attribution.remembered, hanswers,
      Option.bind_eq_bind, Option.bind_some, List.foldlM_cons, hcan]
    rfl

/-- The documents that `answer` gives are those of an assignment, and they satisfy what is
required. -/
theorem Attributes.exists_answer {a : Attribution} (h : Attributes docRequests a)
    {required : List ℕ} (ha : Answerable docRequests required) :
    ∃ byDocRequest take, a.answer required = some byDocRequest ∧
    SharesOut docRequests required take ∧
      (∀ d, Remaining docRequests d → byDocRequest.lookup (take d) = some [d]) ∧
      ∀ i ∈ required, ∃ documents d, byDocRequest.lookup i = some documents ∧ d ∈ documents ∧
        Satisfies docRequests d i := by
  have ha' : Answerable docRequests required.dedup :=
    (answerable_congr fun _ => List.mem_dedup).mpr ha
  obtain ⟨taken, htaken, hiff, hmatching⟩ := h.exists_shareOut hn required.dedup
  obtain ⟨matching, rfl⟩ := Option.isSome_iff_exists.mp (hiff.mpr ha'.sharesOut)
  obtain ⟨hnodup, take, hshares, hlookup⟩ := hmatching matching rfl
  have hinj : ∀ d d' i, matching.lookup d = some i → matching.lookup d' = some i → d = d' := by
    intro d d' i hd hd'
    obtain ⟨hr, rfl⟩ := (hlookup d i).mp hd
    obtain ⟨hr', heq⟩ := (hlookup d' _).mp hd'
    exact hshares.injective d d' hr hr' heq.symm
  have htakes : ∀ d i, (swapped matching).lookup i = some d ↔ Remaining docRequests d ∧
      take d = i := by
    intro d i
    rw [lookup_swapped hnodup (nodup_values hnodup hinj), hlookup]
  have hanswer : ∀ docRequest ∈ docRequests,
      (mapByIndex (a.answerOf (swapped matching)) docRequests).lookup docRequest.docRequestIndex =
        some (a.answerOf (swapped matching) docRequest) := fun docRequest hmem =>
    (lookup_mapByIndex hn).mpr ⟨docRequest, hmem, rfl, rfl⟩
  refine ⟨mapByIndex (a.answerOf (swapped matching)) docRequests, take, ?_, ?_, ?_, ?_⟩
  · rw [Attribution.answer, htaken, h.docRequests_eq]
    rfl
  · exact { hshares with
      satisfied := fun d hd hmem => hshares.satisfied d hd (List.mem_dedup.mpr hmem) }
  · intro d hd
    obtain ⟨docRequest, hmem, hi, hcandidate⟩ := hshares.mayAnswer d hd
    rw [← hi, hanswer docRequest hmem]
    have hunique : docRequest.uniqueDocSetRequired = true :=
      (Finset.mem_filter.mp hd.1).2 docRequest hmem hcandidate
    have hnot : docRequest.docRequestIndex ∉ a.excess.docRequestIndexes := by
      rw [h.mem_docRequests, hi]
      exact hshares.not_tooMany d hd
    rw [Attribution.answerOf, hunique, Bool.not_true, if_neg Bool.false_ne_true, if_neg hnot,
      (htakes d _).mpr ⟨hd, hi.symm⟩]
  · intro i hi
    obtain ⟨d₀, docRequest, hmem, rfl, hd₀⟩ := ha.valid i hi
    have hnot : docRequest.docRequestIndex ∉ a.excess.docRequestIndexes := by
      rw [h.mem_docRequests]
      exact ha.not_tooMany _ hi
    have hsatisfied : ∃ d ∈ a.answerOf (swapped matching) docRequest,
        Satisfies docRequests d docRequest.docRequestIndex := by
      unfold Attribution.answerOf
      rw [if_neg hnot]
      split
      case isTrue => exact ⟨d₀, docRequest.valid_subset hd₀, docRequest, hmem, rfl, hd₀⟩
      case isFalse =>
        split
        case h_1 d hd =>
          obtain ⟨hr, htake⟩ := (htakes d _).mp hd
          refine ⟨d, List.mem_singleton_self d, ?_⟩
          rw [← htake]
          exact hshares.satisfied d hr (List.mem_dedup.mpr (htake.symm ▸ hi))
        case h_2 =>
          obtain ⟨d, valid, hvalid⟩ := List.exists_cons_of_ne_nil (List.ne_nil_of_mem hd₀)
          refine ⟨d, ?_, docRequest, hmem, rfl, ?_⟩
          · rw [hvalid, List.take_succ_cons]
            exact List.mem_cons_self
          · rw [hvalid]
            exact List.mem_cons_self
    obtain ⟨d, hd, hs⟩ := hsatisfied
    exact ⟨_, d, hanswer docRequest hmem, hd, hs⟩

end Distinct

/-! ## Other orders -/

/-- The same doc request with other names, and its documents in any order. -/
structure Renamed (σ ρ : Equiv.Perm ℕ) (docRequest docRequest' : DocRequestCandidates) : Prop where
  index : docRequest'.docRequestIndex = ρ docRequest.docRequestIndex
  unique : docRequest'.uniqueDocSetRequired = docRequest.uniqueDocSetRequired
  candidates : ∀ d, σ d ∈ docRequest'.candidateDocuments ↔ d ∈ docRequest.candidateDocuments
  valid : ∀ d, σ d ∈ docRequest'.validDocuments ↔ d ∈ docRequest.validDocuments

/-- The same doc requests in any order, with documents and doc requests numbered in other ways. -/
def Reordered (σ ρ : Equiv.Perm ℕ) (docRequests docRequests' : List DocRequestCandidates) : Prop :=
  ∃ l, l.Perm docRequests ∧ List.Forall₂ (Renamed σ ρ) l docRequests'

namespace Reordered

variable {σ ρ : Equiv.Perm ℕ} {docRequests docRequests' : List DocRequestCandidates}

theorem exists_renamed (h : Reordered σ ρ docRequests docRequests')
    {docRequest : DocRequestCandidates} (hmem : docRequest ∈ docRequests) :
    ∃ docRequest' ∈ docRequests', Renamed σ ρ docRequest docRequest' := by
  obtain ⟨l, hperm, hforall⟩ := h
  exact Except.exists_of_forall₂ hforall (hperm.mem_iff.mpr hmem)

theorem exists_original (h : Reordered σ ρ docRequests docRequests')
    {docRequest' : DocRequestCandidates} (hmem : docRequest' ∈ docRequests') :
    ∃ docRequest ∈ docRequests, Renamed σ ρ docRequest docRequest' := by
  obtain ⟨l, hperm, hforall⟩ := h
  obtain ⟨docRequest, hl, hr⟩ := Except.exists_of_forall₂ hforall.flip hmem
  exact ⟨docRequest, hperm.mem_iff.mp hl, hr⟩

theorem nodup (h : Reordered σ ρ docRequests docRequests')
    (hn : (docRequests.map DocRequestCandidates.docRequestIndex).Nodup) :
    (docRequests'.map DocRequestCandidates.docRequestIndex).Nodup := by
  obtain ⟨l, hperm, hforall⟩ := h
  have hmap : docRequests'.map DocRequestCandidates.docRequestIndex =
      (l.map DocRequestCandidates.docRequestIndex).map ρ := by
    clear hperm
    induction hforall with
    | nil => rfl
    | cons hr _ ih => rw [List.map_cons, List.map_cons, List.map_cons, ih, hr.index]
  rw [hmap]
  exact ((hperm.map _).nodup_iff.mpr hn).map ρ.injective

variable (h : Reordered σ ρ docRequests docRequests')
include h

theorem mayAnswer_iff {d i : ℕ} : MayAnswer docRequests' (σ d) (ρ i) ↔
    MayAnswer docRequests d i := by
  constructor
  · rintro ⟨docRequest', hmem', hi, hd⟩
    obtain ⟨docRequest, hmem, hr⟩ := h.exists_original hmem'
    exact ⟨docRequest, hmem, ρ.injective (hr.index.symm.trans hi), (hr.candidates d).mp hd⟩
  · rintro ⟨docRequest, hmem, rfl, hd⟩
    obtain ⟨docRequest', hmem', hr⟩ := h.exists_renamed hmem
    exact ⟨docRequest', hmem', hr.index, (hr.candidates d).mpr hd⟩

theorem satisfies_relabel_iff {d i : ℕ} : Satisfies docRequests' (σ d) (ρ i) ↔
    Satisfies docRequests d i := by
  constructor
  · rintro ⟨docRequest', hmem', hi, hd⟩
    obtain ⟨docRequest, hmem, hr⟩ := h.exists_original hmem'
    exact ⟨docRequest, hmem, ρ.injective (hr.index.symm.trans hi), (hr.valid d).mp hd⟩
  · rintro ⟨docRequest, hmem, rfl, hd⟩
    obtain ⟨docRequest', hmem', hr⟩ := h.exists_renamed hmem
    exact ⟨docRequest', hmem', hr.index, (hr.valid d).mpr hd⟩

theorem mem_uniqueDocuments_iff (d : ℕ) : σ d ∈ uniqueDocuments docRequests' ↔
    d ∈ uniqueDocuments docRequests := by
  simp only [uniqueDocuments, Finset.mem_filter, List.mem_toFinset, List.mem_flatMap]
  constructor
  · rintro ⟨⟨docRequest', hmem', hd⟩, hall⟩
    obtain ⟨docRequest, hmem, hr⟩ := h.exists_original hmem'
    refine ⟨⟨docRequest, hmem, (hr.candidates d).mp hd⟩, fun docRequest hmem hd => ?_⟩
    obtain ⟨docRequest', hmem', hr⟩ := h.exists_renamed hmem
    exact hr.unique ▸ hall docRequest' hmem' ((hr.candidates d).mpr hd)
  · rintro ⟨⟨docRequest, hmem, hd⟩, hall⟩
    obtain ⟨docRequest', hmem', hr⟩ := h.exists_renamed hmem
    refine ⟨⟨docRequest', hmem', (hr.candidates d).mpr hd⟩, fun docRequest' hmem' hd => ?_⟩
    obtain ⟨docRequest, hmem, hr⟩ := h.exists_original hmem'
    exact hr.unique ▸ hall docRequest hmem ((hr.candidates d).mp hd)

theorem tooMany_iff {d : ℕ} : TooMany docRequests' (σ d) ↔ TooMany docRequests d :=
  Matching.leftOut_rename_iff (fun _ _ => h.mayAnswer_iff) h.mem_uniqueDocuments_iff

theorem hasTooMany_iff {i : ℕ} : HasTooMany docRequests' (ρ i) ↔ HasTooMany docRequests i := by
  constructor
  · rintro ⟨d, hd, hm⟩
    rw [← σ.apply_symm_apply d] at hd hm
    exact ⟨σ.symm d, h.tooMany_iff.mp hd, h.mayAnswer_iff.mp hm⟩
  · rintro ⟨d, hd, hm⟩
    exact ⟨σ d, h.tooMany_iff.mpr hd, h.mayAnswer_iff.mpr hm⟩

theorem remaining_iff {d : ℕ} : Remaining docRequests' (σ d) ↔ Remaining docRequests d :=
  and_congr (h.mem_uniqueDocuments_iff d) h.tooMany_iff.not

theorem sharesOut_iff {required : List ℕ} {take : ℕ → ℕ} :
    SharesOut docRequests' (required.map ρ) (fun d => ρ (take (σ.symm d))) ↔
      SharesOut docRequests required take := by
  have hmem : ∀ i, ρ i ∈ required.map ρ ↔ i ∈ required :=
    fun i => List.mem_map_of_injective ρ.injective
  constructor
  · intro hs
    refine ⟨fun d d' hd hd' heq => σ.injective
      (hs.injective _ _ (h.remaining_iff.mpr hd) (h.remaining_iff.mpr hd') ?_), fun d hd => ?_,
        fun d hd => ?_, fun d hd hi => ?_⟩
    · simp only [σ.symm_apply_apply, heq]
    · have := hs.mayAnswer _ (h.remaining_iff.mpr hd)
      rwa [σ.symm_apply_apply, h.mayAnswer_iff] at this
    · have := hs.not_tooMany _ (h.remaining_iff.mpr hd)
      rwa [σ.symm_apply_apply, h.hasTooMany_iff] at this
    · have := hs.satisfied _ (h.remaining_iff.mpr hd)
      rw [σ.symm_apply_apply, h.satisfies_relabel_iff, hmem] at this
      exact this hi
  · intro hs
    have hname : ∀ d, Remaining docRequests' d → ∃ d₀, d = σ d₀ ∧
        Remaining docRequests d₀ := fun d hd =>
      ⟨σ.symm d, (σ.apply_symm_apply d).symm, by rwa [← h.remaining_iff, σ.apply_symm_apply]⟩
    refine ⟨fun d d' hd hd' heq => ?_, fun d hd => ?_, fun d hd => ?_, fun d hd hi => ?_⟩
    · obtain ⟨d₀, rfl, hd₀⟩ := hname d hd
      obtain ⟨d₁, rfl, hd₁⟩ := hname d' hd'
      rw [σ.symm_apply_apply, σ.symm_apply_apply] at heq
      exact congrArg σ (hs.injective d₀ d₁ hd₀ hd₁ (ρ.injective heq))
    · obtain ⟨d₀, rfl, hd₀⟩ := hname d hd
      rw [σ.symm_apply_apply, h.mayAnswer_iff]
      exact hs.mayAnswer d₀ hd₀
    · obtain ⟨d₀, rfl, hd₀⟩ := hname d hd
      rw [σ.symm_apply_apply, h.hasTooMany_iff]
      exact hs.not_tooMany d₀ hd₀
    · obtain ⟨d₀, rfl, hd₀⟩ := hname d hd
      rw [σ.symm_apply_apply] at hi ⊢
      rw [h.satisfies_relabel_iff]
      exact hs.satisfied d₀ hd₀ ((hmem _).mp hi)

theorem answerable_iff {required : List ℕ} :
    Answerable docRequests' (required.map ρ) ↔ Answerable docRequests required := by
  constructor
  · rintro ⟨hv, ht, take, hs⟩
    refine ⟨fun i hi => ?_, fun i hi => ?_, fun d => ρ.symm (take (σ d)), ?_⟩
    · obtain ⟨d, hd⟩ := hv (ρ i) (List.mem_map_of_mem hi)
      rw [← σ.apply_symm_apply d, h.satisfies_relabel_iff] at hd
      exact ⟨_, hd⟩
    · exact h.hasTooMany_iff.not.mp (ht (ρ i) (List.mem_map_of_mem hi))
    · rw [← h.sharesOut_iff]
      simpa only [Equiv.apply_symm_apply] using hs
  · rintro ⟨hv, ht, take, hs⟩
    refine ⟨fun i hi => ?_, fun i hi => ?_, _, h.sharesOut_iff.mpr hs⟩
    · obtain ⟨i₀, hi₀, rfl⟩ := List.mem_map.mp hi
      obtain ⟨d, hd⟩ := hv i₀ hi₀
      exact ⟨σ d, h.satisfies_relabel_iff.mpr hd⟩
    · obtain ⟨i₀, hi₀, rfl⟩ := List.mem_map.mp hi
      exact h.hasTooMany_iff.not.mpr (ht i₀ hi₀)

end Reordered

/-! ## Attribution -/

/-- What `canAnswer` returns, whatever it was called for before. -/
def AnswersWith (a : Attribution) (required : List ℕ) (answer : Bool) : Prop :=
  ∀ queries, ∃ answers answers', a.remembered queries = some answers ∧
    a.canAnswer answers required = some (answer, answers')

theorem Attributes.exists_answersWith {docRequests : List DocRequestCandidates}
    (hn : (docRequests.map DocRequestCandidates.docRequestIndex).Nodup) {a : Attribution}
    (h : Attributes docRequests a) (required : List ℕ) :
    ∃ answer, AnswersWith a required answer ∧
    (answer = true ↔ Answerable docRequests required) := by
  classical
  refine ⟨decide (Answerable docRequests required), fun queries => ?_, decide_eq_true_iff⟩
  obtain ⟨answers, hanswers, hr⟩ := h.exists_remembered hn queries
  obtain ⟨answer, answers', hcan, hiff, -⟩ := h.exists_canAnswer hn hr required
  have heq : answer = decide (Answerable docRequests required) := by
    rw [Bool.eq_iff_iff, decide_eq_true_eq]
    exact hiff
  exact ⟨answers, answers', hanswers, heq ▸ hcan⟩

theorem AnswersWith.unique {a : Attribution} {required : List ℕ} {answer answer' : Bool}
    (h : AnswersWith a required answer) (h' : AnswersWith a required answer') :
    answer = answer' := by
  obtain ⟨answers₁, answers₁', hr₁, hc₁⟩ := h []
  obtain ⟨answers₂, answers₂', hr₂, hc₂⟩ := h' []
  cases hr₁.symm.trans hr₂
  cases hc₁.symm.trans hc₂
  rfl

theorem eq_sortNumbers_map {σ : Equiv.Perm ℕ} {l l' : List ℕ} (h : l.Pairwise (· < ·))
    (h' : l'.Pairwise (· < ·)) (hmem : ∀ n, σ n ∈ l' ↔ n ∈ l) : l' = sortNumbers (l.map σ) := by
  refine h'.eq_of_mem_iff
    (pairwise_sortNumbers (List.Nodup.map σ.injective (h.imp ne_of_lt))) fun n => ?_
  rw [mem_sortNumbers, ← σ.apply_symm_apply n, hmem, List.mem_map_of_injective σ.injective]

/-- The documents too many are those that some maximum matching leaves out. Doc requests can be
answered together exactly when they have documents that satisfy them and none too many, and the
remaining documents can be shared out; then the answers are those of one way to share them out. The
order and the numbering of documents and doc requests make no difference. -/
theorem attribution (docRequests : List DocRequestCandidates)
    (hn : (docRequests.map DocRequestCandidates.docRequestIndex).Nodup) :
    ∃ a, createAttribution docRequests = some a ∧
      (∀ d, d ∈ a.excess.documentIndexes ↔ TooMany docRequests d) ∧
      (∀ required, ∃ answer, AnswersWith a required answer ∧
        (answer = true ↔ Answerable docRequests required)) ∧
      (∀ required, AnswersWith a required true → ∃ byDocRequest take,
        a.answer required = some byDocRequest ∧ SharesOut docRequests required take ∧
        (∀ d, Remaining docRequests d → byDocRequest.lookup (take d) = some [d]) ∧
        ∀ i ∈ required, ∃ documents d, byDocRequest.lookup i = some documents ∧ d ∈ documents ∧
          Satisfies docRequests d i) ∧
      ∀ docRequests' σ ρ, Reordered σ ρ docRequests docRequests' →
      ∃ a', createAttribution docRequests' = some a' ∧
        a'.excess.documentIndexes = sortNumbers (a.excess.documentIndexes.map σ) ∧
        a'.excess.docRequestIndexes = sortNumbers (a.excess.docRequestIndexes.map ρ) ∧
        ∀ required answer, AnswersWith a required answer ↔
          AnswersWith a' (required.map ρ) answer := by
  obtain ⟨a, ha, h⟩ := exists_createAttribution hn
  refine ⟨a, ha, h.mem_documents, fun required => h.exists_answersWith hn required,
    fun required htrue => ?_, fun docRequests' σ ρ hre => ?_⟩
  · obtain ⟨answer, hanswer, hiff⟩ := h.exists_answersWith hn required
    cases hanswer.unique htrue
    exact h.exists_answer hn (hiff.mp rfl)
  · obtain ⟨a', ha', h'⟩ := exists_createAttribution (hre.nodup hn)
    refine ⟨a', ha', ?_, ?_, fun required answer => ?_⟩
    · refine eq_sortNumbers_map h.documents_sorted h'.documents_sorted fun d => ?_
      rw [h'.mem_documents, h.mem_documents, hre.tooMany_iff]
    · refine eq_sortNumbers_map h.docRequests_sorted h'.docRequests_sorted fun i => ?_
      rw [h'.mem_docRequests, h.mem_docRequests, hre.hasTooMany_iff]
    · obtain ⟨b, hb, hiff⟩ := h.exists_answersWith hn required
      obtain ⟨b', hb', hiff'⟩ := h'.exists_answersWith (hre.nodup hn) (required.map ρ)
      rw [hre.answerable_iff, ← hiff, ← Bool.eq_iff_iff] at hiff'
      cases hiff'
      exact ⟨fun hr => hr.unique hb ▸ hb', fun hr => hr.unique hb' ▸ hb⟩

/-- Three documents for two doc requests that take one each, and a document for another one. -/
def threeForTwo : List DocRequestCandidates :=
  [⟨0, true, [0, 1, 2], [0], by simp⟩, ⟨1, true, [0, 1, 2], [1], by simp⟩,
    ⟨2, true, [3, 4], [4], by simp⟩, ⟨3, false, [3], [], by simp⟩]

theorem attribution_threeForTwo : ∃ a, createAttribution threeForTwo = some a ∧
    a.excess.documentIndexes = [0, 1, 2] ∧ (∀ d, d ∈ [0, 1, 2] ↔ TooMany threeForTwo d) ∧
    AnswersWith a [2] true ∧ Answerable threeForTwo [2] := by
  obtain ⟨a, ha, hexcess, hcan, -⟩ := attribution threeForTwo (by decide)
  have hcreated : ((createAttribution threeForTwo).map fun a => a.excess.documentIndexes) =
      some [0, 1, 2] := by
    decide +kernel
  have hanswered : ((createAttribution threeForTwo).bind fun a =>
      (a.canAnswer [] [2]).map Prod.fst) = some true := by
    decide +kernel
  rw [ha, Option.map_some] at hcreated
  rw [ha, Option.bind_some] at hanswered
  have hdocs := Option.some.inj hcreated
  obtain ⟨answer, hanswer, hiff⟩ := hcan [2]
  obtain ⟨answers, answers', hr, hc⟩ := hanswer []
  cases hr
  rw [hc] at hanswered
  cases hanswered
  exact ⟨a, ha, hdocs, fun d => hdocs ▸ hexcess d, hanswer, hiff.mp rfl⟩

end IdentityCommon.Mdoc
