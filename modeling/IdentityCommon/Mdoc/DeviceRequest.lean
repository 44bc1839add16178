import IdentityCommon.Mdoc.SelectElements
import IdentityCommon.Mdoc.UseCases

/-!
# The request information of a device request

Which doc requests the documents of a response have to answer, and how: documents of an issuer that
is accepted, one document only where a doc request requires a unique document set, and a document
set of each mandatory use case.

## Main definitions

- `matchIssuer` — whether a certificate chain comes from an issuer that is accepted
- `checkRequestInfo` — the check of a holder before it answers
- `AnswersRequestInfo` — what the check is for

## Main results

- `checkRequestInfo_eq_ok` — the check succeeds exactly when the documents answer the request the
  way its request information asks

## Design notes

A document is what it names and the certificate chain of its credential. Positions of doc requests
are natural numbers. A certificate has no authority key identifier where it does not parse.
-/

namespace IdentityCommon.Mdoc

open AssocList IdentityCommon.Except

/-! ## Device requests -/

structure DocRequest extends ItemsRequest where
  issuerIdentifiers : Option (List (List UInt8)) := none
  uniqueDocSetRequired : Bool := false

structure DeviceRequest where
  docRequests : List DocRequest
  useCases : Option (List UseCase) := none

variable {C : Type}

/-- `HEX_CHARS[n]`. -/
def hexChar (n : ℕ) : Char := "0123456789abcdef".toList.getD n '0'

def hexEncode (input : List UInt8) : List Char :=
  input.flatMap fun byte => [hexChar (byte.toNat >>> 4 &&& 15), hexChar (byte.toNat &&& 15)]

/-- Whether a document comes from an issuer that is accepted, and why not; nothing where every
issuer is. -/
def matchIssuer (authorityKeyIdentifier : C → Option (List Char))
    (issuerIdentifiers : Option (List (List UInt8))) (certificateChain : Option (List C))
    (chainName : String) : Option (Except String Unit) :=
  issuerIdentifiers.map fun identifiers =>
    let accepted := "the " ++ identifiers.length.repr ++
      " issuer identifier(s) the doc request accepts"
    match certificateChain with
    | none => .error ("The document has no " ++ chainName ++ " to match " ++ accepted ++ " against")
    | some chain =>
      let keyIdentifiers := chain.filterMap authorityKeyIdentifier
      if identifiers.any fun identifier => keyIdentifiers.contains
        (hexEncode identifier) then .ok ()
      else .error ("No certificate in the " ++ chainName ++ " has one of " ++ accepted ++
        " as its authority key identifier")

/-! ## The documents of a holder -/

/-- A document that a holder answers doc requests with. -/
structure DocumentOptions (C : Type) where
  docRequestIndex : ℕ ⊕ List ℕ
  certificateChain : Option (List C) := none

inductive ResponseError
  | error (message : String)
  | unsatisfiedDeviceRequest (message : String)

/-- The doc requests that a document names, each once. -/
def DocumentOptions.docRequestIndexes (document : DocumentOptions C) : List ℕ :=
  (match document.docRequestIndex with
  | .inl index => [index]
  | .inr indexes => indexes).reverse.dedup.reverse

def findDocRequest (request : DeviceRequest) (docRequestIndex : ℕ) :
    Except ResponseError (ℕ × DocRequest) :=
  match request.docRequests[docRequestIndex]? with
  | some docRequest => .ok (docRequestIndex, docRequest)
  | none => .error (.error ("No doc request found at index " ++ docRequestIndex.repr))

def findDocRequests (request : DeviceRequest) (document : DocumentOptions C) :
    Except ResponseError (List (ℕ × DocRequest)) :=
  if document.docRequestIndexes = [] then
    .error (.error "A document has to answer at least one doc request")
  else document.docRequestIndexes.mapM (findDocRequest request)

/-! ## The check -/

section

variable (authorityKeyIdentifier : C → Option (List Char))

/-- The issuer of a document, matched against the chain of its credential. -/
def issuerMatch (document : DocumentOptions C) (docRequest : DocRequest) :
    Option (Except String Unit) :=
  matchIssuer authorityKeyIdentifier docRequest.issuerIdentifiers document.certificateChain
    "x5chain of the IssuerAuth"

/-- A document for a doc request, after the documents that are counted. -/
def checkNamed (document : DocumentOptions C × ℕ) (documentsPerDocRequest : List (ℕ × ℕ))
    (named : ℕ × DocRequest) : Except ResponseError (List (ℕ × ℕ)) :=
  let count := (documentsPerDocRequest.lookup named.1).getD 0 + 1
  match issuerMatch authorityKeyIdentifier document.1 named.2 with
  | some (.error reason) => .error (.unsatisfiedDeviceRequest
      ("Document " ++ document.2.repr ++ " answers doc request " ++ named.1.repr ++
        ", but comes from an issuer it does not accept: " ++ reason))
  | _ =>
    if named.2.uniqueDocSetRequired && count = 2 then .error (.unsatisfiedDeviceRequest
      ("More than one document answers doc request " ++ named.1.repr ++
        ", but it requires a unique document set"))
    else .ok (insert named.1 count documentsPerDocRequest)

def checkDocument (request : DeviceRequest) (documentsPerDocRequest : List (ℕ × ℕ))
    (document : DocumentOptions C × ℕ) : Except ResponseError (List (ℕ × ℕ)) := do
  let named ← findDocRequests request document.1
  named.foldlM (checkNamed authorityKeyIdentifier document) documentsPerDocRequest

/-- One of the document sets has a document for each of its doc requests. -/
def answersSet (documentsPerDocRequest : List (ℕ × ℕ)) (documentSets : List (List ℕ)) : Bool :=
  documentSets.any fun set => set.all fun docRequestIndex =>
    (documentsPerDocRequest.lookup docRequestIndex).isSome

def answeredText (documentsPerDocRequest : List (ℕ × ℕ)) : String :=
  "they answer doc requests " ++
  ", ".intercalate ((sortNumbers (keys documentsPerDocRequest)).map Nat.repr)

def checkMandatory (documentsPerDocRequest : List (ℕ × ℕ)) (useCase : UseCase × ℕ) :
    Except ResponseError Unit :=
  if useCase.1.mandatory && !answersSet documentsPerDocRequest useCase.1.documentSets then
    .error (.unsatisfiedDeviceRequest ("Use case " ++ useCase.2.repr ++
      " is mandatory, but the documents do not answer every doc request of any of its document " ++
      "sets (" ++
      answeredText documentsPerDocRequest ++ ")"))
  else .ok ()

def checkUseCases (documentsPerDocRequest : List (ℕ × ℕ)) (useCases : List UseCase) :
    Except ResponseError Unit := do
  useCases.zipIdx.forM (checkMandatory documentsPerDocRequest)
  if useCases.any fun useCase => answersSet documentsPerDocRequest useCase.documentSets then .ok ()
  else .error (.unsatisfiedDeviceRequest
    ("None of the use cases has a document set whose doc requests the documents all answer (" ++
      answeredText documentsPerDocRequest ++ ")"))

def checkRequestInfo (request : DeviceRequest) (documents : List (DocumentOptions C)) :
    Except ResponseError Unit := do
  let documentsPerDocRequest ← documents.zipIdx.foldlM
    (checkDocument authorityKeyIdentifier request) []
  match request.useCases with
  | none => .ok ()
  | some useCases =>
    if documents = [] then .ok () else checkUseCases documentsPerDocRequest useCases

end

/-! ## What the check is for -/

/-- The issuer is not refused. -/
def Accepted (result : Option (Except String Unit)) : Prop :=
  ∀ reason, result ≠ some (.error reason)

/-- A doc request of the device request that requires a unique document set. -/
def RequiresUnique (request : DeviceRequest) (docRequestIndex : ℕ) : Prop :=
  ∃ docRequest, request.docRequests[docRequestIndex]? = some docRequest ∧
  docRequest.uniqueDocSetRequired = true

/-- The doc requests that a document names are there, and accept its issuer. -/
structure NamesDocRequests (authorityKeyIdentifier : C → Option (List Char))
    (request : DeviceRequest) (document : DocumentOptions C) : Prop where
  nonempty : document.docRequestIndexes ≠ []
  accepts : ∀ docRequestIndex ∈ document.docRequestIndexes, ∃ docRequest,
    request.docRequests[docRequestIndex]? = some docRequest ∧
    Accepted (issuerMatch authorityKeyIdentifier document docRequest)

/-- No doc request that requires a unique document set is named by both. -/
def ShareNoUnique (request : DeviceRequest) (document document' : DocumentOptions C) : Prop :=
  ∀ docRequestIndex, RequiresUnique request docRequestIndex →
  docRequestIndex ∈ document.docRequestIndexes →
    docRequestIndex ∉ document'.docRequestIndexes

/-- One of the document sets of a use case has a document that names it for each of its doc
requests. -/
def AnswersUseCase (documents : List (DocumentOptions C)) (useCase : UseCase) : Prop :=
  ∃ set ∈ useCase.documentSets, ∀ docRequestIndex ∈ set, ∃ document ∈ documents,
  docRequestIndex ∈ document.docRequestIndexes

/-- The documents answer the request the way its request information asks. -/
structure AnswersRequestInfo (authorityKeyIdentifier : C → Option (List Char))
    (request : DeviceRequest) (documents : List (DocumentOptions C)) : Prop where
  names : ∀ document ∈ documents, NamesDocRequests authorityKeyIdentifier request document
  unique : documents.Pairwise (ShareNoUnique request)
  useCases : ∀ useCases, request.useCases = some useCases → documents ≠ [] →
    (∀ useCase ∈ useCases, useCase.mandatory = true → AnswersUseCase documents useCase) ∧
      ∃ useCase ∈ useCases, AnswersUseCase documents useCase

/-! ## Counting -/

/-- The documents are counted for each doc request that they name. -/
structure Counts (documentsPerDocRequest : List (ℕ × ℕ)) (named : List ℕ) : Prop where
  count : ∀ i, (documentsPerDocRequest.lookup i).getD 0 = named.count i
  isSome : ∀ i, (documentsPerDocRequest.lookup i).isSome ↔ i ∈ named

theorem Counts.nil : Counts [] [] :=
  ⟨fun _ => rfl, fun _ => iff_of_false Bool.false_ne_true List.not_mem_nil⟩

theorem Counts.insert {documentsPerDocRequest : List (ℕ × ℕ)} {named : List ℕ}
    (h : Counts documentsPerDocRequest named) (i : ℕ) :
    Counts (insert i ((documentsPerDocRequest.lookup i).getD 0 + 1) documentsPerDocRequest)
      (named ++ [i]) := by
  constructor
  · intro j
    rw [lookup_insert, List.count_append, List.count_singleton, h.count]
    by_cases hj : j = i
    · rw [if_pos hj, Option.getD_some, hj, beq_self_eq_true, if_pos rfl]
    · rw [if_neg hj, h.count, if_neg (by simpa using Ne.symm hj), Nat.add_zero]
  · intro j
    rw [lookup_insert, List.mem_append, List.mem_singleton]
    by_cases hj : j = i
    · rw [if_pos hj]
      exact iff_of_true rfl (.inr hj)
    · rw [if_neg hj, h.isSome]
      exact ⟨.inl, fun h => h.resolve_right hj⟩

section

variable {authorityKeyIdentifier : C → Option (List Char)} {document : DocumentOptions C × ℕ}
  {documentsPerDocRequest : List (ℕ × ℕ)} {processed : List ℕ}

theorem checkNamed_eq_ok (h : Counts documentsPerDocRequest processed) {named : ℕ × DocRequest}
    {after : List (ℕ × ℕ)} :
    checkNamed authorityKeyIdentifier document documentsPerDocRequest named = .ok after ↔
      Accepted (issuerMatch authorityKeyIdentifier document.1 named.2) ∧
      ¬(named.2.uniqueDocSetRequired = true ∧ processed.count named.1 = 1) ∧
      after = insert named.1 ((documentsPerDocRequest.lookup named.1).getD 0 + 1)
        documentsPerDocRequest := by
  have hcount : (documentsPerDocRequest.lookup named.1).getD 0 + 1 = 2 ↔
      processed.count named.1 = 1 := by
    rw [h.count]
    omega
  unfold checkNamed
  dsimp only
  split
  case h_1 reason hreason => exact iff_of_false (fun h => by cases h) fun h => h.1 reason hreason
  case h_2 haccepted =>
    have haccepted : Accepted (issuerMatch authorityKeyIdentifier document.1 named.2) := haccepted
    rw [and_iff_right haccepted]
    by_cases htwice : named.2.uniqueDocSetRequired = true ∧ processed.count named.1 = 1
    · rw [if_pos (by simpa [hcount] using htwice)]
      exact iff_of_false (fun h => by cases h) fun h => h.1 htwice
    · rw [if_neg (by simpa [hcount] using htwice)]
      constructor
      · intro h
        exact ⟨htwice, (Except.ok.inj h).symm⟩
      · rintro ⟨-, rfl⟩
        rfl

/-- The doc requests that one document names. -/
theorem foldlM_checkNamed (authorityKeyIdentifier : C → Option (List Char))
    (document : DocumentOptions C × ℕ) (named : List (ℕ × DocRequest))
    (hn : (named.map Prod.fst).Nodup) (h : Counts documentsPerDocRequest processed) :
    ((∃ after, named.foldlM (checkNamed authorityKeyIdentifier document) documentsPerDocRequest =
      .ok after) ↔
      ∀ n ∈ named, Accepted (issuerMatch authorityKeyIdentifier document.1 n.2) ∧
        ¬(n.2.uniqueDocSetRequired = true ∧ processed.count n.1 = 1)) ∧
    ∀ after, named.foldlM (checkNamed authorityKeyIdentifier document) documentsPerDocRequest =
      .ok after →
      Counts after (processed ++ named.map Prod.fst) := by
  induction named generalizing documentsPerDocRequest processed with
  | nil =>
    refine ⟨iff_of_true ⟨_, rfl⟩ fun n hn => absurd hn List.not_mem_nil, fun after hafter => ?_⟩
    rw [List.map_nil, List.append_nil, ← Except.ok.inj hafter]
    exact h
  | cons n named ih =>
    obtain ⟨hout, hn⟩ := List.nodup_cons.mp hn
    obtain ⟨hiff, hcounts⟩ := ih hn (h.insert n.1)
    -- the others are named for the first time by this document too
    have hcount : ∀ n' ∈ named, (processed ++ [n.1]).count n'.1 = processed.count n'.1 := by
      intro n' hn'
      have hne : n.1 ≠ n'.1 := fun heq => hout (heq ▸ List.mem_map_of_mem hn')
      rw [List.count_append, List.count_singleton, if_neg (by simpa using hne), Nat.add_zero]
    rw [List.foldlM_cons]
    constructor
    · rw [List.forall_mem_cons]
      constructor
      · rintro ⟨after, hafter⟩
        obtain ⟨next, hnext, hafter⟩ := bind_eq_ok.mp hafter
        obtain ⟨haccepted, hunique, rfl⟩ := (checkNamed_eq_ok h).mp hnext
        refine ⟨⟨haccepted, hunique⟩, fun n' hn' => ?_⟩
        have hchecked := hiff.mp ⟨after, hafter⟩ n' hn'
        rwa [hcount n' hn'] at hchecked
      · rintro ⟨⟨haccepted, hunique⟩, hrest⟩
        obtain ⟨after, hafter⟩ := hiff.mpr fun n' hn' => by
          rw [hcount n' hn']
          exact hrest n' hn'
        exact ⟨after, bind_eq_ok.mpr
          ⟨_, (checkNamed_eq_ok h).mpr ⟨haccepted, hunique, rfl⟩, hafter⟩⟩
    · intro after hafter
      obtain ⟨next, hnext, hafter⟩ := bind_eq_ok.mp hafter
      obtain ⟨-, -, rfl⟩ := (checkNamed_eq_ok h).mp hnext
      have hfinal := hcounts after hafter
      rwa [List.append_assoc, List.singleton_append, ← List.map_cons] at hfinal

end

theorem findDocRequest_eq_ok {request : DeviceRequest} {i : ℕ} {n : ℕ × DocRequest} :
    findDocRequest request i = .ok n ↔ n.1 = i ∧ request.docRequests[n.1]? = some n.2 := by
  obtain ⟨j, docRequest⟩ := n
  unfold findDocRequest
  constructor
  · intro h
    split at h
    case h_1 docRequest' hi =>
      cases h
      exact ⟨rfl, hi⟩
    case h_2 => cases h
  · rintro ⟨rfl, hn⟩
    dsimp only at hn ⊢
    rw [hn]

/-- The doc requests of a document are found when they are there. -/
theorem findDocRequests_eq_ok {request : DeviceRequest} {document : DocumentOptions C}
    {named : List (ℕ × DocRequest)} :
    findDocRequests request document = .ok named ↔ document.docRequestIndexes ≠ [] ∧
      named.map Prod.fst = document.docRequestIndexes ∧
      ∀ n ∈ named, request.docRequests[n.1]? = some n.2 := by
  unfold findDocRequests
  by_cases hnil : document.docRequestIndexes = []
  · rw [if_pos hnil]
    exact iff_of_false (fun h => by cases h) fun h => h.1 hnil
  · rw [if_neg hnil, mapM_eq_ok, and_iff_right hnil]
    simp only [findDocRequest_eq_ok]
    generalize document.docRequestIndexes = indexes
    constructor
    · intro h
      induction h with
      | nil => exact ⟨rfl, fun n hn => absurd hn List.not_mem_nil⟩
      | cons hhead _ ih =>
        refine ⟨?_, List.forall_mem_cons.mpr ⟨hhead.2, ih.2⟩⟩
        rw [List.map_cons, ih.1, hhead.1]
    · rintro ⟨rfl, hall⟩
      apply List.forall₂_map_left_iff.mpr
      apply List.forall₂_same.mpr
      exact fun n hn => ⟨rfl, hall n hn⟩

theorem nodup_docRequestIndexes (document : DocumentOptions C) : document.docRequestIndexes.Nodup :=
  List.nodup_reverse.mpr (List.nodup_dedup _)

/-! ## The documents one after the other -/

section

variable {request : DeviceRequest} {documentsPerDocRequest : List (ℕ × ℕ)} {processed : List ℕ}
  (authorityKeyIdentifier : C → Option (List Char)) (h : Counts documentsPerDocRequest processed)
  (hunique : ∀ i, RequiresUnique request i → processed.count i ≤ 1)

include h hunique

/-- One more document, after some that name a doc request with a unique document set at most
once. -/
theorem checkDocument_spec (document : DocumentOptions C × ℕ) :
    ((∃ after, checkDocument authorityKeyIdentifier request documentsPerDocRequest document =
      .ok after) ↔
      NamesDocRequests authorityKeyIdentifier request document.1 ∧
        ∀ i ∈ document.1.docRequestIndexes, RequiresUnique request i → i ∉ processed) ∧
    ∀ after, checkDocument authorityKeyIdentifier request documentsPerDocRequest document =
      .ok after →
      Counts after (processed ++ document.1.docRequestIndexes) := by
  have hspec (named : List (ℕ × DocRequest)) (hindexes : named.map Prod.fst =
      document.1.docRequestIndexes) :=
    foldlM_checkNamed authorityKeyIdentifier document named
      (hindexes ▸ nodup_docRequestIndexes document.1) h
  have hcount : ∀ i, RequiresUnique request i → (processed.count i ≠ 1 ↔ i ∉ processed) := by
    intro i hi
    rw [← List.count_eq_zero]
    have := hunique i hi
    omega
  constructor
  · constructor
    · rintro ⟨after, hafter⟩
      obtain ⟨named, hnamed, hafter⟩ := bind_eq_ok.mp hafter
      obtain ⟨hnil, hindexes, hall⟩ := findDocRequests_eq_ok.mp hnamed
      have hchecked := (hspec named hindexes).1.mp ⟨after, hafter⟩
      refine ⟨⟨hnil, fun i hi => ?_⟩, fun i hi hrequires => ?_⟩
      · rw [← hindexes] at hi
        obtain ⟨n, hn, rfl⟩ := List.mem_map.mp hi
        exact ⟨n.2, hall n hn, (hchecked n hn).1⟩
      · rw [← hindexes] at hi
        obtain ⟨n, hn, rfl⟩ := List.mem_map.mp hi
        apply (hcount n.1 hrequires).mp
        intro hone
        obtain ⟨docRequest, hdocRequest, htrue⟩ := hrequires
        obtain rfl := Option.some.inj ((hall n hn).symm.trans hdocRequest)
        exact (hchecked n hn).2 ⟨htrue, hone⟩
    · rintro ⟨hnames, hfresh⟩
      -- the doc requests that are named are found
      obtain ⟨named, hmap⟩ : ∃ named, document.1.docRequestIndexes.mapM (findDocRequest request) =
          .ok named := by
        apply exists_mapM_eq_ok
        intro i hi
        obtain ⟨docRequest, hdocRequest, -⟩ := hnames.accepts i hi
        exact ⟨(i, docRequest), findDocRequest_eq_ok.mpr ⟨rfl, hdocRequest⟩⟩
      have hnamed : findDocRequests request document.1 = .ok named := by
        rw [findDocRequests, if_neg hnames.nonempty, hmap]
      obtain ⟨-, hindexes, hall⟩ := findDocRequests_eq_ok.mp hnamed
      obtain ⟨after, hafter⟩ := (hspec named hindexes).1.mpr fun n hn => by
        have hmem : n.1 ∈ document.1.docRequestIndexes := hindexes ▸ List.mem_map_of_mem hn
        obtain ⟨docRequest, hdocRequest, haccepted⟩ := hnames.accepts n.1 hmem
        obtain rfl := Option.some.inj ((hall n hn).symm.trans hdocRequest)
        refine ⟨haccepted, fun htwice => ?_⟩
        have hrequires : RequiresUnique request n.1 := ⟨_, hdocRequest, htwice.1⟩
        exact (hcount n.1 hrequires).mpr (hfresh n.1 hmem hrequires) htwice.2
      exact ⟨after, bind_eq_ok.mpr ⟨named, hnamed, hafter⟩⟩
  · intro after hafter
    obtain ⟨named, hnamed, hafter⟩ := bind_eq_ok.mp hafter
    obtain ⟨-, hindexes, -⟩ := findDocRequests_eq_ok.mp hnamed
    rw [← hindexes]
    exact (hspec named hindexes).2 after hafter

omit h in
/-- A document counts once for each doc request that it names. -/
theorem count_append_le_one {document : DocumentOptions C}
    (hfresh : ∀ i ∈ document.docRequestIndexes, RequiresUnique request i → i ∉ processed) (i : ℕ)
    (hi : RequiresUnique request i) :
    (processed ++ document.docRequestIndexes).count i ≤ 1 := by
  rw [List.count_append]
  by_cases hmem : i ∈ document.docRequestIndexes
  · have honce := List.nodup_iff_count_le_one.mp (nodup_docRequestIndexes document) i
    have hzero := List.count_eq_zero.mpr (hfresh i hmem hi)
    omega
  · have hle := hunique i hi
    have hzero := List.count_eq_zero.mpr hmem
    omega

theorem foldlM_checkDocument (documents : List (DocumentOptions C)) (k : ℕ) :
    ((∃ after, (documents.zipIdx k).foldlM
      (checkDocument authorityKeyIdentifier request) documentsPerDocRequest = .ok after) ↔
      (∀ document ∈ documents, NamesDocRequests authorityKeyIdentifier request document ∧
        ∀ i ∈ document.docRequestIndexes, RequiresUnique request i → i ∉ processed) ∧
      documents.Pairwise (ShareNoUnique request)) ∧
    ∀ after, (documents.zipIdx k).foldlM
      (checkDocument authorityKeyIdentifier request) documentsPerDocRequest = .ok after →
      Counts after (processed ++ documents.flatMap DocumentOptions.docRequestIndexes) := by
  induction documents generalizing documentsPerDocRequest processed k with
  | nil =>
    refine ⟨iff_of_true ⟨_, rfl⟩ ⟨fun d hd => absurd hd List.not_mem_nil, .nil⟩,
      fun after hafter => ?_⟩
    rw [List.flatMap_nil, List.append_nil, ← Except.ok.inj hafter]
    exact h
  | cons document documents ih =>
    obtain ⟨hiff, hcounts⟩ := checkDocument_spec authorityKeyIdentifier h hunique (document, k)
    rw [List.zipIdx_cons, List.foldlM_cons]
    constructor
    · rw [List.forall_mem_cons, List.pairwise_cons]
      constructor
      · rintro ⟨after, hafter⟩
        obtain ⟨next, hchecked, hafter⟩ := bind_eq_ok.mp hafter
        obtain ⟨hnames, hfresh⟩ := hiff.mp ⟨next, hchecked⟩
        obtain ⟨hall, hpairs⟩ :=
          (ih (hcounts next hchecked) (count_append_le_one hunique hfresh) (k + 1)).1.mp
            ⟨after, hafter⟩
        refine ⟨⟨⟨hnames, hfresh⟩, fun d hd => ⟨(hall d hd).1, fun i hi hrequires hmem => ?_⟩⟩,
          fun d hd i hrequires hi hi' => ?_, hpairs⟩
        · exact (hall d hd).2 i hi hrequires (List.mem_append_left _ hmem)
        · exact (hall d hd).2 i hi' hrequires (List.mem_append_right _ hi)
      · rintro ⟨⟨⟨hnames, hfresh⟩, hall⟩, hshare, hpairs⟩
        obtain ⟨next, hchecked⟩ := hiff.mpr ⟨hnames, hfresh⟩
        have hrest : ∀ d ∈ documents, ∀ i ∈ d.docRequestIndexes, RequiresUnique request i →
            i ∉ processed ++ document.docRequestIndexes := by
          intro d hd i hi hrequires hmem
          rcases List.mem_append.mp hmem with hmem | hmem
          · exact (hall d hd).2 i hi hrequires hmem
          · exact hshare d hd i hrequires hmem hi
        obtain ⟨after, hafter⟩ :=
          (ih (hcounts next hchecked) (count_append_le_one hunique hfresh) (k + 1)).1.mpr
          ⟨fun d hd => ⟨(hall d hd).1, hrest d hd⟩, hpairs⟩
        exact ⟨after, bind_eq_ok.mpr ⟨next, hchecked, hafter⟩⟩
    · intro after hafter
      obtain ⟨next, hchecked, hafter⟩ := bind_eq_ok.mp hafter
      obtain ⟨-, hfresh⟩ := hiff.mp ⟨next, hchecked⟩
      have hfinal :=
        (ih (hcounts next hchecked) (count_append_le_one hunique hfresh) (k + 1)).2 after hafter
      rwa [List.append_assoc, ← List.flatMap_cons] at hfinal

end

/-! ## Use cases -/

theorem answersSet_iff {documentsPerDocRequest : List (ℕ × ℕ)}
    {documents : List (DocumentOptions C)}
    (h : Counts documentsPerDocRequest (documents.flatMap DocumentOptions.docRequestIndexes))
    {useCase : UseCase} :
    answersSet documentsPerDocRequest useCase.documentSets = true ↔
      AnswersUseCase documents useCase := by
  simp only [answersSet, List.any_eq_true, List.all_eq_true, h.isSome, List.mem_flatMap]
  rfl

theorem checkMandatory_eq_ok {documentsPerDocRequest : List (ℕ × ℕ)} {useCase : UseCase × ℕ} :
    checkMandatory documentsPerDocRequest useCase = .ok () ↔
      (useCase.1.mandatory = true →
        answersSet documentsPerDocRequest useCase.1.documentSets = true) := by
  unfold checkMandatory
  cases useCase.1.mandatory with
  | false => exact iff_of_true rfl fun h => absurd h Bool.false_ne_true
  | true =>
    cases answersSet documentsPerDocRequest useCase.1.documentSets with
    | false => exact iff_of_false (fun h => by cases h) fun h => Bool.false_ne_true (h rfl)
    | true => exact iff_of_true rfl fun _ => rfl

theorem checkUseCases_eq_ok {documentsPerDocRequest : List (ℕ × ℕ)} {useCases : List UseCase} :
    checkUseCases documentsPerDocRequest useCases = .ok () ↔
      (∀ useCase ∈ useCases, useCase.mandatory = true →
        answersSet documentsPerDocRequest useCase.documentSets = true) ∧
        ∃ useCase ∈ useCases, answersSet documentsPerDocRequest useCase.documentSets = true := by
  unfold checkUseCases
  rw [bind_eq_ok, ← List.any_eq_true]
  constructor
  · rintro ⟨_, hloop, hany⟩
    refine ⟨fun useCase huseCase => ?_, ?_⟩
    · obtain ⟨k, hk⟩ := List.mem_iff_getElem?.mp huseCase
      have hmem : (useCase, k) ∈ useCases.zipIdx := List.mk_mem_zipIdx_iff_getElem?.mpr hk
      exact checkMandatory_eq_ok.mp (forM_eq_ok.mp hloop _ hmem)
    · split at hany
      case isTrue htrue => exact htrue
      case isFalse => cases hany
  · rintro ⟨hall, hany⟩
    refine ⟨(), forM_eq_ok.mpr fun useCase huseCase => ?_, if_pos hany⟩
    apply checkMandatory_eq_ok.mpr
    exact hall _ (List.mem_of_getElem? (List.mk_mem_zipIdx_iff_getElem?.mp huseCase))

/-- The documents are checked, and counted, before the use cases. -/
theorem checkDocuments_eq_ok (authorityKeyIdentifier : C → Option (List Char))
    (request : DeviceRequest) (documents : List (DocumentOptions C)) :
    ((∃ after, documents.zipIdx.foldlM (checkDocument authorityKeyIdentifier request) [] =
      .ok after) ↔
      (∀ document ∈ documents, NamesDocRequests authorityKeyIdentifier request document) ∧
        documents.Pairwise (ShareNoUnique request)) ∧
    ∀ after, documents.zipIdx.foldlM (checkDocument authorityKeyIdentifier request) [] = .ok after →
      Counts after (documents.flatMap DocumentOptions.docRequestIndexes) := by
  obtain ⟨hiff, hcounts⟩ := foldlM_checkDocument authorityKeyIdentifier Counts.nil
    (fun i (_ : RequiresUnique request i) => Nat.zero_le _) documents 0
  refine ⟨hiff.trans (and_congr_left' (forall₂_congr fun document _ => ?_)), hcounts⟩
  exact and_iff_left fun i _ _ => List.not_mem_nil

theorem answersRequestInfo_of_check {authorityKeyIdentifier : C → Option (List Char)}
    {request : DeviceRequest} {documents : List (DocumentOptions C)}
    (h : checkRequestInfo authorityKeyIdentifier request documents = .ok ()) :
    AnswersRequestInfo authorityKeyIdentifier request documents := by
  obtain ⟨hdocuments, hcounts⟩ := checkDocuments_eq_ok authorityKeyIdentifier request documents
  unfold checkRequestInfo at h
  obtain ⟨after, hafter, h⟩ := bind_eq_ok.mp h
  obtain ⟨hnames, hpairs⟩ := hdocuments.mp ⟨after, hafter⟩
  refine ⟨hnames, hpairs, fun useCases huseCases hne => ?_⟩
  rw [huseCases] at h
  dsimp only at h
  rw [if_neg hne, checkUseCases_eq_ok] at h
  simpa only [answersSet_iff (hcounts after hafter)] using h

/-- The check succeeds exactly when the documents answer the request the way its request information
asks. -/
theorem checkRequestInfo_eq_ok (authorityKeyIdentifier : C → Option (List Char))
    (request : DeviceRequest) (documents : List (DocumentOptions C)) :
    checkRequestInfo authorityKeyIdentifier request documents = .ok () ↔
      AnswersRequestInfo authorityKeyIdentifier request documents := by
  refine ⟨answersRequestInfo_of_check, fun h => ?_⟩
  obtain ⟨hdocuments, hcounts⟩ := checkDocuments_eq_ok authorityKeyIdentifier request documents
  obtain ⟨after, hafter⟩ := hdocuments.mpr ⟨h.names, h.unique⟩
  have hcounted : Counts after (documents.flatMap DocumentOptions.docRequestIndexes) :=
    hcounts after hafter
  unfold checkRequestInfo
  refine bind_eq_ok.mpr ⟨after, hafter, ?_⟩
  cases huseCases : request.useCases with
  | none => rfl
  | some useCases =>
    by_cases hne : documents = []
    · exact if_pos hne
    · dsimp only
      rw [if_neg hne, checkUseCases_eq_ok]
      simpa only [answersSet_iff hcounted] using h.useCases useCases huseCases hne

end IdentityCommon.Mdoc
