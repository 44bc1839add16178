import Mathlib.Data.List.Sort
import IdentityCommon.Lib.Except
import IdentityCommon.Lib.OrderedMap

/-!
# Matching the elements of a document

The elements that a document discloses, or that a credential can disclose, matched with those that a
doc request asks for.

## Main definitions

- `findAgeOverCandidate`, `findElement` — the element that answers a request
- `collectElements` — the elements of a document
- `MatchOptions.lookup` — the element that answers a request, from a source that is allowed for it
- `matchElements` — a claim for each requested element, and the elements that none of them uses

## Design notes

A `Map` is an ordered map. An element is known by its position among those that `collectElements`
builds, so that two equal elements are not the same one. The source keeps the issuer-signed item of
an element; it is the element itself here.
-/

namespace IdentityCommon.Mdoc

abbrev Namespace := String

abbrev DataElementIdentifier := String

/-- A namespace and an element identifier. -/
abbrev ElementReference := Namespace × DataElementIdentifier

/-- A CBOR value. Only booleans are looked at. -/
inductive DataElementValue (V : Type)
  | bool (b : Bool)
  | other (value : V)
  deriving DecidableEq

inductive DisclosedElementSource
  | issuerSigned | deviceSigned
  deriving DecidableEq

def DisclosedElementSource.name : DisclosedElementSource → String
  | issuerSigned => "issuerSigned"
  | deviceSigned => "deviceSigned"

structure ElementCandidate (V : Type) where
  position : ℕ
  nameSpace : Namespace
  elementIdentifier : DataElementIdentifier
  elementValue : DataElementValue V
  source : DisclosedElementSource
  deriving DecidableEq

variable {V : Type}

/-! ## Age attestations -/

/-- The `NN` of `age_over_NN`, two digits. -/
def parseAgeOverIdentifier (elementIdentifier : DataElementIdentifier) : Option ℕ :=
  if elementIdentifier.toList.take 9 = "age_over_".toList then
    match elementIdentifier.toList.drop 9 with
    | [a, b] => if a.isDigit ∧ b.isDigit then some ((a.toNat - 48) * 10 + (b.toNat - 48)) else none
    | _ => none
  else none

example : parseAgeOverIdentifier "age_over_18" = some 18 ∧
    parseAgeOverIdentifier "age_over_018" = none := by decide

/-- The age attestations among some elements, with their `NN`. -/
def ageOverCandidates (candidates : List (ElementCandidate V)) : List (ℕ × ElementCandidate V) :=
  candidates.filterMap fun candidate =>
    (parseAgeOverIdentifier candidate.elementIdentifier).map fun nn => (nn, candidate)

/-- The first of the attestations with a value whose `NN` fits, in an order of the `NN`. -/
def nearest (value : Bool) (fits : ℕ → Bool) (le : ℕ → ℕ → Bool)
    (candidates : List (ElementCandidate V)) : Option (ElementCandidate V) :=
  let attested := (ageOverCandidates candidates).filter fun c =>
    match c.2.elementValue with
    | .bool b => b = value && fits c.1
    | .other _ => false
  (attested.mergeSort fun a b => le a.1 b.1).head?.map Prod.snd

def nearestTrue (requestedNn : ℕ) : List (ElementCandidate V) → Option (ElementCandidate V) :=
  nearest true (requestedNn ≤ ·) (· ≤ ·)

def nearestFalse (requestedNn : ℕ) : List (ElementCandidate V) → Option (ElementCandidate V) :=
  nearest false (· ≤ requestedNn) (fun a b => b ≤ a)

/-- The attestation that answers a request for `age_over_NN`: the nearest one that is true for the
age or a greater one, else the nearest one that is false for it or a smaller one. -/
def findAgeOverCandidate (requestedElementIdentifier : DataElementIdentifier)
    (candidates : List (ElementCandidate V)) : Option (ElementCandidate V) :=
  match parseAgeOverIdentifier requestedElementIdentifier with
  | none => none
  | some requestedNn =>
      (nearestTrue requestedNn candidates).or (nearestFalse requestedNn candidates)

def findElement (elementIdentifier : DataElementIdentifier)
    (candidates : List (ElementCandidate V)) : Option (ElementCandidate V) :=
  (candidates.find? fun candidate => candidate.elementIdentifier = elementIdentifier).or
    (findAgeOverCandidate elementIdentifier candidates)

/-- The namespaces with more than two different `age_over_NN` identifiers, with these. -/
def findAgeOverLimitViolations (namespaces : List (Namespace × List DataElementIdentifier)) :
    List (Namespace × List DataElementIdentifier) :=
  (namespaces.map fun n => (n.1, n.2.reverse.dedup.reverse.filter fun id =>
    (parseAgeOverIdentifier id).isSome)).filter
    fun n => n.2.length > 2

/-! ## The elements of a document -/

abbrev IssuerNamespaceItems (V : Type) :=
  OrderedMap Namespace (List (DataElementIdentifier × DataElementValue V))

abbrev DeviceNamespaceItems (V : Type) :=
  OrderedMap Namespace (OrderedMap DataElementIdentifier (DataElementValue V))

/-- The elements in the order they are collected in, before they have a position. -/
def disclosedItems (issuerSigned : IssuerNamespaceItems V)
    (deviceNamespaces : DeviceNamespaceItems V) : List (ℕ → ElementCandidate V) :=
  (issuerSigned.entries.flatMap fun n => n.2.map fun item position =>
      { position, nameSpace := n.1, elementIdentifier := item.1, elementValue := item.2,
        source := .issuerSigned }) ++
    deviceNamespaces.entries.flatMap fun n => n.2.entries.map fun item position =>
      { position, nameSpace := n.1, elementIdentifier := item.1, elementValue := item.2,
        source := .deviceSigned }

def collectElements (issuerSigned : IssuerNamespaceItems V)
    (deviceNamespaces : DeviceNamespaceItems V) : List (ElementCandidate V) :=
  (disclosedItems issuerSigned deviceNamespaces).mapIdx fun position item => item position

structure KeyAuthorizations where
  namespaces : Option (List Namespace) := none
  dataElements : Option (OrderedMap Namespace (List DataElementIdentifier)) := none

/-- Whether the device key is authorized for an element, by its namespace or by itself. -/
def isDeviceSignedElementAuthorized (keyAuthorizations : Option KeyAuthorizations)
    (nameSpace : Namespace) (elementIdentifier : DataElementIdentifier) : Bool :=
  (keyAuthorizations.bind KeyAuthorizations.namespaces).any (nameSpace ∈ ·) ||
    ((keyAuthorizations.bind KeyAuthorizations.dataElements).bind (·.get nameSpace)).any
      (elementIdentifier ∈ ·)

/-! ## The options of a match -/

inductive MatchMode
  | holder | verifier
  deriving DecidableEq

inductive AllowedSource
  | issuerSigned | deviceSigned | any
  deriving DecidableEq

def AllowedSource.name : AllowedSource → String
  | issuerSigned => "issuerSigned"
  | deviceSigned => "deviceSigned"
  | any => "any"

structure ElementMatchOptions where
  optional : Option Bool := none
  source : Option AllowedSource := none

/-- The sets of elements that may be returned in place of a requested one; no set is empty. -/
structure AlternativeDataElementsSet where
  requestedElement : ElementReference
  alternativeElementSets : List (List ElementReference)
  nonempty : ∀ set ∈ alternativeElementSets, set ≠ []

structure MatchOptions (V : Type) where
  mode : MatchMode
  namespaces : OrderedMap Namespace (OrderedMap DataElementIdentifier Bool)
  /-- a record of records, by its own properties -/
  elements : List (Namespace × List (DataElementIdentifier × ElementMatchOptions)) := []
  issuerSigned : IssuerNamespaceItems V
  keyAuthorizations : Option KeyAuthorizations
  deviceNamespaces : DeviceNamespaceItems V := OrderedMap.empty
  alternatives : List AlternativeDataElementsSet := []

/-- A way to answer a requested element: the element itself, or the elements of an alternative
set. -/
structure ElementOption (V : Type) where
  alternativeElementSetIndex : Option ℕ := none
  elements : List (ElementCandidate V)
  nonempty : elements ≠ []

structure ClaimMatchBase where
  nameSpace : Namespace
  elementIdentifier : DataElementIdentifier
  intentToRetain : Bool
  optional : Bool
  deriving DecidableEq

inductive ClaimFailure
  | notDisclosed | disallowedSource | deviceKeyNotAuthorized
  deriving DecidableEq

/-- A claim that is answered by the first of its options, which are reported where `listOptions` is
set; or that is not answered. -/
inductive ElementMatch (V : Type)
  | success (claim : ClaimMatchBase) (first : ElementOption V) (others : List (ElementOption V))
      (listOptions : Bool)
  | failure (claim : ClaimMatchBase) (failure : ClaimFailure)
      (disclosedFrom : Option DisclosedElementSource) (reason : String)

namespace ElementMatch

def claim : ElementMatch V → ClaimMatchBase
  | success claim .. => claim
  | failure claim .. => claim

def isSuccess : ElementMatch V → Bool
  | success .. => true
  | failure .. => false

def options : ElementMatch V → List (ElementOption V)
  | success _ first others _ => first :: others
  | failure .. => []

end ElementMatch

namespace MatchOptions

variable (o : MatchOptions V)

def available : List (ElementCandidate V) := collectElements o.issuerSigned o.deviceNamespaces

def inNamespace (nameSpace : Namespace) (source : DisclosedElementSource) :
    List (ElementCandidate V) :=
  o.available.filter fun element => element.nameSpace = nameSpace ∧ element.source = source

def authorizedDeviceSigned (nameSpace : Namespace) : List (ElementCandidate V) :=
  (o.inNamespace nameSpace .deviceSigned).filter fun element =>
    isDeviceSignedElementAuthorized o.keyAuthorizations element.nameSpace element.elementIdentifier

/-- The options of an element, or those of its namespace. -/
def elementOptions (nameSpace : Namespace) (elementIdentifier : DataElementIdentifier) :
    ElementMatchOptions :=
  let namespaceOptions := (o.elements.lookup nameSpace).getD []
  ((namespaceOptions.lookup elementIdentifier).or (namespaceOptions.lookup "*")).getD {}

/-- Where an element may be disclosed from. -/
def sourceOf (nameSpace : Namespace) (elementIdentifier : DataElementIdentifier) : AllowedSource :=
  ((o.elementOptions nameSpace elementIdentifier).source).getD .issuerSigned

def holderLookup (nameSpace : Namespace) (elementIdentifier : DataElementIdentifier) :
    Option (ElementCandidate V) :=
  (findElement elementIdentifier (o.inNamespace nameSpace .issuerSigned)).or
    ((o.authorizedDeviceSigned nameSpace).find? fun candidate =>
      candidate.elementIdentifier = elementIdentifier)

def verifierLookup (nameSpace : Namespace) (elementIdentifier : DataElementIdentifier) :
    Option (ElementCandidate V) :=
  match o.sourceOf nameSpace elementIdentifier with
  | .deviceSigned => findElement elementIdentifier (o.authorizedDeviceSigned nameSpace)
  | .issuerSigned => findElement elementIdentifier (o.inNamespace nameSpace .issuerSigned)
  | .any => (findElement elementIdentifier (o.inNamespace nameSpace .issuerSigned)).or
      (findElement elementIdentifier (o.authorizedDeviceSigned nameSpace))

/-- The element that answers a request for an element. -/
def lookup (nameSpace : Namespace) (elementIdentifier : DataElementIdentifier) :
    Option (ElementCandidate V) :=
  match o.mode with
  | .holder => o.holderLookup nameSpace elementIdentifier
  | .verifier => o.verifierLookup nameSpace elementIdentifier

/-- An alternative set whose elements all are there. -/
def alternativeOption (index : ℕ) (set : List ElementReference) : Option (ElementOption V) :=
  match set.mapM fun r => o.lookup r.1 r.2 with
  | none => none
  | some elements => if h : elements ≠ [] then some ⟨some index, elements, h⟩ else none

/-- The alternative sets of an element whose elements all are there; none if the request has no
alternatives for it. -/
def findAlternatives (nameSpace : Namespace) (elementIdentifier : DataElementIdentifier) :
    Option (List (ElementOption V)) :=
  (o.alternatives.find? fun a => a.requestedElement = (nameSpace, elementIdentifier)).map fun a =>
    (a.alternativeElementSets.mapIdx o.alternativeOption).reduceOption

/-- The element itself when it is there, then its alternatives. -/
def optionsFor (nameSpace : Namespace) (elementIdentifier : DataElementIdentifier)
    (element : Option (ElementCandidate V)) : List (ElementOption V) :=
  (element.map fun e => ⟨none, [e], List.cons_ne_nil _ _⟩).toList ++
    (o.findAlternatives nameSpace elementIdentifier).getD []

/-! ## Claims of a verifier -/

/-- The element that is disclosed from a source that is not allowed. -/
def disallowed (nameSpace : Namespace) (elementIdentifier : DataElementIdentifier) :
    Option (ElementCandidate V) :=
  match o.sourceOf nameSpace elementIdentifier with
  | .any => none
  | .issuerSigned => findElement elementIdentifier (o.inNamespace nameSpace .deviceSigned)
  | .deviceSigned => findElement elementIdentifier (o.inNamespace nameSpace .issuerSigned)

/-- The element that is disclosed device-signed from an allowed source, where no authorized one
answers. -/
def unauthorized (nameSpace : Namespace) (elementIdentifier : DataElementIdentifier) :
    Option (ElementCandidate V) :=
  match o.sourceOf nameSpace elementIdentifier with
  | .issuerSigned => none
  | _ => findElement elementIdentifier (o.inNamespace nameSpace .deviceSigned)

/-- The requested elements, in order. -/
def requestedElements : List (Namespace × DataElementIdentifier × Bool) :=
  o.namespaces.entries.flatMap fun n => n.2.entries.map fun r => (n.1, r.1, r.2)

/-- The claim of a requested element that is not answered, and the elements that are disclosed for
it. -/
def failedClaim (claim : ClaimMatchBase) : ElementMatch V × List (ElementCandidate V) :=
  let (nameSpace, elementIdentifier) := (claim.nameSpace, claim.elementIdentifier)
  let disallowed := o.disallowed nameSpace elementIdentifier
  match o.unauthorized nameSpace elementIdentifier with
  | some unauthorized =>
    (.failure claim .deviceKeyNotAuthorized (some .deviceSigned)
      ("Element '" ++ unauthorized.elementIdentifier ++ "' in namespace '" ++ nameSpace ++
        "' was disclosed through deviceSigned, but the device key is not authorized for it in " ++
        "the mobile security object"),
      unauthorized :: disallowed.toList)
  | none => match disallowed with
    | some disallowed =>
      (.failure claim .disallowedSource (some disallowed.source)
        ("Element '" ++ disallowed.elementIdentifier ++ "' in namespace '" ++ nameSpace ++
          "' was disclosed through " ++
          disallowed.source.name ++ ", but must be disclosed through " ++
          (o.sourceOf nameSpace elementIdentifier).name),
        [disallowed])
    | none =>
      (.failure claim .notDisclosed none
        ("Element '" ++ elementIdentifier ++ "' in namespace '" ++ nameSpace ++
          "' was not disclosed"), [])

/-- A claim that has options is answered by the first of them, which uses its elements. -/
def settle (claim : ClaimMatchBase) (options : List (ElementOption V)) (listOptions : Bool)
    (failed : ElementMatch V × List (ElementCandidate V)) :
    ElementMatch V × List (ElementCandidate V) :=
  match options with
  | first :: others => (.success claim first others listOptions, first.elements)
  | [] => failed

def verifierClaim (r : Namespace × DataElementIdentifier × Bool) :
    ElementMatch V × List (ElementCandidate V) :=
  let claim : ClaimMatchBase := {
    nameSpace := r.1, elementIdentifier := r.2.1, intentToRetain := r.2.2
    optional := ((o.elementOptions r.1 r.2.1).optional).getD false }
  settle claim (o.optionsFor r.1 r.2.1 (o.verifierLookup r.1 r.2.1))
    (o.findAlternatives r.1 r.2.1).isSome (o.failedClaim claim)

/-! ## Claims of a holder -/

/-- The elements of the other claims, that are disclosed by default. -/
def otherElements (index : ℕ) : List (ElementCandidate V) :=
  ((o.requestedElements.eraseIdx index).map fun r => o.holderLookup r.1 r.2.1).reduceOption

def groupByNamespace (elements : List (ElementCandidate V)) :
    List (Namespace × List DataElementIdentifier) :=
  elements.foldl (fun acc e =>
    AssocList.insert e.nameSpace ((acc.lookup e.nameSpace).getD [] ++ [e.elementIdentifier]) acc) []

/-- An alternative set is offered where at most two age attestations are disclosed in each
namespace. -/
def isOffered (others : List (ElementCandidate V)) (option : ElementOption V) : Bool :=
  option.alternativeElementSetIndex = none ||
    (findAgeOverLimitViolations (groupByNamespace (others ++ option.elements))).isEmpty

def holderReason (nameSpace : Namespace) (elementIdentifier : DataElementIdentifier)
    (hasOptions hasElement : Bool) : String :=
  if hasOptions && !hasElement then
    "Element '" ++ elementIdentifier ++ "' in namespace '" ++ nameSpace ++
      "' is not in the credential, and each of its alternative sets the credential has would " ++
      "disclose more than two " ++
      "age_over_NN elements in a namespace"
  else if isDeviceSignedElementAuthorized o.keyAuthorizations nameSpace elementIdentifier then
    "Element '" ++ elementIdentifier ++ "' in namespace '" ++ nameSpace ++
      "' is not issuer-signed in the credential, so it has to be disclosed device-signed, but " ++
      "no value was provided " ++
      "for it in the device namespaces"
  else
    "Element '" ++ elementIdentifier ++ "' in namespace '" ++ nameSpace ++
    "' is not issuer-signed in the credential, and the device key is not authorized to sign it"

def holderClaim (index : ℕ) (r : Namespace × DataElementIdentifier × Bool) :
    ElementMatch V × List (ElementCandidate V) :=
  let claim : ClaimMatchBase :=
    { nameSpace := r.1, elementIdentifier := r.2.1, intentToRetain := r.2.2, optional := false }
  let element := o.holderLookup r.1 r.2.1
  let options := o.optionsFor r.1 r.2.1 element
  settle claim (options.filter (isOffered (o.otherElements index)))
    (o.findAlternatives r.1 r.2.1).isSome
    (.failure claim .notDisclosed none
      (o.holderReason r.1 r.2.1 (!options.isEmpty) element.isSome), [])

/-! ## The match -/

/-- The elements of the alternative sets of requested elements. -/
def alternativeElements : List (ElementCandidate V) :=
  o.alternatives.flatMap fun a =>
    if (o.namespaces.get a.requestedElement.1).any fun requested =>
        (requested.get a.requestedElement.2).isSome then
      (a.alternativeElementSets.flatten.map fun r => o.lookup r.1 r.2).reduceOption
    else []

/-- The claims, each with the elements that are marked as used for it. -/
def claims : List (ElementMatch V × List (ElementCandidate V)) :=
  match o.mode with
  | .verifier => o.requestedElements.map o.verifierClaim
  | .holder => o.requestedElements.mapIdx o.holderClaim

def usedElements : List (ElementCandidate V) := o.claims.flatMap Prod.snd ++ o.alternativeElements

end MatchOptions

/-- A claim for each requested element, and the elements that none of them uses. -/
def matchElements (o : MatchOptions V) : List (ElementMatch V) × List (ElementCandidate V) :=
  (o.claims.map Prod.fst,
    o.available.filter fun e => e.position ∉ o.usedElements.map ElementCandidate.position)

/-! ## Elements -/

theorem position_of_mem_collectElements {issuerSigned : IssuerNamespaceItems V}
    {deviceNamespaces : DeviceNamespaceItems V} :
    (collectElements issuerSigned deviceNamespaces).map ElementCandidate.position =
      List.range (disclosedItems issuerSigned deviceNamespaces).length := by
  have hposition : ∀ item ∈ disclosedItems issuerSigned deviceNamespaces, ∀ n,
      (item n).position = n := by
    intro item hitem n
    rw [disclosedItems, List.mem_append, List.mem_flatMap, List.mem_flatMap] at hitem
    rcases hitem with ⟨entry, -, hitem⟩ | ⟨entry, -, hitem⟩
    all_goals
      obtain ⟨item', -, rfl⟩ := List.mem_map.mp hitem
      rfl
  apply List.ext_getElem
  · simp [collectElements]
  · intro i hi hi'
    simp only [collectElements, List.getElem_map, List.getElem_mapIdx, List.getElem_range]
    exact hposition _ (List.getElem_mem _) i

namespace MatchOptions

variable {o : MatchOptions V} {nameSpace : Namespace} {elementIdentifier : DataElementIdentifier}
  {e e' : ElementCandidate V}

theorem nodup_position : (o.available.map ElementCandidate.position).Nodup := by
  rw [available, position_of_mem_collectElements]
  exact List.nodup_range

theorem eq_of_position (he : e ∈ o.available) (he' : e' ∈ o.available)
    (h : e.position = e'.position) : e = e' :=
  List.inj_on_of_nodup_map nodup_position he he' h

theorem mem_inNamespace {source : DisclosedElementSource} :
    e ∈ o.inNamespace nameSpace source ↔ e ∈ o.available ∧ e.nameSpace = nameSpace ∧
    e.source = source := by
  rw [inNamespace, List.mem_filter, decide_eq_true_eq]

theorem mem_authorizedDeviceSigned : e ∈ o.authorizedDeviceSigned nameSpace ↔
    e ∈ o.available ∧ e.nameSpace = nameSpace ∧ e.source = .deviceSigned ∧
      isDeviceSignedElementAuthorized o.keyAuthorizations e.nameSpace e.elementIdentifier =
        true := by
  rw [authorizedDeviceSigned, List.mem_filter, mem_inNamespace, and_assoc, and_assoc]

/-- The elements that are asked for. -/
def Requested (o : MatchOptions V) (r : ElementReference) : Prop :=
  ∃ retain, (r.1, r.2, retain) ∈ o.requestedElements

theorem requested_iff {r : ElementReference} : o.Requested r ↔
    ((o.namespaces.get r.1).any fun requested => (requested.get r.2).isSome) = true := by
  simp only [Requested, requestedElements, List.mem_flatMap, List.mem_map, Option.any_eq_true,
    Option.isSome_iff_exists, OrderedMap.get_eq_some]
  constructor
  · rintro ⟨retain, n, hn, entry, hentry, heq⟩
    cases n
    cases entry
    cases heq
    exact ⟨_, hn, _, hentry⟩
  · rintro ⟨requested, hn, retain, hentry⟩
    exact ⟨retain, (r.1, requested), hn, (r.2, retain), hentry, rfl⟩

end MatchOptions

/-! ## The element that answers a request -/

section

variable {id : DataElementIdentifier} {candidates : List (ElementCandidate V)}
    {e : ElementCandidate V}

/-- An age attestation that answers a request for another age. -/
def AgeSubstitute (id : DataElementIdentifier) (e : ElementCandidate V) : Prop :=
  ∃ nn mm, parseAgeOverIdentifier id = some nn ∧
  parseAgeOverIdentifier e.elementIdentifier = some mm ∧
    (e.elementValue = .bool true ∧ nn ≤ mm ∨ e.elementValue = .bool false ∧ mm ≤ nn)

/-- An element that answers a request, by its identifier or as an age attestation. -/
def AnswersTo (id : DataElementIdentifier) (e : ElementCandidate V) : Prop :=
  e.elementIdentifier = id ∨ AgeSubstitute id e

theorem mem_ageOverCandidates {nn : ℕ} : (nn, e) ∈ ageOverCandidates candidates ↔
    e ∈ candidates ∧ parseAgeOverIdentifier e.elementIdentifier = some nn := by
  simp only [ageOverCandidates, List.mem_filterMap, Option.map_eq_some_iff, Prod.mk.injEq]
  constructor
  · rintro ⟨e', he', nn', hnn, rfl, rfl⟩
    exact ⟨he', hnn⟩
  · rintro ⟨he, hnn⟩
    exact ⟨e, he, nn, hnn, rfl, rfl⟩

/-- The head of a sorted list is an element of it, and there is one unless the list is empty. -/
theorem head?_mergeSort {α : Type} {l : List α} {le : α → α → Bool} :
    (∀ a, (l.mergeSort le).head? = some a → a ∈ l) ∧ ((l.mergeSort le).head? = none ↔ l = []) := by
  constructor
  · intro a ha
    exact (List.mergeSort_perm l le).mem_iff.mp (List.mem_of_head? ha)
  · rw [List.head?_eq_none_iff, ← List.length_eq_zero_iff, List.length_mergeSort,
      List.length_eq_zero_iff]

theorem nearest_spec {value : Bool} {fits : ℕ → Bool} {le : ℕ → ℕ → Bool} :
    (∀ e, nearest value fits le candidates = some e → e ∈ candidates ∧
      e.elementValue = .bool value ∧
      ∃ mm, parseAgeOverIdentifier e.elementIdentifier = some mm ∧ fits mm = true) ∧
    (nearest value fits le candidates = none → ∀ e ∈ candidates, e.elementValue = .bool value →
      ∀ mm, parseAgeOverIdentifier e.elementIdentifier = some mm → fits mm = false) := by
  unfold nearest
  constructor
  · intro e he
    obtain ⟨⟨mm, e'⟩, hc, rfl⟩ := Option.map_eq_some_iff.mp he
    obtain ⟨hmem, hfits⟩ := List.mem_filter.mp (head?_mergeSort.1 _ hc)
    obtain ⟨he', hmm⟩ := mem_ageOverCandidates.mp hmem
    dsimp only at hfits
    split at hfits
    · next b hvalue =>
      obtain ⟨hb, hfit⟩ := Bool.and_eq_true_iff.mp hfits
      obtain rfl : b = value := of_decide_eq_true hb
      exact ⟨he', hvalue, mm, hmm, hfit⟩
    · cases hfits
  · intro hnone e he hvalue mm hmm
    have hnil := head?_mergeSort.2.mp (Option.map_eq_none_iff.mp hnone)
    have hout := List.filter_eq_nil_iff.mp hnil (mm, e) (mem_ageOverCandidates.mpr ⟨he, hmm⟩)
    simp only [hvalue, decide_true, Bool.true_and] at hout
    exact Bool.eq_false_iff.mpr hout

theorem findAgeOverCandidate_spec :
    (∀ e, findAgeOverCandidate id candidates = some e → e ∈ candidates ∧ AgeSubstitute id e) ∧
    (findAgeOverCandidate id candidates = none → ∀ e ∈ candidates, ¬AgeSubstitute id e) := by
  unfold findAgeOverCandidate
  split
  · next hid =>
    refine ⟨nofun, fun _ e _ ⟨nn, _, hnn, _⟩ => ?_⟩
    rw [hid] at hnn
    cases hnn
  · next nn hid =>
    constructor
    · intro e he
      rcases Option.or_eq_some_iff.mp he with htrue | ⟨-, hfalse⟩
      · obtain ⟨hmem, hvalue, mm, hmm, hle⟩ := nearest_spec.1 e htrue
        exact ⟨hmem, nn, mm, hid, hmm, .inl ⟨hvalue, of_decide_eq_true hle⟩⟩
      · obtain ⟨hmem, hvalue, mm, hmm, hle⟩ := nearest_spec.1 e hfalse
        exact ⟨hmem, nn, mm, hid, hmm, .inr ⟨hvalue, of_decide_eq_true hle⟩⟩
    · rintro hnone e he ⟨nn', mm, hnn, hmm, hage⟩
      obtain ⟨htrue, hfalse⟩ := Option.or_eq_none_iff.mp hnone
      obtain rfl : nn = nn' := Option.some.inj (hid.symm.trans hnn)
      rcases hage with ⟨hvalue, hle⟩ | ⟨hvalue, hle⟩
      · exact of_decide_eq_false (nearest_spec.2 htrue e he hvalue mm hmm) hle
      · exact of_decide_eq_false (nearest_spec.2 hfalse e he hvalue mm hmm) hle

/-- What a request finds is an element with its identifier, or an age attestation that answers
it. -/
theorem findElement_eq_some (h : findElement id candidates = some e) :
    e ∈ candidates ∧ AnswersTo id e ∧
    (e.elementIdentifier = id ∨ findAgeOverCandidate id candidates = some e) := by
  rcases Option.or_eq_some_iff.mp h with hfound | ⟨-, hage⟩
  · have hid : e.elementIdentifier = id := of_decide_eq_true
      (List.find?_some (p := fun candidate : ElementCandidate V =>
        candidate.elementIdentifier = id) hfound)
    exact ⟨List.mem_of_find?_eq_some hfound, .inl hid, .inl hid⟩
  · obtain ⟨hmem, hsubstitute⟩ := findAgeOverCandidate_spec.1 e hage
    exact ⟨hmem, .inr hsubstitute, .inr hage⟩

theorem findElement_eq_none :
    findElement id candidates = none ↔ ∀ e ∈ candidates, ¬AnswersTo id e := by
  constructor
  · intro h e he
    obtain ⟨hfound, hage⟩ := Option.or_eq_none_iff.mp h
    rintro (hid | hsubstitute)
    · exact List.find?_eq_none.mp hfound e he (decide_eq_true hid)
    · exact findAgeOverCandidate_spec.2 hage e he hsubstitute
  · intro h
    cases hfound : findElement id candidates with
    | none => rfl
    | some e =>
      obtain ⟨hmem, hanswers, -⟩ := findElement_eq_some hfound
      exact absurd hanswers (h e hmem)

end

/-! ## Alternative sets -/

theorem exists_mapM_eq_some {α β : Type} {f : α → Option β} {l : List α}
    (h : ∀ a ∈ l, ∃ b, f a = some b) :
    ∃ l', l.mapM f = some l' := by
  simp only [Except.mapM_eq_some]
  induction l with
  | nil => exact ⟨[], .nil⟩
  | cons a l ih =>
    obtain ⟨b, hb⟩ := h a List.mem_cons_self
    obtain ⟨bs, hbs⟩ := ih fun a' ha' => h a' (List.mem_cons_of_mem _ ha')
    exact ⟨b :: bs, .cons hb hbs⟩

namespace MatchOptions

variable {o : MatchOptions V} {index : ℕ} {set : List ElementReference}

/-- The elements of an option from an alternative set answer the members of the set. -/
theorem alternativeOption_eq_some {option : ElementOption V}
    (h : o.alternativeOption index set = some option) :
    option.alternativeElementSetIndex = some index ∧
      List.Forall₂ (fun r e => o.lookup r.1 r.2 = some e) set option.elements := by
  unfold alternativeOption at h
  split at h
  · cases h
  · next elements hset =>
    split at h
    · obtain rfl := Option.some.inj h
      exact ⟨rfl, Except.mapM_eq_some.mp hset⟩
    · cases h

theorem isSome_alternativeOption (hne : set ≠ []) :
    (∃ option, o.alternativeOption index set = some option) ↔
      ∀ r ∈ set, ∃ e, o.lookup r.1 r.2 = some e := by
  constructor
  · rintro ⟨option, h⟩ r hr
    have hall := (alternativeOption_eq_some h).2
    obtain ⟨i, hi, rfl⟩ := List.getElem_of_mem hr
    exact ⟨_, hall.get hi (hall.length_eq ▸ hi)⟩
  · intro h
    obtain ⟨elements, hset⟩ := exists_mapM_eq_some h
    have hne' : elements ≠ [] := by
      rintro rfl
      exact hne (List.forall₂_nil_right_iff.mp (Except.mapM_eq_some.mp hset))
    refine ⟨⟨some index, elements, hne'⟩, ?_⟩
    unfold alternativeOption
    rw [hset]
    exact dif_pos hne'

end MatchOptions

end IdentityCommon.Mdoc
