import IdentityCommon.Ecma.Text
import IdentityCommon.Mdoc.MatchElements

/-!
# Selecting what is disclosed

What a holder discloses for the doc requests that a document answers: the requested elements that
are selected, each by itself or by an alternative set that was chosen for it.

## Main definitions

- `mergeNamespaces`, `mergeAlternatives` — what the doc requests of a document request together
- `Selection.selectElements` — the elements that are disclosed

## Main results

- `has_mergeNamespaces`, `mergeAlternatives_eq_inl` — what is requested together is requested by one
  of the doc requests, and the alternatives are those of all of them

## Design notes

A record is the list of its entries in their order. The index of an alternative set is a natural
number. An issuer-signed item is the element that was collected for it, known by its position.
-/

namespace IdentityCommon.Mdoc

open Ecma IdentityCommon.Except

variable {V : Type}

/-- A loop that only checks succeeds where every check does. -/
theorem forM_eq_ok {ε α : Type} {f : α → Except ε Unit} {l : List α} :
    l.forM f = .ok () ↔ ∀ a ∈ l, f a = .ok () := by
  induction l with
  | nil => exact iff_of_true rfl fun a ha => by cases ha
  | cons a l ih =>
    rw [List.forall_mem_cons]
    show (f a >>= fun _ => l.forM f) = .ok () ↔ _
    constructor
    · intro h
      obtain ⟨u, ha, h⟩ := bind_eq_ok.mp h
      exact ⟨ha, ih.mp h⟩
    · rintro ⟨ha, hl⟩
      rw [ha, ok_bind]
      exact ih.mpr hl

/-! ## Merging doc requests -/

structure ItemsRequest where
  namespaces : OrderedMap Namespace (OrderedMap DataElementIdentifier Bool)
  alternativeDataElements : List AlternativeDataElementsSet := []

/-- An element that some doc requests have different alternatives for. -/
structure ConflictingAlternatives where
  element : ElementReference
  docRequestIndexes : List ℕ

def mergeElements (merged elements : OrderedMap DataElementIdentifier Bool) :
    OrderedMap DataElementIdentifier Bool :=
  elements.entries.foldl (fun merged element => merged.set element.1
    ((merged.get element.1).getD false || element.2)) merged

def mergeNamespaces (docRequests : List (ℕ × ItemsRequest)) :
    OrderedMap Namespace (OrderedMap DataElementIdentifier Bool) :=
  docRequests.foldl (fun namespaces docRequest =>
    docRequest.2.namespaces.entries.foldl (fun namespaces entry =>
      namespaces.set entry.1
        (mergeElements ((namespaces.get entry.1).getD OrderedMap.empty) entry.2)) namespaces)
    OrderedMap.empty

/-- The elements of some namespaces, in order. -/
def references (namespaces : OrderedMap Namespace (OrderedMap DataElementIdentifier Bool)) :
    List ElementReference :=
  namespaces.entries.flatMap fun n => n.2.entries.map fun e => (n.1, e.1)

def has (namespaces : OrderedMap Namespace (OrderedMap DataElementIdentifier Bool))
    (r : ElementReference) : Bool :=
  (namespaces.get r.1).any fun elements => (elements.get r.2).isSome

def ItemsRequest.alternativesOf (request : ItemsRequest) (r : ElementReference) :
    Option AlternativeDataElementsSet :=
  request.alternativeDataElements.find? fun a => a.requestedElement = r

/-- The alternatives of an element that all the doc requests that request it agree on, or the
conflict between them. -/
def mergeAlternatives (docRequests : List (ℕ × ItemsRequest)) (r : ElementReference) :
    Option (AlternativeDataElementsSet ⊕ ConflictingAlternatives) :=
  let requesting := docRequests.filter fun d => has d.2.namespaces r
  let alternatives := requesting.map fun d => d.2.alternativesOf r
  let conflict : ConflictingAlternatives := ⟨r, requesting.map Prod.fst⟩
  match alternatives.head?.join with
  | none => if alternatives.any Option.isSome then some (.inr conflict) else none
  | some first =>
    if alternatives.all fun a => a.map (·.alternativeElementSets) =
      some first.alternativeElementSets then some (.inl first)
    else some (.inr conflict)

def alternativesOfAll (docRequests : List (ℕ × ItemsRequest)) : List AlternativeDataElementsSet :=
  (references (mergeNamespaces docRequests)).filterMap fun r =>
    (mergeAlternatives docRequests r).bind Sum.getLeft?

def conflictsOfAll (docRequests : List (ℕ × ItemsRequest)) : List ConflictingAlternatives :=
  (references (mergeNamespaces docRequests)).filterMap fun r =>
    (mergeAlternatives docRequests r).bind Sum.getRight?

theorem has_iff {namespaces : OrderedMap Namespace (OrderedMap DataElementIdentifier Bool)}
    {r : ElementReference} :
    has namespaces r = true ↔ ∃ n ∈ namespaces.entries, n.1 = r.1 ∧ (n.2.get r.2).isSome := by
  rw [has, Option.any_eq_true]
  constructor
  · rintro ⟨elements, hn, he⟩
    exact ⟨(r.1, elements), OrderedMap.get_eq_some.mp hn, rfl, he⟩
  · rintro ⟨n, hn, heq, he⟩
    refine ⟨n.2, OrderedMap.get_eq_some.mpr ?_, he⟩
    rw [← heq]
    exact hn

theorem get_mergeElements (merged elements : OrderedMap DataElementIdentifier Bool)
    (id : DataElementIdentifier) :
    ((mergeElements merged elements).get id).isSome ↔ (merged.get id).isSome ∨
    (elements.get id).isSome := by
  have hkeys : (elements.get id).isSome ↔ id ∈ AssocList.keys elements.entries :=
    AssocList.lookup_isSome_iff
  rw [mergeElements, hkeys]
  clear hkeys
  induction elements.entries generalizing merged with
  | nil => exact ⟨.inl, fun h => h.resolve_right List.not_mem_nil⟩
  | cons element entries ih =>
    rw [List.foldl_cons, AssocList.keys_cons, List.mem_cons, ← or_assoc]
    refine (ih _).trans (or_congr_left ?_)
    by_cases hid : id = element.1
    · rw [hid, OrderedMap.get_set_self]
      exact iff_of_true rfl (.inr rfl)
    · rw [OrderedMap.get_set_of_ne _ hid]
      exact ⟨.inl, fun h => h.resolve_right hid⟩

/-- What is requested of one doc request after the other. -/
theorem has_foldl (entries : List (Namespace × OrderedMap DataElementIdentifier Bool))
    (namespaces : OrderedMap Namespace (OrderedMap DataElementIdentifier Bool))
    (r : ElementReference) :
    has (entries.foldl (fun namespaces entry =>
      namespaces.set entry.1
        (mergeElements ((namespaces.get entry.1).getD OrderedMap.empty) entry.2)) namespaces) r =
          true ↔
      has namespaces r = true ∨ ∃ n ∈ entries, n.1 = r.1 ∧ (n.2.get r.2).isSome := by
  induction entries generalizing namespaces with
  | nil => exact ⟨.inl, fun h => h.resolve_right fun ⟨n, hn, _⟩ => absurd hn List.not_mem_nil⟩
  | cons entry entries ih =>
    rw [List.foldl_cons, ih, List.exists_mem_cons_iff, ← or_assoc]
    apply or_congr_left
    by_cases hn : entry.1 = r.1
    · rw [has, hn, OrderedMap.get_set_self, Option.any_some, get_mergeElements, has]
      cases namespaces.get r.1 with
      | none => simp
      | some elements => simp
    · rw [has, OrderedMap.get_set_of_ne _ (Ne.symm hn), has]
      exact ⟨.inl, fun h => h.resolve_right fun h => hn h.1⟩

/-- An element is requested by some doc requests together when one of them requests it. -/
theorem has_mergeNamespaces {docRequests : List (ℕ × ItemsRequest)} {r : ElementReference} :
    has (mergeNamespaces docRequests) r = true ↔
      ∃ d ∈ docRequests, has d.2.namespaces r = true := by
  have hgeneral : ∀ namespaces, has (docRequests.foldl (fun namespaces docRequest =>
      docRequest.2.namespaces.entries.foldl (fun namespaces entry =>
        namespaces.set entry.1
          (mergeElements ((namespaces.get entry.1).getD OrderedMap.empty) entry.2)) namespaces)
      namespaces) r = true ↔ has namespaces r = true ∨
      ∃ d ∈ docRequests, has d.2.namespaces r = true := by
    induction docRequests with
    | nil => exact fun _ =>
        ⟨.inl, fun h => h.resolve_right fun ⟨d, hd, _⟩ => absurd hd List.not_mem_nil⟩
    | cons docRequest docRequests ih =>
      intro namespaces
      rw [List.foldl_cons, ih, has_foldl, ← has_iff, List.exists_mem_cons_iff, or_assoc]
  rw [mergeNamespaces, hgeneral]
  exact ⟨fun h => h.resolve_left Bool.false_ne_true, .inr⟩

theorem alternativesOf_eq_some {request : ItemsRequest} {r : ElementReference}
    {a : AlternativeDataElementsSet} (h : request.alternativesOf r = some a) :
    a ∈ request.alternativeDataElements ∧ a.requestedElement = r :=
  ⟨List.mem_of_find?_eq_some h, of_decide_eq_true
    (List.find?_some (p := fun a : AlternativeDataElementsSet => a.requestedElement = r) h)⟩

/-- The alternatives of an element are those of every doc request that requests it. -/
theorem mergeAlternatives_eq_inl {docRequests : List (ℕ × ItemsRequest)} {r : ElementReference}
    {a : AlternativeDataElementsSet} (h : mergeAlternatives docRequests r = some (.inl a)) :
    a.requestedElement = r ∧
      ∀ d ∈ docRequests, has d.2.namespaces r = true →
        ∃ a', d.2.alternativesOf r = some a' ∧
        a'.alternativeElementSets = a.alternativeElementSets := by
  rw [mergeAlternatives] at h
  split at h
  case h_1 =>
    split at h
    · cases h
    · cases h
  case h_2 first hfirst =>
    split at h
    case isFalse => cases h
    case isTrue hall =>
      obtain rfl : first = a := Sum.inl.inj (Option.some.inj h)
      rw [Option.join_eq_some_iff] at hfirst
      obtain ⟨d, -, hd⟩ := List.mem_map.mp (List.mem_of_head? hfirst)
      refine ⟨(alternativesOf_eq_some hd).2, fun d hd hhas => ?_⟩
      have hmem := List.all_eq_true.mp hall _ (List.mem_map_of_mem (List.mem_filter.mpr ⟨hd, hhas⟩))
      exact Option.map_eq_some_iff.mp (of_decide_eq_true hmem)

theorem find?_alternativesOfAll {docRequests : List (ℕ × ItemsRequest)} {r : ElementReference}
    {a : AlternativeDataElementsSet}
    (h : (alternativesOfAll docRequests).find? (fun a => a.requestedElement = r) = some a) :
    mergeAlternatives docRequests r = some (.inl a) := by
  have heq : a.requestedElement = r := of_decide_eq_true
    (List.find?_some (p := fun a : AlternativeDataElementsSet => a.requestedElement = r) h)
  obtain ⟨r', -, hr'⟩ := List.mem_filterMap.mp (List.mem_of_find?_eq_some h)
  obtain ⟨merged, hmerged, hleft⟩ := Option.bind_eq_some_iff.mp hr'
  obtain rfl := Sum.getLeft?_eq_some_iff.mp hleft
  rwa [← heq, (mergeAlternatives_eq_inl hmerged).1]

/-! ## Selection -/

inductive SelectionError
  | invalidElementSelection (message : String)
  | missingRequestedElement (message : String)
  | ageOverLimitExceeded (message : String)

/-- The doc requests that a document answers, the credential, and what the holder selected. -/
structure Selection (V : Type) where
  docRequests : List (ℕ × ItemsRequest)
  issuerSigned : IssuerNamespaceItems V
  keyAuthorizations : Option KeyAuthorizations
  deviceNamespaces : DeviceNamespaceItems V := OrderedMap.empty
  elements : Option (List (Namespace × List DataElementIdentifier)) := none
  alternatives : List (Namespace × List (DataElementIdentifier × ℕ)) := []

/-- The elements that are disclosed. -/
structure Disclosure (V : Type) where
  issuerNamespaces : OrderedMap Namespace (List (ElementCandidate V))
  deviceNamespaces : DeviceNamespaceItems V

def elementText (r : ElementReference) : String := "'" ++ r.2 ++ "' in namespace '" ++ r.1 ++ "'"

namespace Selection

variable (s : Selection V)

def namespaces : OrderedMap Namespace (OrderedMap DataElementIdentifier Bool) :=
  mergeNamespaces s.docRequests

def matchOptions : MatchOptions V where
  mode := .holder
  namespaces := s.namespaces
  issuerSigned := s.issuerSigned
  keyAuthorizations := s.keyAuthorizations
  deviceNamespaces := s.deviceNamespaces
  alternatives := alternativesOfAll s.docRequests

def indexes : String := ", ".intercalate (s.docRequests.map fun d => d.1.repr)

def several : Bool := s.docRequests.length > 1

def docRequestsText : String :=
  if s.several then "doc requests " ++ s.indexes else "the doc request"

def doNotRequest : String :=
  s.docRequestsText ++ " " ++ (if s.several then "do" else "does") ++ " not request"

def isSelected (r : ElementReference) : Bool :=
  match s.elements with
  | some elements => (elements.lookup r.1).any (r.2 ∈ ·)
  | none => true

def conflict (r : ElementReference) : Option ConflictingAlternatives :=
  (conflictsOfAll s.docRequests).find? fun c => c.element = r

def conflictText (c : ConflictingAlternatives) : String :=
  "doc requests " ++ ", ".intercalate (c.docRequestIndexes.map Nat.repr) ++
  " have different alternatives for it. Answer them with separate documents"

/-- Only requested elements are selected. -/
def checkElement (r : ElementReference) : Except SelectionError Unit :=
  if has s.namespaces r then .ok ()
  else .error (.invalidElementSelection
    ("Element " ++ elementText r ++ " is selected for disclosure, but " ++ s.doNotRequest ++ " it"))

def checkElements : Except SelectionError Unit :=
  (s.elements.getD []).forM fun n => n.2.forM fun id => s.checkElement (n.1, id)

def setText (index : ℕ) (r : ElementReference) : String :=
  "Alternative set " ++ index.repr ++ " of element " ++ elementText r ++
  " is selected for disclosure, but "

/-- Alternative sets are chosen for elements that are requested and selected, and that have these
alternatives. -/
def checkAlternative (r : ElementReference) (index : ℕ) : Except SelectionError Unit :=
  if !has s.namespaces r then
    .error (.invalidElementSelection (setText index r ++ s.doNotRequest ++ " the element"))
  else match s.conflict r with
    | some c => .error (.invalidElementSelection (setText index r ++ conflictText c))
    | none =>
      if (((s.matchOptions.alternatives.find? fun a => a.requestedElement = r).map
          (·.alternativeElementSets)).bind (·[index]?)).isNone then
        .error (.invalidElementSelection
          (setText index r ++ s.docRequestsText ++ " " ++ (if s.several then "have" else "has") ++
            " no such alternative set"))
      else if s.elements.isSome && !s.isSelected r then
        .error (.invalidElementSelection (setText index r ++ "the element itself is not selected"))
      else .ok ()

def checkAlternatives : Except SelectionError Unit :=
  s.alternatives.forM fun n => n.2.forM fun chosen => s.checkAlternative (n.1, chosen.1) chosen.2

def referenceOf (claim : ClaimMatchBase) : ElementReference :=
  (claim.nameSpace, claim.elementIdentifier)

def claims : List (ElementMatch V) := (matchElements s.matchOptions).1

/-- The element of a claim that is left out, with the claim. One that an alternative set answers has
none to leave out. -/
def declined : ElementMatch V → Option (ElementCandidate V × ElementReference)
  | .success claim first _ _ =>
    if first.alternativeElementSetIndex.isNone && !s.isSelected (referenceOf claim) then
      some (first.elements.head first.nonempty, referenceOf claim)
    else none
  | .failure .. => none

def declinedElements : List (ElementCandidate V × ElementReference) := s.claims.filterMap s.declined

/-- The last claim that is left out and answered with an element. -/
def declinedFor (e : ElementCandidate V) : Option ElementReference :=
  (s.declinedElements.reverse.find? fun d => d.1.position = e.position).map Prod.snd

/-- No element that is left out is disclosed for a claim. -/
def checkDeclined (r : ElementReference) (chosen : Option ℕ) (e : ElementCandidate V) :
    Except SelectionError Unit :=
  match s.declinedFor e with
  | none => .ok ()
  | some declined =>
    let selected := "Element " ++ elementText r ++ " is selected for disclosure"
    match chosen with
    | none => .error (.invalidElementSelection (selected ++ ", but it is answered with '" ++
        e.elementIdentifier ++
        "', which also answers '" ++ declined.2 ++
        "' that is not selected. Select both or neither"))
    | some index =>
      let disclosed := elementText (e.nameSpace, e.elementIdentifier)
      let answer := if (e.nameSpace, e.elementIdentifier) = declined then disclosed
        else disclosed ++ ", which answers " ++ elementText declined
      .error (.invalidElementSelection
        (selected ++ ", but it is answered with alternative set " ++ index.repr ++
        ", which discloses " ++ answer ++
        " that is not selected. Select both, or choose another alternative set"))

def chosenIndex (r : ElementReference) : Option ℕ := (s.alternatives.lookup r.1).bind (·.lookup r.2)

def indexText (option : ElementOption V) : String :=
  (option.alternativeElementSetIndex.map Nat.repr).getD ""

/-- The elements that answer a claim: the element itself, or those of the alternative set that was
chosen. -/
def answerOf (r : ElementReference) (first : ElementOption V) (others : List (ElementOption V))
    (listOptions : Bool) : Except SelectionError (List (ElementCandidate V)) :=
  match s.chosenIndex r with
  | some index =>
    match (if listOptions then first :: others else []).find? fun option =>
      option.alternativeElementSetIndex = some index with
    | some chosen => .ok chosen.elements
    | none => .error (.missingRequestedElement
        (setText index r ++ "the credential cannot disclose every element of it"))
  | none =>
    if first.alternativeElementSetIndex.isSome then
      .error (.missingRequestedElement ("Element " ++ elementText r ++
        " is not in the credential. Choose one of its alternative sets " ++
        ", ".intercalate ((first :: others).map indexText) ++
        " with `alternatives` to disclose in its place"))
    else .ok [first.elements.head first.nonempty]

/-- The elements that are disclosed for a claim. -/
def disclosedFor : ElementMatch V → Except SelectionError (List (ElementCandidate V))
  | .failure claim _ _ reason =>
    if !s.isSelected (referenceOf claim) then .ok []
    else .error (.missingRequestedElement (match s.conflict (referenceOf claim) with
      | some c => "Element " ++ elementText (referenceOf claim) ++
          " is not in the credential, and " ++ conflictText c
      | none => reason))
  | .success claim first others listOptions =>
    if !s.isSelected (referenceOf claim) then .ok []
    else do
      let elements ← s.answerOf (referenceOf claim) first others listOptions
      elements.forM (s.checkDeclined (referenceOf claim) (s.chosenIndex (referenceOf claim)))
      return elements

/-- An element is disclosed once. -/
def disclose (d : Disclosure V) (e : ElementCandidate V) : Disclosure V :=
  match e.source with
  | .deviceSigned =>
    let items := (d.deviceNamespaces.get e.nameSpace).getD OrderedMap.empty
    { d with
      deviceNamespaces :=
        d.deviceNamespaces.set e.nameSpace (items.set e.elementIdentifier e.elementValue) }
  | .issuerSigned =>
    let items := (d.issuerNamespaces.get e.nameSpace).getD []
    let items := if e.position ∈ items.map ElementCandidate.position then items else items ++ [e]
    { d with issuerNamespaces := d.issuerNamespaces.set e.nameSpace items }

def nothing : Disclosure V := ⟨OrderedMap.empty, OrderedMap.empty⟩

/-- The identifiers that are disclosed in each namespace, from both sources. -/
def disclosedIdentifiers (d : Disclosure V) : OrderedMap Namespace (List DataElementIdentifier) :=
  d.deviceNamespaces.entries.foldl (fun identifiers n =>
      identifiers.set n.1 ((identifiers.get n.1).getD [] ++ n.2.entries.map Prod.fst))
    (d.issuerNamespaces.mapVal fun items => items.map ElementCandidate.elementIdentifier)

def describeAgeOverLimitViolations
    (violations : List (Namespace × List DataElementIdentifier)) : String :=
  " and ".intercalate (violations.map fun v =>
    ", ".intercalate (v.2.map fun id => "'" ++ id ++ "'") ++ " in namespace '" ++ v.1 ++ "'")

def checkAgeOverLimit (d : Disclosure V) : Except SelectionError Unit :=
  let violations := findAgeOverLimitViolations (disclosedIdentifiers d).entries
  if violations = [] then .ok ()
  else .error (.ageOverLimitExceeded (
    (if s.several then "Doc requests " ++ s.indexes else "Doc request") ++
    " would be answered with " ++ describeAgeOverLimitViolations violations ++
    ", but at most two age_over_NN elements may be disclosed per namespace. Select at most two " ++
    "of them" ++
    (if s.alternatives = [] then "" else ", or choose other alternative sets")))

def selectElements : Except SelectionError (Disclosure V) := do
  s.checkElements
  s.checkAlternatives
  let answers ← s.claims.mapM s.disclosedFor
  let disclosure := answers.flatten.foldl disclose nothing
  s.checkAgeOverLimit disclosure
  return disclosure

end Selection

end IdentityCommon.Mdoc
