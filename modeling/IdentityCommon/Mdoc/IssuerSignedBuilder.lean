import IdentityCommon.Lib.AssocList
import IdentityCommon.Lib.Except
import IdentityCommon.Lib.Run
import Mathlib.Algebra.Group.Nat.Defs
import Mathlib.Data.Int.Order.Basic

/-!
# Building issuer-signed documents

A builder collects issuer-signed items by namespace. `sign` computes the digest of one item after
another, and other calls can run while it waits for a digest.

## Main definitions

- `addIssuerNamespace` — more elements of a namespace, or a failure
- `Signing`, `resume` — where a running `sign` is, and what it does until it waits again
- `Builder.step` — a call, or the end of a wait
- `isValid` — whether the digest of an item is the one in the signed object

## Main results

- `issuedItems` — while nothing is added to a namespace that `sign` has read, every item of what it
  returns is valid
- `addedLate_not_valid` — an item that is added later need not be

## Design notes

CBOR and cryptography are parameters. An iterator over a map visits the entries by position, with
the values they have when it gets to them; entries that are added are put at the end. The object
that `sign` returns shares the namespaces with the builder.
-/

namespace IdentityCommon.Mdoc

open AssocList Run

abbrev Bytes := List UInt8

inductive DigestAlgorithm
  | sha256
  | sha384
  | sha512
  deriving DecidableEq

inductive MdocError
  | duplicateElementIdentifier (elementIdentifier «namespace» : String)
  | digestIdUsed (digestId : ℕ) («namespace» : String)
  | signatureAlgorithmDoesNotMatch (keyAlgorithm algorithm : ℤ)
  | validFromBeforeSigned (validFrom signed : ℤ)
  | validUntilNotAfterValidFrom (validUntil validFrom : ℤ)
  | atLeastOneCertificateRequired
  /-- an error of a callback -/
  | thrown (message : String)
  deriving DecidableEq

/-- The message of an error, with the ISO format of a time. -/
def MdocError.message (toISOString : ℤ → String) : MdocError → String
  | duplicateElementIdentifier elementIdentifier «namespace» =>
    "Element '" ++ elementIdentifier ++ "' is already added to namespace '" ++ «namespace» ++ "'"
  | digestIdUsed digestId «namespace» =>
    "Generated digest ID " ++ Nat.repr digestId ++ " is already used in namespace '" ++
    «namespace» ++ "'"
  | signatureAlgorithmDoesNotMatch keyAlgorithm algorithm =>
    "Signing key algorithm '" ++ Int.repr keyAlgorithm ++
    "' does not match the supplied algorithm '" ++
    Int.repr algorithm ++ "'"
  | validFromBeforeSigned validFrom signed =>
    "validFrom (" ++ toISOString validFrom ++ ") must be equal to or later than signed (" ++
    toISOString signed ++ ")"
  | validUntilNotAfterValidFrom validUntil validFrom =>
    "validUntil (" ++ toISOString validUntil ++ ") must be later than validFrom (" ++
    toISOString validFrom ++ ")"
  | atLeastOneCertificateRequired =>
    "At least one certificate (the document signer certificate) must be provided."
  | thrown message => message

/-- An item; one that was received keeps the bytes it was decoded from. -/
structure IssuerSignedItem (V B : Type) where
  digestId : ℕ
  random : Bytes
  elementIdentifier : String
  elementValue : V
  originalBytes : Option B := none
  deriving DecidableEq

abbrev IssuerNamespaces (V B : Type) := List (String × List (IssuerSignedItem V B))

abbrev ValueDigests := List (String × List (ℕ × Bytes))

structure ValidityInfo where
  signed : ℤ
  validFrom : ℤ
  validUntil : ℤ

structure MobileSecurityObject (D S : Type) where
  version : String := "1.0"
  digestAlgorithm : DigestAlgorithm
  valueDigests : ValueDigests
  deviceKeyInfo : D
  docType : String
  validityInfo : ValidityInfo
  status : Option S

structure IssuerAuth (B : Type) where
  algorithm : ℤ
  x5t : Option Bytes
  x5chain : List Bytes
  keyId : Option Bytes
  payload : B
  signature : Bytes

structure IssuerSigned (V B : Type) where
  issuerNamespaces : IssuerNamespaces V B
  issuerAuth : IssuerAuth B

/-- CBOR and cryptography: the encoding of items and of the signed object, data items (tag 24),
digests and signatures. Encoded bytes are of a type `B`. -/
structure MdocContext (V D S B : Type) where
  encodeItem : ℕ → Bytes → String → V → B
  decodeItem : B → Option (ℕ × Bytes × String × V)
  dataItem : B → B
  encodeMso : MobileSecurityObject D S → B
  decodeMso : B → Option (MobileSecurityObject D S)
  digest : DigestAlgorithm → B → Bytes
  thumbprint : Bytes → Bytes
  sign : ℤ → Option Bytes → B → Bytes

/-! ## Adding elements -/

/-- What the random generator gives for one element. -/
structure Draw where
  id : UInt8 × UInt8 × UInt8 × UInt8
  random : Bytes

def randomUnsignedInteger : UInt8 × UInt8 × UInt8 × UInt8 → ℕ
  | (b₀, b₁, b₂, b₃) =>
      (b₀.toNat <<< 24 ||| b₁.toNat <<< 16 ||| b₂.toNat <<< 8 ||| b₃.toNat) &&& 0x7fffffff

theorem randomUnsignedInteger_lt (b : UInt8 × UInt8 × UInt8 × UInt8) :
    randomUnsignedInteger b < 2 ^ 31 := by
  obtain ⟨b₀, b₁, b₂, b₃⟩ := b
  exact Nat.lt_of_le_of_lt Nat.and_le_right (show 0x7fffffff < 2 ^ 31 by decide)

variable {V D S B : Type}

/-- The items of a namespace with some elements more, or why one of them cannot be added. -/
def addElements («namespace» : String) :
    List (IssuerSignedItem V B) → List (String × V × Draw) →
    Except MdocError (List (IssuerSignedItem V B))
  | issuerNamespace, [] => .ok issuerNamespace
  | issuerNamespace, (elementIdentifier, elementValue, draw) :: entries =>
    if issuerNamespace.any (·.elementIdentifier = elementIdentifier) then
      .error (.duplicateElementIdentifier elementIdentifier «namespace»)
    else
      let digestId := randomUnsignedInteger draw.id
      if issuerNamespace.any (·.digestId = digestId) then
        .error (.digestIdUsed digestId «namespace»)
      else addElements «namespace»
        (issuerNamespace ++
          [{ digestId, random := draw.random, elementIdentifier, elementValue }]) entries

/-- The namespaces after a call, and why it throws if it does. -/
def addIssuerNamespace (namespaces : IssuerNamespaces V B) («namespace» : String)
    (values : List (String × V × Draw)) : IssuerNamespaces V B × Option MdocError :=
  -- a copy of the items, so that a call that throws leaves the namespace as it was
  match addElements «namespace» ((namespaces.lookup «namespace»).getD []) values with
  | .ok issuerNamespace => (insert «namespace» issuerNamespace namespaces, none)
  | .error e => (namespaces, some e)

/-! ## Signing -/

structure SignOptions (D S : Type) where
  keyAlgorithm : Option ℤ
  keyId : Option Bytes
  algorithm : ℤ
  digestAlgorithm : DigestAlgorithm
  validityInfo : ValidityInfo
  deviceKeyInfo : D
  certificates : List Bytes
  status : Option S
  includeX5t : Bool

/-- Where a call of `sign` is: at which entry of the map and at which item it waits for a digest, or
for what it waits afterwards. -/
inductive Signing (V D S B : Type)
  | idle
  | digesting (index : ℕ) («namespace» : String) (item : IssuerSignedItem V B)
      (items : List (IssuerSignedItem V B))
    (digests : List (ℕ × Bytes)) (valueDigests : ValueDigests)
  | digested (valueDigests : ValueDigests)
  | hashingCertificate (mso : MobileSecurityObject D S)
  | signing (mso : MobileSecurityObject D S) (x5t : Option Bytes)
  | returned (issuerAuth : IssuerAuth B)
  | rejected (error : MdocError)

def checkOptions (options : SignOptions D S) : Except MdocError Unit :=
  let { signed, validFrom, validUntil } := options.validityInfo
  match options.keyAlgorithm.filter fun algorithm => algorithm ≠ 0 ∧
    algorithm ≠ options.algorithm with
  | some algorithm => .error (.signatureAlgorithmDoesNotMatch algorithm options.algorithm)
  | none =>
    if validFrom < signed then .error (.validFromBeforeSigned validFrom signed)
    else if validUntil ≤ validFrom then .error (.validUntilNotAfterValidFrom validUntil validFrom)
    else if options.certificates = [] then .error .atLeastOneCertificateRequired
    else .ok ()

/-- The loop over the namespaces, from the entries that are left, up to the first item. -/
def nextNamespace : List (String × List (IssuerSignedItem V B)) → ℕ → ValueDigests → Signing V D S B
  | [], _, valueDigests => .digested valueDigests
  | («namespace», []) :: entries, index, valueDigests =>
    nextNamespace entries (index + 1) (insert «namespace» [] valueDigests)
  | («namespace», item :: items) :: _, index, valueDigests =>
    .digesting index «namespace» item items [] valueDigests

section Sign

variable (ctx : MdocContext V D S B) (docType : String) (options : SignOptions D S)

/-- `item.encode({ asDataItem: true })`. -/
def encodeDataItem (item : IssuerSignedItem V B) : B :=
  ctx.dataItem (item.originalBytes.getD
    (ctx.encodeItem item.digestId item.random item.elementIdentifier item.elementValue))

/-- What a running call does after a wait, up to the next one. -/
def resume (namespaces : IssuerNamespaces V B) : Signing V D S B → Signing V D S B
  | .digesting index «namespace» item items digests valueDigests =>
    let digests := insert item.digestId
      (ctx.digest options.digestAlgorithm (encodeDataItem ctx item)) digests
    match items with
    | item :: items => .digesting index «namespace» item items digests valueDigests
    | [] => nextNamespace (namespaces.drop (index + 1)) (index + 1)
        (insert «namespace» digests valueDigests)
  | .digested valueDigests =>
    let mso := {
      docType, validityInfo := options.validityInfo, digestAlgorithm := options.digestAlgorithm
      deviceKeyInfo := options.deviceKeyInfo, valueDigests, status := options.status }
    if options.includeX5t then .hashingCertificate mso else .signing mso none
  | .hashingCertificate mso => .signing mso (ctx.thumbprint (options.certificates.headD []))
  | .signing mso x5t =>
    .returned {
      algorithm := options.algorithm, x5t, x5chain := options.certificates, keyId := options.keyId
      payload := ctx.encodeMso mso, signature := ctx.sign options.algorithm x5t
        (ctx.encodeMso mso) }
  | signing => signing

/-! ## Runs -/

/-- A call of a method of the builder, the end of a wait, or a failure of what is waited for. -/
inductive Event (V : Type)
  | addIssuerNamespace («namespace» : String) (values : List (String × V × Draw))
  | sign
  | resume
  | fail (error : MdocError)

structure Builder (V D S B : Type) where
  namespaces : IssuerNamespaces V B := []
  signing : Signing V D S B := .idle

namespace Builder

def step (builder : Builder V D S B) : Event V → Builder V D S B
  | .addIssuerNamespace «namespace» values =>
    { builder with namespaces := (addIssuerNamespace builder.namespaces «namespace» values).1 }
  | .sign =>
    match builder.signing with
    | .idle => match checkOptions options with
      | .ok () => { builder with signing := nextNamespace builder.namespaces 0 [] }
      | .error e => { builder with signing := .rejected e }
    | _ => builder
  | .resume =>
      { builder with signing := resume ctx docType options builder.namespaces builder.signing }
  | .fail e =>
    match builder.signing with
    | .idle | .returned _ | .rejected _ => builder
    | _ => { builder with signing := .rejected e }

/-- What `sign` has returned. The namespaces are those of the builder, which are not copied. -/
def issuerSigned (builder : Builder V D S B) : Option (IssuerSigned V B) :=
  match builder.signing with
  | .returned issuerAuth => some { issuerNamespaces := builder.namespaces, issuerAuth }
  | _ => none

end Builder

/-- Whether the digest of an item is the one in the signed object; `none` when that cannot be
decoded. -/
def isValid («namespace» : String) (issuerAuth : IssuerAuth B) (item : IssuerSignedItem V B) :
    Option Bool := do
  let mso ← ctx.decodeMso issuerAuth.payload
  let digest := ctx.digest mso.digestAlgorithm (encodeDataItem ctx item)
  match mso.valueDigests.lookup «namespace» with
  | none => some false
  | some digests => some (digests.lookup item.digestId = some digest)

/-- The item as it is received: decoded from its bytes, which it keeps. -/
def received (item : IssuerSignedItem V B) : Option (IssuerSignedItem V B) := do
  let bytes := item.originalBytes.getD
    (ctx.encodeItem item.digestId item.random item.elementIdentifier item.elementValue)
  let (digestId, random, elementIdentifier, elementValue) ← ctx.decodeItem bytes
  some { digestId, random, elementIdentifier, elementValue, originalBytes := bytes }

end Sign

/-! ## The items of a namespace -/

/-- The items of a namespace are told apart by their element identifiers and by their digest ids. -/
structure ItemsOk (items : List (IssuerSignedItem V B)) : Prop where
  nodup_identifiers : (items.map IssuerSignedItem.elementIdentifier).Nodup
  nodup_digestIds : (items.map IssuerSignedItem.digestId).Nodup
  digestId_lt : ∀ item ∈ items, item.digestId < 2 ^ 31
  built : ∀ item ∈ items, item.originalBytes = none

theorem ItemsOk.append {items : List (IssuerSignedItem V B)} (h : ItemsOk items)
    {item : IssuerSignedItem V B}
    (hidentifier : ∀ i ∈ items, i.elementIdentifier ≠ item.elementIdentifier)
    (hid : ∀ i ∈ items, i.digestId ≠ item.digestId) (hlt : item.digestId < 2 ^ 31)
    (hbuilt : item.originalBytes = none) : ItemsOk (items ++ [item]) := by
  refine ⟨?_, ?_, fun i hi => ?_, fun i hi => ?_⟩
  · rw [List.map_append, List.map_singleton]
    refine h.nodup_identifiers.append (List.nodup_singleton _)
      (List.disjoint_singleton.mpr fun hmem => ?_)
    obtain ⟨i, hi, heq⟩ := List.mem_map.mp hmem
    exact hidentifier i hi heq
  · rw [List.map_append, List.map_singleton]
    refine h.nodup_digestIds.append (List.nodup_singleton _)
      (List.disjoint_singleton.mpr fun hmem => ?_)
    obtain ⟨i, hi, heq⟩ := List.mem_map.mp hmem
    exact hid i hi heq
  · obtain hi | hi := List.mem_append.mp hi
    · exact h.digestId_lt i hi
    · exact List.mem_singleton.mp hi ▸ hlt
  · obtain hi | hi := List.mem_append.mp hi
    · exact h.built i hi
    · exact List.mem_singleton.mp hi ▸ hbuilt

/-- A call adds items at the end, one for each element, and they are told apart. -/
theorem addElements_eq_ok {«namespace» : String} {values : List (String × V × Draw)} :
    ∀ {items items' : List (IssuerSignedItem V B)},
    addElements «namespace» items values = .ok items' →
      ∃ added, items' = items ++ added ∧ added.length = values.length ∧
      (ItemsOk items → ItemsOk items') := by
  induction values with
  | nil =>
    intro items items' h
    cases h
    exact ⟨[], (List.append_nil _).symm, rfl, id⟩
  | cons entry values ih =>
    intro items items' h
    obtain ⟨elementIdentifier, elementValue, draw⟩ := entry
    unfold addElements at h
    split at h
    case isTrue => cases h
    case isFalse hidentifier =>
      dsimp only at h
      split at h
      case isTrue => cases h
      case isFalse hid =>
        obtain ⟨added, rfl, hlength, hok⟩ := ih h
        refine ⟨_ :: added, List.append_assoc .., congrArg Nat.succ hlength, fun hitems => hok ?_⟩
        rw [List.any_eq_true] at hidentifier hid
        exact hitems.append (fun i hi heq => hidentifier ⟨i, hi, decide_eq_true heq⟩)
          (fun i hi heq => hid ⟨i, hi, decide_eq_true heq⟩) (randomUnsignedInteger_lt _) rfl

/-- The namespaces of a builder: no name twice, and items that are told apart in each. -/
structure NamespacesOk (namespaces : IssuerNamespaces V B) : Prop where
  nodup : (keys namespaces).Nodup
  items : ∀ m ∈ namespaces, ItemsOk m.2

/-- What a call does to the namespaces: nothing, or new items at the end of a namespace. -/
theorem addIssuerNamespace_cases (namespaces : IssuerNamespaces V B) («namespace» : String)
    (values : List (String × V × Draw)) :
    (addIssuerNamespace namespaces «namespace» values).1 = namespaces ∧
        (addIssuerNamespace namespaces «namespace» values).2 ≠ none ∨
      ∃ added, (addIssuerNamespace namespaces «namespace» values).1 =
          insert «namespace» ((namespaces.lookup «namespace»).getD [] ++ added) namespaces ∧
        (addIssuerNamespace namespaces «namespace» values).2 = none ∧ added.length = values.length ∧
        (ItemsOk ((namespaces.lookup «namespace»).getD []) →
          ItemsOk ((namespaces.lookup «namespace»).getD [] ++ added)) := by
  unfold addIssuerNamespace
  split
  case h_1 items hitems =>
    obtain ⟨added, rfl, hlength, hok⟩ := addElements_eq_ok hitems
    exact Or.inr ⟨added, rfl, rfl, hlength, hok⟩
  case h_2 => exact Or.inl ⟨rfl, nofun⟩

theorem NamespacesOk.lookup {namespaces : IssuerNamespaces V B} (h : NamespacesOk namespaces)
    («namespace» : String) :
    ItemsOk ((namespaces.lookup «namespace»).getD []) := by
  cases hlookup : namespaces.lookup «namespace» with
  | none => exact ⟨List.nodup_nil, List.nodup_nil, nofun, nofun⟩
  | some items => exact h.items _ (mem_of_lookup hlookup)

theorem NamespacesOk.addIssuerNamespace {namespaces : IssuerNamespaces V B}
    (h : NamespacesOk namespaces) («namespace» : String) (values : List (String × V × Draw)) :
    NamespacesOk (addIssuerNamespace namespaces «namespace» values).1 := by
  obtain ⟨heq, -⟩ | ⟨added, heq, -, -, hok⟩ :=
    addIssuerNamespace_cases namespaces «namespace» values
  · rwa [heq]
  · rw [heq]
    refine ⟨nodup_insert _ h.nodup, fun m hm => ?_⟩
    obtain rfl | hm := mem_of_mem_insert hm
    · exact hok (h.lookup «namespace»)
    · exact h.items m hm

/-! ## What is digested -/

section Invariant

variable (ctx : MdocContext V D S B) (docType : String) (options : SignOptions D S)

def digestOf (item : IssuerSignedItem V B) : Bytes :=
  ctx.digest options.digestAlgorithm (encodeDataItem ctx item)

/-- The digests of some items, by their ids. -/
def Digests (items : List (IssuerSignedItem V B)) (digests : List (ℕ × Bytes)) : Prop :=
  ∀ item ∈ items, digests.lookup item.digestId = some (digestOf ctx options item)

/-- Every item of some namespaces has its digest. -/
def Covers (entries : IssuerNamespaces V B) (valueDigests : ValueDigests) : Prop :=
  ∀ m ∈ entries, ∀ item ∈ m.2, ∃ digests, valueDigests.lookup m.1 = some digests ∧
    digests.lookup item.digestId = some (digestOf ctx options item)

/-- The ids of the digests are those of a signed object. -/
def IdsOk (valueDigests : ValueDigests) : Prop := ∀ m ∈ valueDigests, ∀ d ∈ m.2, d.1 < 2 ^ 31

/-- The running `sign` has the digests of what it has read, which is what the namespaces have. -/
def SigningOk (namespaces : IssuerNamespaces V B) : Signing V D S B → Prop
  | .idle | .rejected _ => True
  | .digesting index «namespace» item items digests valueDigests =>
    (∃ done, namespaces[index]? = some («namespace», done ++ item :: items) ∧
      Digests ctx options done digests) ∧
      Covers ctx options (namespaces.take index) valueDigests ∧ IdsOk valueDigests ∧
      ∀ d ∈ digests, d.1 < 2 ^ 31
  | .digested valueDigests => Covers ctx options namespaces valueDigests ∧ IdsOk valueDigests
  | .hashingCertificate mso | .signing mso _ =>
    Covers ctx options namespaces mso.valueDigests ∧ IdsOk mso.valueDigests ∧
      mso.digestAlgorithm = options.digestAlgorithm
  | .returned issuerAuth => ∃ mso, issuerAuth.payload = ctx.encodeMso mso ∧
      Covers ctx options namespaces mso.valueDigests ∧ IdsOk mso.valueDigests ∧
      mso.digestAlgorithm = options.digestAlgorithm

variable {ctx docType options}

/-- Once an entry is read, its digests are put beside those of the entries before it. -/
theorem Covers.take_succ {namespaces : IssuerNamespaces V B}
    {valueDigests : ValueDigests} {index : ℕ} {«namespace» : String}
    {items : List (IssuerSignedItem V B)} {digests : List (ℕ × Bytes)}
    (hn : (keys namespaces).Nodup) (h : Covers ctx options (namespaces.take index) valueDigests)
    (hindex : namespaces[index]? = some («namespace», items))
    (hd : Digests ctx options items digests) :
    Covers ctx options (namespaces.take (index + 1)) (insert «namespace» digests valueDigests) := by
  obtain ⟨hlt, hget⟩ := List.getElem?_eq_some_iff.mp hindex
  have htake : namespaces.take (index + 1) = namespaces.take index ++ [(«namespace», items)] := by
    rw [List.take_succ_eq_append_getElem hlt, hget]
  intro m hm item hitem
  rw [htake] at hm
  rw [lookup_insert]
  obtain hm | hm := List.mem_append.mp hm
  · have hne : m.1 ≠ «namespace» := by
      intro heq
      have hnodup : (keys (namespaces.take index ++ [(«namespace», items)])).Nodup := by
        rw [← htake]
        exact hn.sublist ((List.take_sublist _ _).map _)
      rw [keys, List.map_append, List.nodup_append] at hnodup
      exact hnodup.2.2 m.1 (List.mem_map_of_mem hm) m.1 (by simp [heq]) rfl
    rw [if_neg hne]
    exact h m hm item hitem
  · cases List.mem_singleton.mp hm
    exact ⟨digests, if_pos rfl, hd item hitem⟩

theorem IdsOk.insert {valueDigests : ValueDigests} (h : IdsOk valueDigests) («namespace» : String)
    {digests : List (ℕ × Bytes)} (hd : ∀ d ∈ digests, d.1 < 2 ^ 31) :
    IdsOk (AssocList.insert «namespace» digests valueDigests) := by
  intro m hm
  obtain rfl | hm := mem_of_mem_insert hm
  · exact hd
  · exact h m hm

theorem signingOk_nextNamespace {namespaces : IssuerNamespaces V B} (hn : (keys namespaces).Nodup)
    {entries : IssuerNamespaces V B} :
    ∀ {index : ℕ} {valueDigests : ValueDigests}, namespaces.drop index = entries →
      Covers ctx options (namespaces.take index) valueDigests → IdsOk valueDigests →
      SigningOk ctx options namespaces (nextNamespace entries index valueDigests) := by
  induction entries with
  | nil =>
    intro index valueDigests hdrop hc hids
    have htake : namespaces.take index = namespaces :=
      List.take_of_length_le (List.drop_eq_nil_iff.mp hdrop)
    rw [htake] at hc
    exact ⟨hc, hids⟩
  | cons entry entries ih =>
    intro index valueDigests hdrop hc hids
    have hindex : namespaces[index]? = some entry := by
      rw [← List.head?_drop, hdrop]
      rfl
    have hdrop' : namespaces.drop (index + 1) = entries := by
      rw [← List.tail_drop, hdrop]
      rfl
    obtain ⟨«namespace», items⟩ := entry
    cases items with
    | nil => exact ih hdrop' (hc.take_succ hn hindex nofun) (hids.insert _ nofun)
    | cons item items => exact ⟨⟨[], hindex, nofun⟩, hc, hids, nofun⟩

theorem Digests.append {items : List (IssuerSignedItem V B)} {item : IssuerSignedItem V B}
    {digests : List (ℕ × Bytes)} (h : Digests ctx options items digests)
    (hn : ((items ++ [item]).map IssuerSignedItem.digestId).Nodup) :
    Digests ctx options (items ++ [item])
      (insert item.digestId (digestOf ctx options item) digests) := by
  intro i hi
  rw [lookup_insert]
  obtain hi | hi := List.mem_append.mp hi
  · have hne : i.digestId ≠ item.digestId := by
      rw [List.map_append, List.nodup_append] at hn
      exact hn.2.2 _ (List.mem_map_of_mem hi) _ (by simp)
    rw [if_neg hne]
    exact h i hi
  · rw [List.mem_singleton.mp hi, if_pos rfl]

theorem signingOk_resume {namespaces : IssuerNamespaces V B} (hn : NamespacesOk namespaces)
    {signing : Signing V D S B} (h : SigningOk ctx options namespaces signing) :
    SigningOk ctx options namespaces (resume ctx docType options namespaces signing) := by
  cases signing with
  | idle => trivial
  | rejected e => trivial
  | returned issuerAuth => exact h
  | digested valueDigests =>
    unfold resume
    dsimp only
    split
    case isTrue => exact ⟨h.1, h.2, rfl⟩
    case isFalse => exact ⟨h.1, h.2, rfl⟩
  | hashingCertificate mso => exact h
  | signing mso x5t => exact ⟨mso, rfl, h⟩
  | digesting index «namespace» item items digests valueDigests =>
    obtain ⟨⟨done, hindex, hdone⟩, hc, hids, hdigests⟩ := h
    have hitems : ItemsOk (done ++ item :: items) := hn.items _ (List.mem_of_getElem? hindex)
    have hsplit : done ++ item :: items = (done ++ [item]) ++ items := by simp
    have hdigested : Digests ctx options (done ++ [item])
        (insert item.digestId (digestOf ctx options item) digests) := by
      refine hdone.append (hitems.nodup_digestIds.sublist (List.Sublist.map _ ?_))
      rw [hsplit]
      exact List.sublist_append_left _ _
    have hlt : ∀ d ∈ insert item.digestId (digestOf ctx options item) digests, d.1 < 2 ^ 31 := by
      intro d hd
      obtain rfl | hd := mem_of_mem_insert hd
      · exact hitems.digestId_lt item (by simp)
      · exact hdigests d hd
    cases items with
    | cons item' items =>
      refine ⟨⟨done ++ [item], ?_, hdigested⟩, hc, hids, hlt⟩
      rw [hindex, hsplit]
    | nil =>
      exact signingOk_nextNamespace hn.nodup rfl (hc.take_succ hn.nodup hindex hdigested)
        (hids.insert _ hlt)

/-! ## Calls while `sign` is running -/

/-- A running `sign` has still to read a namespace, or there is none. -/
def WillRead (namespaces : IssuerNamespaces V B) («namespace» : String) : Signing V D S B → Prop
  | .idle | .rejected _ => True
  | .digesting index .. => «namespace» ∉ (keys namespaces).take (index + 1)
  | .digested _ | .hashingCertificate _ | .signing .. | .returned _ => False

instance (namespaces : IssuerNamespaces V B) («namespace» : String) :
    ∀ signing : Signing V D S B, Decidable (WillRead namespaces «namespace» signing)
  | .idle | .rejected _ => isTrue trivial
  | .digesting index .. =>
      inferInstanceAs (Decidable («namespace» ∉ (keys namespaces).take (index + 1)))
  | .digested _ | .hashingCertificate _ | .signing .. | .returned _ => isFalse id

/-- A call that adds an element adds it to a namespace that a running `sign` has still to read. -/
def InTime (builder : Builder V D S B) : Event V → Prop
  | .addIssuerNamespace «namespace» values =>
    (addIssuerNamespace builder.namespaces «namespace» values).2 = none → values ≠ [] →
      WillRead builder.namespaces «namespace» builder.signing
  | .sign | .resume | .fail _ => True

instance (builder : Builder V D S B) : ∀ event : Event V, Decidable (InTime builder event)
  | .addIssuerNamespace «namespace» values =>
    inferInstanceAs (Decidable ((addIssuerNamespace builder.namespaces «namespace» values).2 =
      none → values ≠ [] →
      WillRead builder.namespaces «namespace» builder.signing))
  | .sign | .resume | .fail _ => isTrue trivial

theorem take_insert {key : String} (val : List (IssuerSignedItem V B)) {l : IssuerNamespaces V B}
    {n : ℕ} (hn : n ≤ l.length) (hkey : key ∉ (keys l).take n) :
    (insert key val l).take n = l.take n := by
  induction l generalizing n with
  | nil => rw [Nat.le_zero.mp hn, List.take_zero, List.take_zero]
  | cons m l ih =>
    cases n with
    | zero => rfl
    | succ n =>
      rw [keys_cons, List.take_succ_cons, List.mem_cons, not_or] at hkey
      rw [AssocList.insert, if_neg (Ne.symm hkey.1), List.take_succ_cons, List.take_succ_cons,
        ih (Nat.le_of_succ_le_succ hn) hkey.2]

/-- A call that adds nothing leaves the namespaces, or puts an empty one at the end. -/
theorem addIssuerNamespace_nil (namespaces : IssuerNamespaces V B) («namespace» : String) :
    (addIssuerNamespace namespaces «namespace» []).1 = namespaces ∨
      (addIssuerNamespace namespaces «namespace» []).1 = namespaces ++ [(«namespace», [])] := by
  unfold addIssuerNamespace addElements
  cases hlookup : namespaces.lookup «namespace» with
  | none => exact Or.inr (insert_of_not_mem (lookup_eq_none_iff.mp hlookup))
  | some items => exact Or.inl (insert_of_lookup hlookup)

theorem Covers.append_nil {namespaces : IssuerNamespaces V B} {valueDigests : ValueDigests}
    (h : Covers ctx options namespaces valueDigests) («namespace» : String) :
    Covers ctx options (namespaces ++ [(«namespace», [])]) valueDigests := by
  intro m hm item hitem
  obtain hm | hm := List.mem_append.mp hm
  · exact h m hm item hitem
  · rw [List.mem_singleton.mp hm] at hitem
    cases hitem

/-- A namespace that is empty and at the end changes nothing. -/
theorem SigningOk.append_nil {namespaces : IssuerNamespaces V B} {signing : Signing V D S B}
    (h : SigningOk ctx options namespaces signing) («namespace» : String) :
    SigningOk ctx options (namespaces ++ [(«namespace», [])]) signing := by
  cases signing with
  | idle => trivial
  | rejected e => trivial
  | digested valueDigests => exact ⟨h.1.append_nil _, h.2⟩
  | hashingCertificate mso => exact ⟨h.1.append_nil _, h.2⟩
  | signing mso x5t => exact ⟨h.1.append_nil _, h.2⟩
  | returned issuerAuth =>
    obtain ⟨mso, hpayload, hc, hids⟩ := h
    exact ⟨mso, hpayload, hc.append_nil _, hids⟩
  | digesting index name item items digests valueDigests =>
    obtain ⟨⟨done, hindex, hdone⟩, hc, hids⟩ := h
    obtain ⟨hlt, -⟩ := List.getElem?_eq_some_iff.mp hindex
    refine ⟨⟨done, (List.getElem?_append_left hlt).trans hindex, hdone⟩, ?_, hids⟩
    rwa [List.take_append_of_le_length (Nat.le_of_lt hlt)]

theorem signingOk_add {builder : Builder V D S B}
    (h : SigningOk ctx options builder.namespaces builder.signing) («namespace» : String)
    {values : List (String × V × Draw)}
    (hg : InTime builder (.addIssuerNamespace «namespace» values)) :
    SigningOk ctx options (addIssuerNamespace builder.namespaces «namespace» values).1
      builder.signing := by
  obtain ⟨heq, -⟩ | ⟨added, heq, hnone, -, -⟩ :=
    addIssuerNamespace_cases builder.namespaces «namespace» values
  · rwa [heq]
  · cases values with
    | nil =>
      obtain heq | heq := addIssuerNamespace_nil builder.namespaces «namespace»
      · rwa [heq]
      · rw [heq]
        exact h.append_nil _
    | cons entry values =>
      have hread := hg hnone (List.cons_ne_nil _ _)
      rw [heq]
      obtain ⟨namespaces, signing⟩ := builder
      cases signing with
      | idle => trivial
      | rejected e => trivial
      | digested valueDigests => exact hread.elim
      | hashingCertificate mso => exact hread.elim
      | signing mso x5t => exact hread.elim
      | returned issuerAuth => exact hread.elim
      | digesting index name item items digests valueDigests =>
        obtain ⟨⟨done, hindex, hdone⟩, hc, hids⟩ := h
        obtain ⟨hlt, -⟩ := List.getElem?_eq_some_iff.mp hindex
        have htake := take_insert ((namespaces.lookup «namespace»).getD [] ++ added) hlt hread
        refine ⟨⟨done, ?_, hdone⟩, ?_, hids⟩
        · rw [← List.getElem?_take_of_lt (Nat.lt_succ_self index), htake,
            List.getElem?_take_of_lt (Nat.lt_succ_self index)]
          exact hindex
        · rw [← Nat.min_eq_left (Nat.le_succ index), ← List.take_take, htake, List.take_take,
            Nat.min_eq_left (Nat.le_succ index)]
          exact hc

/-- What every reachable state of a builder has when the calls are in time. -/
structure BuilderOk (ctx : MdocContext V D S B) (options : SignOptions D S)
    (builder : Builder V D S B) : Prop where
  namespaces : NamespacesOk builder.namespaces
  signing : SigningOk ctx options builder.namespaces builder.signing

theorem namespaces_step (builder : Builder V D S B) (event : Event V) :
    (builder.step ctx docType options event).namespaces = match event with
      | .addIssuerNamespace «namespace» values =>
          (addIssuerNamespace builder.namespaces «namespace» values).1
      | _ => builder.namespaces := by
  cases event with
  | addIssuerNamespace «namespace» values => rfl
  | sign =>
    unfold Builder.step
    dsimp only
    split
    case h_1 => split <;> rfl
    case h_2 => rfl
  | resume => rfl
  | fail e =>
    unfold Builder.step
    dsimp only
    split <;> rfl

theorem namespacesOk_step {builder : Builder V D S B} (h : NamespacesOk builder.namespaces)
    (event : Event V) :
    NamespacesOk (builder.step ctx docType options event).namespaces := by
  rw [namespaces_step]
  cases event with
  | addIssuerNamespace «namespace» values => exact h.addIssuerNamespace «namespace» values
  | sign => exact h
  | resume => exact h
  | fail e => exact h

theorem builderOk_step (builder : Builder V D S B) (event : Event V)
    (h : BuilderOk ctx options builder) (hg : InTime builder event) :
    BuilderOk ctx options (builder.step ctx docType options event) := by
  refine ⟨namespacesOk_step h.namespaces event, ?_⟩
  cases event with
  | addIssuerNamespace «namespace» values => exact signingOk_add h.signing «namespace» hg
  | sign =>
    unfold Builder.step
    dsimp only
    split
    case h_1 =>
      split
      case h_1 => exact signingOk_nextNamespace h.namespaces.nodup rfl nofun nofun
      case h_2 => trivial
    case h_2 => exact h.signing
  | resume => exact signingOk_resume h.namespaces h.signing
  | fail e =>
    unfold Builder.step
    dsimp only
    split
    case h_1 => exact h.signing
    case h_2 => exact h.signing
    case h_3 => exact h.signing
    case h_4 => trivial

end Invariant

/-! ## Issued items -/

/-- CBOR decodes what it encodes: the digest ids of items, and the digests of signed objects. -/
structure MdocContext.Lawful (ctx : MdocContext V D S B) : Prop where
  decodeItem : ∀ digestId random elementIdentifier elementValue, digestId < 2 ^ 31 → ∃ rest,
    ctx.decodeItem (ctx.encodeItem digestId random elementIdentifier elementValue) =
      some (digestId, rest)
  decodeMso : ∀ mso, IdsOk mso.valueDigests →
    ∃ mso', ctx.decodeMso (ctx.encodeMso mso) = some mso' ∧
    mso'.digestAlgorithm = mso.digestAlgorithm ∧ mso'.valueDigests = mso.valueDigests

/-- An item and the item that is received are valid. -/
def Issued (ctx : MdocContext V D S B) («namespace» : String) (issuerAuth : IssuerAuth B)
    (item : IssuerSignedItem V B) : Prop :=
  isValid ctx «namespace» issuerAuth item = some true ∧
    ∃ item', received ctx item = some item' ∧ isValid ctx «namespace» issuerAuth item' = some true

theorem isValid_eq_some {ctx : MdocContext V D S B} {«namespace» : String}
    {issuerAuth : IssuerAuth B} {item : IssuerSignedItem V B} {mso : MobileSecurityObject D S}
    {digests : List (ℕ × Bytes)} (hmso : ctx.decodeMso issuerAuth.payload = some mso)
    (hdigests : mso.valueDigests.lookup «namespace» = some digests)
    (hdigest : digests.lookup item.digestId =
      some (ctx.digest mso.digestAlgorithm (encodeDataItem ctx item))) :
    isValid ctx «namespace» issuerAuth item = some true := by
  unfold isValid
  rw [hmso]
  simp only [Option.bind_eq_bind, Option.bind_some, hdigests, hdigest, decide_true]

theorem BuilderOk.issued {ctx : MdocContext V D S B} (hctx : ctx.Lawful) {options : SignOptions D S}
    {builder : Builder V D S B} (h : BuilderOk ctx options builder)
    {issuerSigned : IssuerSigned V B} (hreturned : builder.issuerSigned = some issuerSigned) :
    ∀ m ∈ issuerSigned.issuerNamespaces, ∀ item ∈ m.2,
    Issued ctx m.1 issuerSigned.issuerAuth item := by
  obtain ⟨namespaces, signing⟩ := builder
  cases signing with
  | returned issuerAuth =>
    cases hreturned
    intro m hm item hitem
    obtain ⟨mso, hpayload, hc, hids, halg⟩ := h.signing
    obtain ⟨mso', hdecode, halg', hdigests'⟩ := hctx.decodeMso mso hids
    obtain ⟨digests, hdigests, hdigest⟩ := hc m hm item hitem
    have hok := h.namespaces.items m hm
    rw [← hpayload] at hdecode
    rw [← hdigests'] at hdigests
    rw [digestOf, ← halg, ← halg'] at hdigest
    refine ⟨isValid_eq_some hdecode hdigests hdigest, ?_⟩
    obtain ⟨rest, hrest⟩ :=
      hctx.decodeItem item.digestId item.random item.elementIdentifier item.elementValue
      (hok.digestId_lt item hitem)
    have hbuilt := hok.built item hitem
    let bytes := ctx.encodeItem item.digestId item.random item.elementIdentifier item.elementValue
    let item' : IssuerSignedItem V B := ⟨item.digestId, rest.1, rest.2.1, rest.2.2, some bytes⟩
    have hreceived : received ctx item = some item' := by
      unfold received
      rw [hbuilt, Option.getD_none]
      simp only [hrest, Option.bind_eq_bind, Option.bind_some, item', bytes]
    have hbytes : encodeDataItem ctx item' = encodeDataItem ctx item := by
      unfold encodeDataItem
      rw [hbuilt]
      rfl
    exact ⟨item', hreceived, isValid_eq_some hdecode hdigests (hbytes ▸ hdigest)⟩
  | _ => cases hreturned

theorem builderOk_empty (ctx : MdocContext V D S B) (options : SignOptions D S) :
    BuilderOk ctx options {} :=
  ⟨⟨List.nodup_nil, nofun⟩, trivial⟩

/-- A call that throws leaves the namespaces, and in every state that is reached the items of a
namespace are told apart. If nothing is added to what `sign` has read, the items of what it returns
are valid, and stay valid when received. -/
theorem issuedItems (ctx : MdocContext V D S B) (hctx : ctx.Lawful) (docType : String)
    (options : SignOptions D S) (events : List (Event V)) :
    (∀ (builder : Builder V D S B) («namespace» : String) values,
      (addIssuerNamespace builder.namespaces «namespace» values).2 ≠ none →
        (builder.step ctx docType options (.addIssuerNamespace «namespace» values)).namespaces =
          builder.namespaces) ∧
    (∀ m ∈ (run (Builder.step ctx docType options) {} events).namespaces,
      (m.2.map IssuerSignedItem.elementIdentifier).Nodup ∧
        (m.2.map IssuerSignedItem.digestId).Nodup) ∧
    (Guarded (Builder.step ctx docType options) InTime {} events → ∀ issuerSigned,
      (run (Builder.step ctx docType options) {} events).issuerSigned = some issuerSigned →
        ∀ m ∈ issuerSigned.issuerNamespaces, ∀ item ∈ m.2,
          Issued ctx m.1 issuerSigned.issuerAuth item) := by
  refine ⟨fun builder «namespace» values hthrows => ?_, fun m hm => ?_,
    fun hg issuerSigned hreturned => ?_⟩
  · obtain ⟨heq, -⟩ | ⟨-, -, hnone, -⟩ :=
      addIssuerNamespace_cases builder.namespaces «namespace» values
    · exact heq
    · exact absurd hnone hthrows
  · have h : NamespacesOk (run (Builder.step ctx docType options) {} events).namespaces :=
      @invariant_run (Builder V D S B) _ _ (fun builder => NamespacesOk builder.namespaces)
        (fun _ event h => namespacesOk_step h event) _
          (builderOk_empty ctx options).namespaces events
    exact ⟨(h.items m hm).nodup_identifiers, (h.items m hm).nodup_digestIds⟩
  · exact (invariant builderOk_step (builderOk_empty ctx options) hg).issued hctx hreturned

/-! ## Examples -/

/-- Encoded bytes that are what they encode; the digest of an item is its random value. -/
abbrev Encoded := ℕ × Bytes × String × ℕ ⊕ MobileSecurityObject Unit Unit

def plainContext : MdocContext ℕ Unit Unit Encoded where
  encodeItem digestId random elementIdentifier elementValue :=
    .inl (digestId, random, elementIdentifier, elementValue)
  decodeItem := Sum.getLeft?
  dataItem := id
  encodeMso := .inr
  decodeMso := Sum.getRight?
  digest _ := Sum.elim (fun item => item.2.1) fun _ => []
  thumbprint _ := []
  sign _ _ _ := []

theorem plainContext_lawful : plainContext.Lawful where
  decodeItem _ _ _ _ _ := ⟨_, rfl⟩
  decodeMso mso _ := ⟨mso, rfl, rfl, rfl⟩

def signOptions : SignOptions Unit Unit where
  keyAlgorithm := none
  keyId := none
  algorithm := -7
  digestAlgorithm := .sha256
  validityInfo := ⟨0, 0, 1⟩
  deviceKeyInfo := ()
  certificates := [[1]]
  status := none
  includeX5t := false

/-- Three elements, the last one added while `sign` waits for the digest of the first. -/
def inTime : List (Event ℕ) :=
  [.addIssuerNamespace "a" [("x", 1, ⟨(0, 0, 0, 1), [1]⟩), ("y", 2, ⟨(0, 0, 0, 2), [2]⟩)], .sign,
    .addIssuerNamespace "b" [("x", 3, ⟨(0, 0, 0, 1), [3]⟩)], .resume, .resume, .resume,
      .resume, .resume]

theorem issuedItems_inTime :
    ∃ issuerSigned, (run (Builder.step plainContext "d" signOptions) {} inTime).issuerSigned =
      some issuerSigned ∧
      keys issuerSigned.issuerNamespaces = ["a", "b"] ∧
      ∀ m ∈ issuerSigned.issuerNamespaces, ∀ item ∈ m.2,
      Issued plainContext m.1 issuerSigned.issuerAuth item :=
  ⟨_, rfl, by decide, (issuedItems plainContext plainContext_lawful "d" signOptions inTime).2.2
    (by decide) _ rfl⟩

/-- An element that is added once `sign` has read the namespace is in what it returns, and is not
valid. -/
theorem addedLate_not_valid :
    ∃ (events : List (Event ℕ)) (issuerSigned : IssuerSigned ℕ Encoded)
      (m : String × List (IssuerSignedItem ℕ Encoded)),
      (run (Builder.step plainContext "d" signOptions) {} events).issuerSigned = some issuerSigned ∧
        m ∈ issuerSigned.issuerNamespaces ∧
          ∃ item ∈ m.2, isValid plainContext m.1 issuerSigned.issuerAuth item = some false :=
  ⟨[.addIssuerNamespace "a" [("x", 1, ⟨(0, 0, 0, 1), [1]⟩)], .sign,
      .addIssuerNamespace "a" [("y", 2, ⟨(0, 0, 0, 2), [2]⟩)], .resume, .resume, .resume],
    _, ("a", [⟨1, [1], "x", 1, none⟩, ⟨2, [2], "y", 2, none⟩]), rfl, List.mem_singleton.mpr rfl,
    _, List.mem_cons_of_mem _ (List.mem_singleton.mpr rfl), by decide⟩

end IdentityCommon.Mdoc
