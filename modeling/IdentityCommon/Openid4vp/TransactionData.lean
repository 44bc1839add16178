import IdentityCommon.Common.Base64
import IdentityCommon.Common.StrictSchemas
import IdentityCommon.Jose.CriticalHeaders
import IdentityCommon.Lib.Except

/-!
# Transaction data

The transaction data entries of a request, and the verification that the presentations of a response
authorise them.

## Main definitions

- `parseTransactionData` — the entries of a request
- `verifyTransactionData` — which credential authorises each entry, or why none does
- `Authorises` — that all presentations of a credential have an entry's hash
- `Verifies` — what the verification is for: it succeeds where each entry has a credential that
  authorises it

## Main results

- `verifyTransactionDataEntry_eq_ok` — an entry is decided by the first of its credentials that is
  there
- `verifies_iff` — when the verification does what it is for
-/

namespace IdentityCommon.Openid4vp

open Ecma Value Common Jose IdentityCommon.Except

/-! ## Entries -/

/-- What is thrown: an error response `invalid_transaction_data`, or by the engine. The text that
reports the issues of the schema is not there. -/
inductive TransactionDataError
  | response (errorDescription : String)
  | schema
  | typeError (message : String)
  deriving DecidableEq

def zTransactionEntry : Schema :=
  looseObject [("type", zNonEmptyString), ("credential_ids", nonEmptyArray zNonEmptyString),
    ("transaction_data_hashes_alg", optional (nonEmptyArray zString))]

def zTransactionData : Schema := array zTransactionEntry

structure ParsedTransactionDataEntry where
  transactionData : Value
  transactionDataIndex : ℕ
  encoded : String

namespace ParsedTransactionDataEntry

def credentialIds (entry : ParsedTransactionDataEntry) : List String :=
  textsOf (entry.transactionData.get "credential_ids")

/-- `entry.transactionData.transaction_data_hashes_alg ?? ['sha-256']`. -/
def allowedAlgs (entry : ParsedTransactionDataEntry) : List String :=
  match entry.transactionData.get "transaction_data_hashes_alg" with
  | undefined => ["sha-256"]
  | algs => textsOf algs

end ParsedTransactionDataEntry

/-- The value of a text that is JSON, else the text. -/
def parseIfJson (data : String) : Value := (Json.parse data.toList).getD (str data)

/-- The two replacements that make standard base64 of base64url. -/
def toBase64 (tdEntry : String) : List Char :=
  (tdEntry.toList.map fun c => if c = '-' then '+' else c).map fun c => if c = '_' then '/' else c

def decodeEntry (tdEntry : String) (index : ℕ) : Except TransactionDataError Value :=
  let error : TransactionDataError :=
    .response ("Transaction data entry with index " ++ toString index ++
    " is not base64url encoded UTF-8.")
  match decodeBase64 .base64 (toBase64 tdEntry) with
  | .ok bytes => match bytesToString bytes with
    | .ok text => .ok (parseIfJson text)
    | .error _ => .error error
  | .error _ => .error error

def parseTransactionData (transactionData : List String) :
    Except TransactionDataError (List ParsedTransactionDataEntry) := do
  let decoded ← transactionData.zipIdx.mapM fun entry => decodeEntry entry.1 entry.2
  match zTransactionData (arr decoded) with
  | some (arr data) =>
      .ok (data.zipIdx.map fun entry => ⟨entry.1, entry.2, transactionData.getD entry.2 ""⟩)
  | _ => .error .schema

/-! ## Presentations -/

structure TransactionDataHashesCredential where
  transactionDataHashes : List String
  transactionDataHashesAlg : Option String

namespace TransactionDataHashesCredential

def alg (credential : TransactionDataHashesCredential) : String :=
  credential.transactionDataHashesAlg.getD "sha-256"

end TransactionDataHashesCredential

/-- The presentations are objects: the lists have where each object is, and two that are equal may
be one object or two. A credential may also be there with the value `undefined`. -/
structure VerifyTransactionDataOptions where
  transactionData : List String
  credentials : List (String × Option (List ℕ))
  object : ℕ → TransactionDataHashesCredential

/-- `credentials[credentialId]`, by what becomes of it: nothing, presentations, or a member of
`Object.prototype`. -/
inductive CredentialMember
  | absent
  | presentations (objects : List ℕ)
  | inherited

def VerifyTransactionDataOptions.member (options : VerifyTransactionDataOptions)
    (credentialId : String) : CredentialMember :=
  match options.credentials.lookup credentialId with
  | some (some objects) => .presentations objects
  | some none => .absent
  | none => if (Value.inherited credentialId).truthy then .inherited else .absent

/-- Whether a credential is there, as a member or inherited. -/
def VerifyTransactionDataOptions.has (options : VerifyTransactionDataOptions)
    (credentialId : String) : Bool :=
  match options.member credentialId with
  | .absent => false
  | _ => true

structure VerifiedPresentation where
  presentationIndex : ℕ
  hash : String
  hashAlg : String
  credentialHashIndex : ℕ
  deriving DecidableEq

structure VerifiedTransactionDataEntry where
  transactionDataEntry : ParsedTransactionDataEntry
  credentialId : String
  presentations : List VerifiedPresentation

def supportedHashAlgorithms : List String := ["sha-256", "sha-384", "sha-512"]

section

-- `callbacks.hash`
variable (hash : String → String → List UInt8)

/-- The hash of an entry under an algorithm, as text. -/
def hashOf (entry : ParsedTransactionDataEntry) (alg : String) : String :=
  String.ofList (Base64url.encode (hash entry.encoded alg))

/-- The object `hashes`. -/
def hashesOf (entry : ParsedTransactionDataEntry) : Value :=
  obj ((supportedHashAlgorithms.filter (entry.allowedAlgs.contains ·)).map fun alg =>
    (alg, str (hashOf hash entry alg)))

/-- The body of the loop over the presentations of a credential, for the object at an address. -/
def verifyPresentation (options : VerifyTransactionDataOptions) (entry : ParsedTransactionDataEntry)
    (credentialId : String) (objects : List ℕ) (address : ℕ) :
    Except TransactionDataError VerifiedPresentation :=
  let credential := options.object address
  let alg := credential.alg
  let hash := (hashesOf hash entry).get alg
  let presentationIndex := objects.idxOf address
  let subject := "Transaction data entry with index " ++ toString entry.transactionDataIndex ++
    " for presentation " ++ credentialId ++ " with index " ++ toString presentationIndex
  if !entry.allowedAlgs.contains alg then
    .error (.response (subject ++ " is hashed using alg '" ++ alg ++
      "'. However transaction data only allows alg values " ++
      String.intercalate ", " entry.allowedAlgs ++ "."))
  else if !hash.truthy then
    .error (.response (subject ++ " is hashed using unsupported alg '" ++ alg ++
      "'. This library only supports verification of transaction data hashes using alg values " ++
      String.intercalate ", " supportedHashAlgorithms ++
      ". Either verify the hashes outside of this library, or " ++
      "limit the allowed alg values to the ones supported by this library."))
  else
    let credentialHashIndex := match hash with
      | str hash => credential.transactionDataHashes.idxOf? hash
      | _ => none
    match hash, credentialHashIndex with
    | str hash, some credentialHashIndex =>
        .ok { presentationIndex, hash, hashAlg := alg, credentialHashIndex }
    | _, _ => .error (.response
        (subject ++ " does not have a matching hash in the transaction_data_hashes"))

/-- The loop over the credentials of an entry. -/
def verifyCredentials (options : VerifyTransactionDataOptions)
    (entry : ParsedTransactionDataEntry) :
    List String → Except TransactionDataError VerifiedTransactionDataEntry
  | [] => .error (.response ("Transaction data entry with index " ++
      toString entry.transactionDataIndex ++
      " does not have a matching hash in any of the submitted credentials"))
  | credentialId :: credentialIds =>
    match options.member credentialId with
    | .absent => verifyCredentials options entry credentialIds
    -- the functions of `Object.prototype`, and itself, cannot be iterated over
    | .inherited => .error (.typeError "transactionDataHashesCredentials is not iterable")
    | .presentations objects => do
      let presentations ← objects.mapM (verifyPresentation hash options entry credentialId objects)
      return { transactionDataEntry := entry, credentialId, presentations }

def verifyTransactionDataEntry (options : VerifyTransactionDataOptions)
    (entry : ParsedTransactionDataEntry) :
    Except TransactionDataError VerifiedTransactionDataEntry :=
  verifyCredentials hash options entry entry.credentialIds

def verifyTransactionData (options : VerifyTransactionDataOptions) :
    Except TransactionDataError (List VerifiedTransactionDataEntry) := do
  let parsedTransactionData ← parseTransactionData options.transactionData
  parsedTransactionData.mapM (verifyTransactionDataEntry hash options)

/-! ## What the verification is for -/

/-- A presentation has the hash of an entry, under an algorithm that is supported and that the entry
allows. -/
structure Matches (entry : ParsedTransactionDataEntry)
    (credential : TransactionDataHashesCredential) : Prop where
  supported : credential.alg ∈ supportedHashAlgorithms
  allowed : credential.alg ∈ entry.allowedAlgs
  hash : hashOf hash entry credential.alg ∈ credential.transactionDataHashes

/-- All presentations of a credential have the hash of an entry. -/
def Authorises (options : VerifyTransactionDataOptions) (entry : ParsedTransactionDataEntry)
    (credentialId : String) : Prop :=
  ∃ objects, options.credentials.lookup credentialId = some (some objects) ∧
    ∀ address ∈ objects, Matches hash entry (options.object address)

/-- A result for an entry names a credential that authorises it, with each of its presentations at
its index and with an index at which the hash is. -/
structure IsResultFor (options : VerifyTransactionDataOptions) (entry : ParsedTransactionDataEntry)
    (result : VerifiedTransactionDataEntry) : Prop where
  transactionDataEntry : result.transactionDataEntry = entry
  mem : result.credentialId ∈ entry.credentialIds
  authorises : Authorises hash options entry result.credentialId
  presentations : ∀ objects, options.credentials.lookup result.credentialId = some (some objects) →
    List.Forall₂ (fun (address : ℕ × ℕ) (presentation : VerifiedPresentation) =>
      presentation.presentationIndex = address.2 ∧
        presentation.hashAlg = (options.object address.1).alg ∧
      presentation.hash = hashOf hash entry (options.object address.1).alg ∧
      (options.object address.1).transactionDataHashes[presentation.credentialHashIndex]? =
        some presentation.hash)
      objects.zipIdx result.presentations

/-- The verification succeeds where each entry has a credential that authorises it, and nowhere
else, with one result for each entry, in their order. -/
structure Verifies (options : VerifyTransactionDataOptions) : Prop where
  succeeds : (∃ results, verifyTransactionData hash options = .ok results) ↔
    ∃ entries, parseTransactionData options.transactionData = .ok entries ∧
      ∀ entry ∈ entries, ∃ credentialId ∈ entry.credentialIds,
      Authorises hash options entry credentialId
  results : ∀ results, verifyTransactionData hash options = .ok results →
    ∃ entries, parseTransactionData options.transactionData = .ok entries ∧
      List.Forall₂ (IsResultFor hash options) entries results

/-- The first credential of an entry that is there, as a member or inherited, authorises it, and its
presentations are distinct objects. -/
def FirstDecides (options : VerifyTransactionDataOptions)
    (entry : ParsedTransactionDataEntry) : Prop :=
  ∃ (credentialId : String) (objects : List ℕ), entry.credentialIds.find? options.has =
    some credentialId ∧
    options.credentials.lookup credentialId = some (some objects) ∧ objects.Nodup ∧
    ∀ address ∈ objects, Matches hash entry (options.object address)

/-! ## One entry -/

variable {hash} in
theorem truthy_str_hashOf (hne : ∀ data alg, hash data alg ≠ [])
    (entry : ParsedTransactionDataEntry) (alg : String) :
    (str (hashOf hash entry alg)).truthy = true := by
  have h : hashOf hash entry alg ≠ "" := by
    intro h
    have hlen := congrArg (fun s => s.toList.length) h
    dsimp only [hashOf] at hlen
    rw [String.toList_ofList, Base64url.length_encode, String.toList_empty, List.length_nil] at hlen
    have hpos := List.length_pos_iff.mpr (hne entry.encoded alg)
    split at hlen <;> omega
  simp [truthy, h]

/-- A member of the object `hashes` is the hash of an algorithm that is supported and allowed. -/
theorem hashesOf_get (entry : ParsedTransactionDataEntry) {alg : String}
    (hallowed : alg ∈ entry.allowedAlgs) :
    (hashesOf hash entry).get alg =
      if alg ∈ supportedHashAlgorithms then str (hashOf hash entry alg)
      else Value.inherited alg := by
  have hlookup : ∀ l : List String, (l.map fun a => (a, str (hashOf hash entry a))).lookup alg =
      if alg ∈ l then some (str (hashOf hash entry alg)) else none := by
    intro l
    induction l with
    | nil => rfl
    | cons a l ih =>
      by_cases ha : alg = a
      · subst ha
        simp
      · rw [List.map_cons, AssocList.lookup_cons_of_ne (Ne.symm ha), ih]
        simp [ha]
  have hmem : alg ∈ supportedHashAlgorithms.filter (entry.allowedAlgs.contains ·) ↔
      alg ∈ supportedHashAlgorithms := by
    rw [List.mem_filter, List.contains_iff_mem]
    exact and_iff_left hallowed
  rw [hashesOf, Value.get, hlookup]
  simp only [hmem]
  split <;> rfl

/-- What is returned for a presentation that has the hash of the entry. -/
theorem verifyPresentation_eq_ok (hne : ∀ data alg, hash data alg ≠ [])
    {options : VerifyTransactionDataOptions} {entry : ParsedTransactionDataEntry}
    {credentialId : String} {objects : List ℕ} {address : ℕ} {presentation : VerifiedPresentation} :
    verifyPresentation hash options entry credentialId objects address = .ok presentation ↔
      Matches hash entry (options.object address) ∧ ∃ index,
        (options.object address).transactionDataHashes.idxOf?
          (hashOf hash entry (options.object address).alg) = some index ∧
        presentation = ⟨objects.idxOf address, hashOf hash entry (options.object address).alg,
          (options.object address).alg, index⟩ := by
  unfold verifyPresentation
  dsimp only
  by_cases hallowed : (options.object address).alg ∈ entry.allowedAlgs
  · rw [hashesOf_get hash entry hallowed, if_neg (by simpa using hallowed)]
    by_cases hsupported : (options.object address).alg ∈ supportedHashAlgorithms
    · rw [if_pos hsupported, truthy_str_hashOf hne, if_neg (by decide)]
      dsimp only
      cases hindex : (options.object address).transactionDataHashes.idxOf?
          (hashOf hash entry (options.object address).alg) with
      | none => simp
      | some index =>
        have hmem : hashOf hash entry (options.object address).alg ∈
            (options.object address).transactionDataHashes := by
          rw [← List.isSome_idxOf?, hindex]
          rfl
        constructor
        · intro h
          cases h
          exact ⟨⟨hsupported, hallowed, hmem⟩, index, rfl, rfl⟩
        · rintro ⟨-, index', hindex', rfl⟩
          cases hindex'
          rfl
    · rw [if_neg hsupported]
      refine ⟨fun h => ?_, fun h => absurd h.1.supported hsupported⟩
      -- an inherited member is not a text
      unfold Value.inherited at h
      split_ifs at h
  · rw [if_pos (by simpa using hallowed)]
    exact ⟨nofun, fun h => absurd h.1.allowed hallowed⟩

/-- The presentations of a credential are verified one by one, each with the first index of its
object. -/
theorem mapM_verifyPresentation (hne : ∀ data alg, hash data alg ≠ [])
    {options : VerifyTransactionDataOptions} {entry : ParsedTransactionDataEntry}
    {credentialId : String} {objects : List ℕ} :
    (∃ presentations, objects.mapM (verifyPresentation hash options entry credentialId objects) =
      .ok presentations) ↔
      ∀ address ∈ objects, Matches hash entry (options.object address) := by
  constructor
  · rintro ⟨presentations, h⟩ address haddress
    obtain ⟨presentation, hp⟩ := exists_of_mapM h haddress
    exact ((verifyPresentation_eq_ok hash hne).mp hp).1
  · intro h
    refine exists_mapM_eq_ok fun address haddress => ?_
    have hmatches := h address haddress
    have hindex := List.isSome_idxOf?.mpr hmatches.hash
    obtain ⟨index, hindex⟩ := Option.isSome_iff_exists.mp hindex
    exact ⟨_, (verifyPresentation_eq_ok hash hne).mpr ⟨hmatches, index, hindex, rfl⟩⟩

theorem member_eq_presentations {options : VerifyTransactionDataOptions} {credentialId : String}
    {objects : List ℕ} :
    options.member credentialId = .presentations objects ↔
      options.credentials.lookup credentialId = some (some objects) := by
  unfold VerifyTransactionDataOptions.member
  split
  case h_1 objects' h => simp [h]
  case h_2 h => simp [h]
  case h_3 h =>
    rw [h]
    split_ifs <;> simp

/-- An entry is decided by the first of its credentials that is there. -/
theorem verifyTransactionDataEntry_eq_ok {options : VerifyTransactionDataOptions}
    {entry : ParsedTransactionDataEntry} {result : VerifiedTransactionDataEntry} :
    verifyTransactionDataEntry hash options entry = .ok result ↔
      ∃ (credentialId : String) (objects : List ℕ) (presentations : List VerifiedPresentation),
        entry.credentialIds.find? options.has = some credentialId ∧
        options.credentials.lookup credentialId = some (some objects) ∧
        objects.mapM (verifyPresentation hash options entry credentialId objects) =
          .ok presentations ∧
        result = ⟨entry, credentialId, presentations⟩ := by
  unfold verifyTransactionDataEntry
  induction entry.credentialIds with
  | nil => exact ⟨nofun, nofun⟩
  | cons id ids ih =>
    unfold verifyCredentials
    cases hmember : options.member id with
    | absent =>
      have hhas : options.has id = false := by rw [VerifyTransactionDataOptions.has, hmember]
      rw [List.find?_cons_of_neg (by rw [hhas]; decide)]
      exact ih
    | inherited =>
      have hhas : options.has id = true := by rw [VerifyTransactionDataOptions.has, hmember]
      rw [List.find?_cons_of_pos hhas]
      refine ⟨nofun, ?_⟩
      rintro ⟨credentialId, objects, presentations, hid, hlookup, -⟩
      cases hid
      rw [member_eq_presentations.mpr hlookup] at hmember
      cases hmember
    | presentations objects =>
      have hhas : options.has id = true := by rw [VerifyTransactionDataOptions.has, hmember]
      have hlookup := member_eq_presentations.mp hmember
      rw [List.find?_cons_of_pos hhas]
      constructor
      · intro h
        obtain ⟨presentations, hpresentations, h⟩ := bind_eq_ok.mp h
        cases h
        exact ⟨id, objects, presentations, rfl, hlookup, hpresentations, rfl⟩
      · rintro ⟨credentialId, objects', presentations, hid, hlookup', hpresentations, rfl⟩
        cases hid
        rw [hlookup] at hlookup'
        cases hlookup'
        exact bind_eq_ok.mpr ⟨presentations, hpresentations, rfl⟩

/-- The first indices of objects in a list are their own exactly where the objects are distinct. -/
theorem nodup_iff_idxOf {α : Type*} [DecidableEq α] {l : List α} :
    l.Nodup ↔ ∀ (i : ℕ) (h : i < l.length), l.idxOf l[i] = i := by
  refine ⟨fun hnodup i h => hnodup.idxOf_getElem i h, fun h => ?_⟩
  rw [List.nodup_iff_injective_get]
  intro i j hij
  have hi := h i i.isLt
  have hj := h j j.isLt
  rw [← List.get_eq_getElem, hij, List.get_eq_getElem, hj] at hi
  exact Fin.ext hi.symm

section

variable (hne : ∀ data alg, hash data alg ≠ []) {options : VerifyTransactionDataOptions}
  {entry : ParsedTransactionDataEntry} {result : VerifiedTransactionDataEntry}

include hne

/-- A result of the code is one for the entry exactly where the presentations are distinct
objects. -/
theorem isResultFor_iff (h : verifyTransactionDataEntry hash options entry = .ok result) :
    IsResultFor hash options entry result ↔
      ∀ objects, options.credentials.lookup result.credentialId = some (some objects) →
      objects.Nodup := by
  obtain ⟨credentialId, objects, presentations, hfind, hlookup, hpresentations, rfl⟩ :=
    (verifyTransactionDataEntry_eq_ok hash).mp h
  have hall := (mapM_verifyPresentation hash hne).mp ⟨presentations, hpresentations⟩
  obtain ⟨hlen, hget⟩ := List.forall₂_iff_get.mp (mapM_eq_ok.mp hpresentations)
  have hzip : ∀ i (hi : i < objects.zipIdx.length), objects.zipIdx.get ⟨i, hi⟩ =
      (objects.get ⟨i, List.length_zipIdx.symm ▸ hi⟩, i) := fun i hi => by simp
  constructor
  · intro hresult objects' hlookup'
    rw [hlookup] at hlookup'
    cases hlookup'
    obtain ⟨-, hindex⟩ := List.forall₂_iff_get.mp (hresult.presentations objects hlookup)
    refine nodup_iff_idxOf.mpr fun i hi => ?_
    have hown := (hindex i (by rwa [List.length_zipIdx]) (hlen ▸ hi)).1
    obtain ⟨-, index, -, hpresentation⟩ :=
      (verifyPresentation_eq_ok hash hne).mp (hget i hi (hlen ▸ hi))
    rw [hzip, hpresentation] at hown
    exact hown
  · intro hnodup
    have hindex := nodup_iff_idxOf.mp (hnodup objects hlookup)
    refine ⟨rfl, List.mem_of_find?_eq_some hfind, ⟨objects, hlookup, hall⟩,
      fun objects' hlookup' => ?_⟩
    rw [hlookup] at hlookup'
    cases hlookup'
    refine List.forall₂_iff_get.mpr ⟨by rw [List.length_zipIdx, hlen], fun i hi hi' => ?_⟩
    have hi'' : i < objects.length := hlen ▸ hi'
    obtain ⟨-, index, hidx, hpresentation⟩ :=
      (verifyPresentation_eq_ok hash hne).mp (hget i hi'' hi')
    rw [hzip, hpresentation]
    refine ⟨hindex i hi'', rfl, rfl, ?_⟩
    obtain ⟨hlt, hidx, -⟩ := List.idxOf?_eq_some_iff.mp hidx
    exact List.getElem?_eq_some_iff.mpr ⟨hlt, hidx⟩

theorem exists_verifyTransactionDataEntry (h : FirstDecides hash options entry) :
    ∃ result, verifyTransactionDataEntry hash options entry = .ok result ∧
    IsResultFor hash options entry result := by
  obtain ⟨credentialId, objects, hfind, hlookup, hnodup, hall⟩ := h
  have hpresentations : ∃ presentations,
      objects.mapM (verifyPresentation hash options entry credentialId objects) =
        .ok presentations :=
    (mapM_verifyPresentation hash hne).mpr hall
  obtain ⟨presentations, hpresentations⟩ := hpresentations
  have hresult := (verifyTransactionDataEntry_eq_ok hash).mpr ⟨_, _, _, hfind, hlookup,
    hpresentations, rfl⟩
  refine ⟨_, hresult, (isResultFor_iff hash hne hresult).mpr fun objects' hlookup' => ?_⟩
  rw [hlookup] at hlookup'
  cases hlookup'
  exact hnodup

theorem firstDecides_of_isResultFor (h : verifyTransactionDataEntry hash options entry = .ok result)
    (hresult : IsResultFor hash options entry result) : FirstDecides hash options entry := by
  obtain ⟨credentialId, objects, presentations, hfind, hlookup, hpresentations, rfl⟩ :=
    (verifyTransactionDataEntry_eq_ok hash).mp h
  exact ⟨credentialId, objects, hfind, hlookup,
    (isResultFor_iff hash hne h).mp hresult objects hlookup, (mapM_verifyPresentation hash hne).mp
      ⟨presentations, hpresentations⟩⟩

theorem authorises_of_ok (h : verifyTransactionDataEntry hash options entry = .ok result) :
    ∃ credentialId ∈ entry.credentialIds, Authorises hash options entry credentialId := by
  obtain ⟨credentialId, objects, presentations, hfind, hlookup, hpresentations, rfl⟩ :=
    (verifyTransactionDataEntry_eq_ok hash).mp h
  exact ⟨credentialId, List.mem_of_find?_eq_some hfind, objects, hlookup,
    (mapM_verifyPresentation hash hne).mp ⟨presentations, hpresentations⟩⟩

/-- The verification does what it is for exactly where, if each entry has a credential that
authorises it, the first credential of each entry that is there is one, with distinct objects as its
presentations. -/
theorem verifies_iff (options : VerifyTransactionDataOptions) :
    Verifies hash options ↔ ∀ entries, parseTransactionData options.transactionData = .ok entries →
      (∀ entry ∈ entries, ∃ credentialId ∈ entry.credentialIds,
        Authorises hash options entry credentialId) →
      ∀ entry ∈ entries, FirstDecides hash options entry := by
  constructor
  · intro h entries hentries hauthorised entry hentry
    obtain ⟨results, hresults⟩ := h.succeeds.mpr ⟨entries, hentries, hauthorised⟩
    obtain ⟨entries', hentries', hall⟩ := h.results results hresults
    rw [hentries] at hentries'
    cases hentries'
    rw [verifyTransactionData, hentries, ok_bind] at hresults
    obtain ⟨hlen, hget⟩ := List.forall₂_iff_get.mp (mapM_eq_ok.mp hresults)
    obtain ⟨-, hresult⟩ := List.forall₂_iff_get.mp hall
    obtain ⟨i, hi, rfl⟩ := List.mem_iff_getElem.mp hentry
    exact firstDecides_of_isResultFor hash hne (hget i hi (hlen ▸ hi)) (hresult i hi (hlen ▸ hi))
  · intro h
    have hok : ∀ results, verifyTransactionData hash options = .ok results → ∃ entries,
        parseTransactionData options.transactionData = .ok entries ∧
        entries.mapM (verifyTransactionDataEntry hash options) = .ok results :=
          fun results hresults =>
      bind_eq_ok.mp hresults
    have hauthorised : ∀ {entries : List ParsedTransactionDataEntry}
        {results : List VerifiedTransactionDataEntry},
        entries.mapM (verifyTransactionDataEntry hash options) = .ok results →
        ∀ entry ∈ entries, ∃ credentialId ∈ entry.credentialIds,
        Authorises hash options entry credentialId := by
      intro entries results hresults entry hentry
      obtain ⟨result, hresult⟩ := exists_of_mapM hresults hentry
      exact authorises_of_ok hash hne hresult
    refine ⟨⟨?_, ?_⟩, ?_⟩
    · rintro ⟨results, hresults⟩
      obtain ⟨entries, hentries, hresults⟩ := hok results hresults
      exact ⟨entries, hentries, hauthorised hresults⟩
    · rintro ⟨entries, hentries, hall⟩
      obtain ⟨results, hresults⟩ := exists_mapM_eq_ok fun entry hentry => by
        obtain ⟨result, hresult, -⟩ :=
          exists_verifyTransactionDataEntry hash hne (h entries hentries hall entry hentry)
        exact ⟨result, hresult⟩
      exact ⟨results, bind_eq_ok.mpr ⟨entries, hentries, hresults⟩⟩
    · intro results hresults
      obtain ⟨entries, hentries, hresults⟩ := hok results hresults
      refine ⟨entries, hentries, List.forall₂_iff_get.mpr ?_⟩
      obtain ⟨hlen, hget⟩ := List.forall₂_iff_get.mp (mapM_eq_ok.mp hresults)
      refine ⟨hlen, fun i hi hi' => ?_⟩
      have hfirst := h entries hentries (hauthorised hresults) _ (List.getElem_mem hi)
      obtain ⟨result, hresult, hisResult⟩ := exists_verifyTransactionDataEntry hash hne hfirst
      have hgot := hget i hi hi'
      rw [List.get_eq_getElem, hresult] at hgot
      cases hgot
      exact hisResult

end

end

/-- A request that two credentials may authorise, of which the second one has the hash. -/
def twoCredentials : VerifyTransactionDataOptions where
  transactionData := ["eyJ0eXBlIjoicWVzIiwiY3JlZGVudGlhbF9pZHMiOlsib25lIiwidHdvIl19"]
  credentials := [("one", some [0]), ("two", some [1])]
  object address := ⟨if address = 0 then ["random"]
    else ["GgzX9maxSw1iu5PEtdY1s-U19hxIE-KRFPWGpBGJAwQ"], none⟩

/-- The digest of its entry. -/
def entryHash : List UInt8 :=
  [26, 12, 215, 246, 102, 177, 75, 13, 98, 187, 147, 196, 181, 214, 53, 179, 229, 53, 246, 28, 72,
    19, 226, 145, 20, 245, 134, 164, 17, 137, 3, 4]

/-- The entry, the text of its digest, and what the verification returns. -/
theorem evaluated_twoCredentials :
    (parseTransactionData twoCredentials.transactionData).toOption.map
      (List.map fun entry => (entry.credentialIds, entry.allowedAlgs)) =
        some [(["one", "two"], ["sha-256"])] ∧
    String.ofList (Base64url.encode entryHash) = "GgzX9maxSw1iu5PEtdY1s-U19hxIE-KRFPWGpBGJAwQ" ∧
    (verifyTransactionData (fun _ _ => entryHash) twoCredentials).map (fun _ => ()) =
      .error (.response
      ("Transaction data entry with index 0 for presentation one with index 0 does not have a " ++
        "matching hash in the " ++
        "transaction_data_hashes")) := by
  refine ⟨?_, ?_, ?_⟩ <;> decide +kernel

theorem exists_entries_twoCredentials :
    ∃ entries, parseTransactionData twoCredentials.transactionData = .ok entries := by
  obtain ⟨hparsed, -, -⟩ := evaluated_twoCredentials
  cases hparse : parseTransactionData twoCredentials.transactionData with
  | ok entries => exact ⟨entries, rfl⟩
  | error e =>
    rw [hparse] at hparsed
    cases hparsed

/-- The entry names both credentials, and all objects but the first one match it. -/
theorem entry_twoCredentials {entries : List ParsedTransactionDataEntry}
    (hentries : parseTransactionData twoCredentials.transactionData = .ok entries) :
    ∀ entry ∈ entries, entry.credentialIds = ["one", "two"] ∧
      ∀ address, address ≠ 0 →
      Matches (fun _ _ => entryHash) entry (twoCredentials.object address) := by
  intro entry hentry
  obtain ⟨hparse, hdigest, -⟩ := evaluated_twoCredentials
  rw [hentries] at hparse
  have hmap := Option.some.inj hparse
  obtain ⟨entry', rfl⟩ := List.map_eq_singleton_iff.mp hmap |>.imp fun _ h => h.1
  obtain rfl := List.mem_singleton.mp hentry
  obtain ⟨hids, halgs⟩ := Prod.mk.inj (List.singleton_inj.mp hmap)
  refine ⟨hids, fun address haddress => ?_⟩
  have hobject : twoCredentials.object address = twoCredentials.object 1 := by
    rw [twoCredentials]
    simp [haddress]
  rw [hobject]
  refine ⟨by decide, by rw [halgs]; decide, ?_⟩
  have hhash : hashOf (fun _ _ => entryHash) entry (twoCredentials.object 1).alg =
      "GgzX9maxSw1iu5PEtdY1s-U19hxIE-KRFPWGpBGJAwQ" := hdigest
  rw [hhash]
  decide

theorem authorises_twoCredentials :
    ∀ entries, parseTransactionData twoCredentials.transactionData = .ok entries →
    ∀ entry ∈ entries, ∃ credentialId ∈ entry.credentialIds,
      Authorises (fun _ _ => entryHash) twoCredentials entry credentialId := by
  intro entries hentries entry hentry
  obtain ⟨hids, hmatches⟩ := entry_twoCredentials hentries entry hentry
  refine ⟨"two", by rw [hids]; decide, [1], by decide, fun address haddress => ?_⟩
  obtain rfl := List.mem_singleton.mp haddress
  exact hmatches 1 (by decide)

/-- The second credential authorises the entry, and the verification fails for the first one. -/
theorem verifyTransactionData_second_rejected :
    (verifyTransactionData (fun _ _ => entryHash) twoCredentials).map (fun _ => ()) =
      .error (.response
      ("Transaction data entry with index 0 for presentation one with index 0 does not have a " ++
        "matching hash in the " ++
        "transaction_data_hashes")) ∧ ¬ Verifies (fun _ _ => entryHash) twoCredentials := by
  obtain ⟨-, -, hrun⟩ := evaluated_twoCredentials
  refine ⟨hrun, fun h => ?_⟩
  obtain ⟨entries, hentries⟩ := exists_entries_twoCredentials
  obtain ⟨results, hresults⟩ :=
    h.succeeds.mpr ⟨entries, hentries, authorises_twoCredentials entries hentries⟩
  rw [hresults] at hrun
  cases hrun

/-- The same request without the first credential, and with two presentations of the second one. -/
def secondCredential : VerifyTransactionDataOptions :=
  { twoCredentials with credentials := [("two", some [1, 2])] }

/-- The verification is as it is to be, and succeeds. -/
theorem verifies_secondCredential : Verifies (fun _ _ => entryHash) secondCredential ∧
    ∃ results, verifyTransactionData (fun _ _ => entryHash) secondCredential = .ok results := by
  have hobjects : ∀ address ∈ [1, 2], address ≠ 0 := by decide
  have hverifies : Verifies (fun _ _ => entryHash) secondCredential :=
    (verifies_iff (fun _ _ => entryHash) (fun _ _ => by decide) secondCredential).mpr
      fun entries hentries _ entry hentry => by
        obtain ⟨hids, hmatches⟩ := entry_twoCredentials hentries entry hentry
        exact ⟨"two", [1, 2], by rw [hids]; decide, by decide, by decide,
          fun address haddress => hmatches address (hobjects address haddress)⟩
  obtain ⟨entries, hentries⟩ := exists_entries_twoCredentials
  refine ⟨hverifies, hverifies.succeeds.mpr ⟨entries, hentries, fun entry hentry => ?_⟩⟩
  obtain ⟨hids, hmatches⟩ := entry_twoCredentials hentries entry hentry
  exact ⟨"two", by rw [hids]; decide, [1, 2], by decide,
    fun address haddress => hmatches address (hobjects address haddress)⟩

end IdentityCommon.Openid4vp
