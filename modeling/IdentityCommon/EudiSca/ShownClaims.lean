import IdentityCommon.EudiSca.TransactionData

/-!
# What is shown of transaction data

When transaction data is rejected, and whether what is shown is complete.

## Main definitions

- `MustThrow`, `Complete` — what the matching is for
- `LastShown` — what is not replaced

## Main results

- `matchParsed_eq_ok` — when the matching returns, and what
- `mem_claims_iff` — what is shown of an entry
- `matchTransactionData_iff` — when the matching does what it is for
-/

namespace IdentityCommon.EudiSca

open Ecma AssocList Value IdentityCommon.Except KeyedFold

/-- How a value is selected by a path. -/
abbrev Selection := List (Option String) → Value → Option (String × Value)

/-- The first own member of the path. -/
def ownValueAndKey : Selection := walk readOwn

section

variable (zod : Formats) (metadata : CredentialMetadata) (preferredLocale : Option String)

/-! ## Purpose -/

/-- The claims of the type of an entry. -/
def HasClaims (td : TransactionData) (claims : List Claim) : Prop :=
  ∃ dataType, (transactionDataTypes metadata).lookup td.type = some dataType ∧
  dataType.claims = claims

/-- The path selects a value of the value type of the claim. -/
def Selects (select : Selection) (td : TransactionData) (claim : Claim) (key : String)
    (value : Value) : Prop :=
  select claim.path (obj td.payload) = some (key, value) ∧ claim.valueTypeMatches zod value = true

/-- The types of all entries are known. -/
def TypesKnown (entries : List TransactionData) : Prop :=
  ∀ td ∈ entries, ∃ claims, HasClaims metadata td claims

/-- Every mandatory claim that has a value selects one. -/
def MandatoryMet (select : Selection) (entries : List TransactionData) : Prop :=
  ∀ td ∈ entries, ∀ claims, HasClaims metadata td claims →
  ∀ claim ∈ claims, claim.isMandatory = true →
    claim.isLabelOnly = false → ∃ key value, Selects zod select td claim key value

/-- There is nothing to show, a type is not known or a mandatory claim is not met. -/
def MustThrow (entries : List TransactionData) : Prop :=
  entries = [] ∨ ¬ TypesKnown metadata entries ∨ ¬ MandatoryMet zod metadata ownValueAndKey entries

/-- A claim of an entry that is to be shown. -/
structure IsShown (select : Selection) (td : TransactionData) (claim : Claim) (key : String)
    (info : DisplayInfo) : Prop where
  label : ¬ (claim.isMandatory = true ∧ claim.isLabelOnly = true)
  selects : Selects zod select td claim key info.value
  valueType : info.valueType = claim.valueType
  display : info.display = claim.shownDisplay preferredLocale

/-- Every item that is to be shown is there under the type of its entry. -/
def Complete (entries : List TransactionData) (shown : Shown) : Prop :=
  ∀ td ∈ entries, ∀ claims, HasClaims metadata td claims → ∀ claim ∈ claims, ∀ key info,
    IsShown zod preferredLocale ownValueAndKey td claim key info →
      ∃ infos, shown.lookup td.type = some infos ∧ ∃ k, (k, info) ∈ infos

/-! ## Conditions -/

/-- The item is shown of the last entry of the type, by the last claim with the name, which is not
`__proto__`. -/
def LastShown (entries : List TransactionData) (claims : List Claim) (type : String)
    (info : DisplayInfo) : Prop :=
  ∃ before td after, entries = before ++ td :: after ∧ td.type = type ∧
  (∀ td' ∈ after, td'.type ≠ type) ∧
    ∃ front claim back key, claims = front ++ claim :: back ∧ key ≠ "__proto__" ∧
      IsShown zod preferredLocale getJsonPathValueAndKey td claim key info ∧
      ∀ claim' ∈ back, ∀ info',
      ¬ IsShown zod preferredLocale getJsonPathValueAndKey td claim' key info'

/-- Every item that is to be shown is not replaced, or the same as one that is not. -/
def NothingReplaced (entries : List TransactionData) : Prop :=
  ∀ td ∈ entries, ∀ claims, HasClaims metadata td claims → ∀ claim ∈ claims, ∀ key info,
    IsShown zod preferredLocale ownValueAndKey td claim key info →
      LastShown zod preferredLocale entries claims td.type info

/-! ## Items of an entry -/

/-- The item that is assigned for a claim. -/
def shownInfo (td : TransactionData) (claim : Claim) : Option (String × DisplayInfo) :=
  match getJsonPathValueAndKey claim.path (obj td.payload) with
  | none => none
  | some (key, value) =>
    if !(claim.isLabelOnly && claim.isMandatory) && claim.valueTypeMatches zod value &&
        key ≠ "__proto__" then
      some (key, ⟨value, claim.valueType, claim.shownDisplay preferredLocale⟩)
    else none

theorem addClaim_eq (td : TransactionData) :
    addClaim zod preferredLocale (obj td.payload) =
      writeItem (shownInfo zod preferredLocale td) := by
  funext prev claim
  unfold addClaim writeItem shownInfo
  cases getJsonPathValueAndKey claim.path (obj td.payload) with
  | none => rfl
  | some found =>
    obtain ⟨key, value⟩ := found
    dsimp only
    by_cases hlabel : (claim.isLabelOnly && claim.isMandatory) = true
    · rw [if_pos hlabel, hlabel]
      rfl
    rw [if_neg hlabel, Bool.not_eq_true] at *
    rw [hlabel]
    have hadded : (if claim.isMandatory = true then
        claim.isMandatory == claim.valueTypeMatches zod value
        else claim.valueTypeMatches zod value) = claim.valueTypeMatches zod value := by
      cases claim.isMandatory <;> cases claim.valueTypeMatches zod value <;> rfl
    rw [hadded]
    cases claim.valueTypeMatches zod value with
    | false => rfl
    | true =>
      by_cases hkey : key = "__proto__"
      · simp [assignInfo, hkey]
      · simp [assignInfo, hkey]

theorem shownInfo_eq_some {td : TransactionData} {claim : Claim} {key : String}
    {info : DisplayInfo} :
    shownInfo zod preferredLocale td claim = some (key, info) ↔
      key ≠ "__proto__" ∧ IsShown zod preferredLocale getJsonPathValueAndKey td claim key info := by
  unfold shownInfo
  constructor
  · intro h
    split at h
    case h_1 => cases h
    case h_2 key' value hselect =>
      split_ifs at h with hif
      cases h
      simp only [Bool.and_eq_true, Bool.not_eq_true', Bool.and_eq_false_iff,
        decide_eq_true_eq] at hif
      obtain ⟨⟨hlabel, hmatch⟩, hkey⟩ := hif
      refine ⟨hkey, ⟨?_, ⟨hselect, hmatch⟩, rfl, rfl⟩⟩
      rintro ⟨hmandatory, honly⟩
      rcases hlabel with hlabel | hlabel
      · rw [honly] at hlabel
        cases hlabel
      · rw [hmandatory] at hlabel
        cases hlabel
  · rintro ⟨hkey, hlabel, ⟨hselect, hmatch⟩, htype, hdisplay⟩
    rw [hselect]
    dsimp only
    rw [if_pos, ← htype, ← hdisplay]
    have hboth : (claim.isLabelOnly && claim.isMandatory) = false := by
      rw [Bool.and_eq_false_iff]
      by_contra hno
      push Not at hno
      exact hlabel ⟨eq_true_of_ne_false hno.2, eq_true_of_ne_false hno.1⟩
    rw [hboth, hmatch]
    simp [hkey]

/-- What is shown of an entry: for each name the item of the last claim that is shown under it. -/
theorem mem_claims_iff {td : TransactionData} {claims : List Claim} {key : String}
    {info : DisplayInfo} :
    (key, info) ∈ claims.foldl (addClaim zod preferredLocale (obj td.payload)) [] ↔
      ∃ front claim back, claims = front ++ claim :: back ∧ key ≠ "__proto__" ∧
        IsShown zod preferredLocale getJsonPathValueAndKey td claim key info ∧
        ∀ claim' ∈ back, ∀ info',
        ¬ IsShown zod preferredLocale getJsonPathValueAndKey td claim' key info' := by
  have hstart : (keys ([] : PayloadWithDisplayInfo)).Nodup := List.nodup_nil
  have hnodup := nodup_foldl_write (shownInfo zod preferredLocale td) claims hstart
  rw [addClaim_eq, mem_iff_lookup hnodup, lookup_foldl_write]
  refine exists_congr fun front => exists_congr fun claim => exists_congr fun back =>
    and_congr_right fun _ => ?_
  rw [shownInfo_eq_some, and_assoc]
  refine and_congr_right fun hkey => and_congr_right fun _ => forall₂_congr fun claim' _ =>
    forall_congr' fun info' => ?_
  rw [Ne, shownInfo_eq_some, and_iff_right hkey]

/-! ## Results -/

theorem claimPathMatchesPayload_iff {td : TransactionData} {claim : Claim} :
    claimPathMatchesPayload zod (obj td.payload) claim = true ↔
      (claim.isLabelOnly = false →
        ∃ key value, Selects zod getJsonPathValueAndKey td claim key value) := by
  unfold claimPathMatchesPayload Selects
  cases claim.isLabelOnly with
  | true => exact iff_of_true rfl nofun
  | false =>
    rw [if_neg Bool.false_ne_true, forall_prop_of_true rfl]
    cases hselect : getJsonPathValueAndKey claim.path (obj td.payload) with
    | none =>
      refine iff_of_false nofun ?_
      rintro ⟨key, value, heq, -⟩
      cases heq
    | some found =>
      obtain ⟨key, value⟩ := found
      constructor
      · exact fun h => ⟨key, value, rfl, h⟩
      · rintro ⟨key', value', heq, h⟩
        cases heq
        exact h

theorem claimsOf_eq_ok {td : TransactionData} {infos : PayloadWithDisplayInfo} :
    claimsOf zod (transactionDataTypes metadata) preferredLocale td = .ok infos ↔
      ∃ claims, HasClaims metadata td claims ∧
        (∀ claim ∈ claims, claim.isMandatory = true → claim.isLabelOnly = false →
          ∃ key value, Selects zod getJsonPathValueAndKey td claim key value) ∧
        infos = claims.foldl (addClaim zod preferredLocale (obj td.payload)) [] := by
  unfold claimsOf HasClaims
  cases (transactionDataTypes metadata).lookup td.type with
  | none =>
    refine iff_of_false ?_ ?_
    · dsimp only
      split_ifs <;> nofun
    · rintro ⟨claims, ⟨dataType, heq, -⟩, -⟩
      cases heq
  | some dataType =>
    have hall : (dataType.claims.filter Claim.isMandatory).all
        (claimPathMatchesPayload zod (obj td.payload)) = true ↔
        ∀ claim ∈ dataType.claims, claim.isMandatory = true → claim.isLabelOnly = false →
          ∃ key value, Selects zod getJsonPathValueAndKey td claim key value := by
      rw [List.all_eq_true]
      simp only [List.mem_filter, claimPathMatchesPayload_iff, and_imp]
    dsimp only
    constructor
    · intro h
      split_ifs at h with hif
      cases h
      exact ⟨dataType.claims, ⟨dataType, rfl, rfl⟩, hall.mp hif, rfl⟩
    · rintro ⟨claims, ⟨dataType', heq, rfl⟩, hmet, rfl⟩
      cases heq
      rw [if_pos (hall.mpr hmet)]

variable {zod metadata preferredLocale}

theorem HasClaims.unique {td : TransactionData} {claims claims' : List Claim}
    (h : HasClaims metadata td claims) (h' : HasClaims metadata td claims') : claims = claims' := by
  obtain ⟨dataType, hlookup, rfl⟩ := h
  obtain ⟨dataType', hlookup', rfl⟩ := h'
  rw [hlookup] at hlookup'
  cases hlookup'
  rfl

/-- Entries of one type have the same claims. -/
theorem HasClaims.of_type {td td' : TransactionData} {claims : List Claim}
    (h : HasClaims metadata td claims) (htype : td'.type = td.type) :
    HasClaims metadata td' claims := by
  obtain ⟨dataType, hlookup, hclaims⟩ := h
  exact ⟨dataType, htype ▸ hlookup, hclaims⟩

/-- The matching returns where there are entries, their types are known and the mandatory claims are
met, with what is inherited as well. -/
theorem matchParsed_eq_ok {entries : List TransactionData} {shown : Shown} :
    matchParsed zod entries metadata preferredLocale = .ok shown ↔
      (entries ≠ [] ∧ TypesKnown metadata entries ∧
        MandatoryMet zod metadata getJsonPathValueAndKey entries) ∧
        shown = entries.foldl (writeItem fun td =>
          (claimsOf zod (transactionDataTypes metadata) preferredLocale td).toOption.map
            fun infos => (td.type, infos)) [] := by
  have hclaims : (∀ td ∈ entries, ∃ infos,
      claimsOf zod (transactionDataTypes metadata) preferredLocale td = .ok infos) ↔
      TypesKnown metadata entries ∧ MandatoryMet zod metadata getJsonPathValueAndKey entries := by
    constructor
    · intro h
      refine ⟨fun td htd => ?_, fun td htd claims hclaims => ?_⟩
      · obtain ⟨infos, hinfos⟩ := h td htd
        obtain ⟨claims, hclaims, -⟩ := (claimsOf_eq_ok zod metadata preferredLocale).mp hinfos
        exact ⟨claims, hclaims⟩
      · obtain ⟨infos, hinfos⟩ := h td htd
        obtain ⟨claims', hclaims', hmet, -⟩ :=
          (claimsOf_eq_ok zod metadata preferredLocale).mp hinfos
        exact hclaims'.unique hclaims ▸ hmet
    · rintro ⟨hknown, hmet⟩ td htd
      obtain ⟨claims, hclaims⟩ := hknown td htd
      exact ⟨_, (claimsOf_eq_ok zod metadata preferredLocale).mpr ⟨claims, hclaims,
        hmet td htd claims hclaims, rfl⟩⟩
  unfold matchParsed
  by_cases hnil : entries = []
  · rw [if_pos hnil]
    exact iff_of_false nofun fun h => h.1.1 hnil
  · rw [if_neg hnil, and_iff_right hnil, ← hclaims]
    exact foldlM_insert_eq_ok

theorem exists_matchParsed {entries : List TransactionData} (preferredLocale : Option String)
    (h : entries ≠ [] ∧ TypesKnown metadata entries ∧
      MandatoryMet zod metadata getJsonPathValueAndKey entries) :
    ∃ shown, matchParsed zod entries metadata preferredLocale = .ok shown :=
  ⟨_, matchParsed_eq_ok.mpr ⟨h, rfl⟩⟩

/-- What is shown under a type is what is shown of the last entry of the type. -/
theorem lookup_shown {entries : List TransactionData} {shown : Shown}
    (h : matchParsed zod entries metadata preferredLocale = .ok shown) {type : String}
    {infos : PayloadWithDisplayInfo} :
    shown.lookup type = some infos ↔ ∃ before td after, entries = before ++ td :: after ∧
    td.type = type ∧
      (∀ td' ∈ after, td'.type ≠ type) ∧
      claimsOf zod (transactionDataTypes metadata) preferredLocale td = .ok infos := by
  obtain ⟨⟨-, hknown, hmet⟩, rfl⟩ := matchParsed_eq_ok.mp h
  have hok : ∀ td ∈ entries, ∃ infos,
      claimsOf zod (transactionDataTypes metadata) preferredLocale td = .ok infos := by
    intro td htd
    obtain ⟨claims, hclaims⟩ := hknown td htd
    exact ⟨_, (claimsOf_eq_ok zod metadata preferredLocale).mpr ⟨claims, hclaims,
      hmet td htd claims hclaims, rfl⟩⟩
  rw [lookup_foldl_write]
  constructor
  · rintro ⟨before, td, after, rfl, hwrite, hafter⟩
    obtain ⟨infos', hinfos', heq⟩ := Option.map_eq_some_iff.mp hwrite
    cases heq
    refine ⟨before, td, after, rfl, rfl, fun td' htd' htype => ?_, toOption_eq_some.mp hinfos'⟩
    obtain ⟨infos'', hinfos''⟩ := hok td' (List.mem_append_right _ (List.mem_cons_of_mem _ htd'))
    apply hafter td' htd' infos''
    rw [hinfos'', htype]
    rfl
  · rintro ⟨before, td, after, rfl, rfl, hafter, hinfos⟩
    refine ⟨before, td, after, rfl, by rw [hinfos]; rfl, fun td' htd' infos' hwrite => ?_⟩
    obtain ⟨infos'', -, heq⟩ := Option.map_eq_some_iff.mp hwrite
    exact hafter td' htd' (Prod.mk.inj heq).1

/-- What is shown is complete where nothing is replaced. -/
theorem complete_iff {entries : List TransactionData} {shown : Shown}
    (h : matchParsed zod entries metadata preferredLocale = .ok shown) :
    Complete zod metadata preferredLocale entries shown ↔
      NothingReplaced zod metadata preferredLocale entries := by
  have hmet := (matchParsed_eq_ok.mp h).1.2.2
  refine forall₂_congr fun td htd => forall₂_congr fun claims hclaims =>
      forall₂_congr fun claim _ =>
    forall₂_congr fun key info => forall_congr' fun _ => ?_
  constructor
  · rintro ⟨infos, hlookup, k, hmem⟩
    obtain ⟨before, td', after, heq, htype, hafter, hinfos⟩ := (lookup_shown h).mp hlookup
    obtain ⟨claims', hclaims', -, rfl⟩ := (claimsOf_eq_ok zod metadata preferredLocale).mp hinfos
    obtain rfl := hclaims'.unique (hclaims.of_type htype)
    obtain ⟨front, claim', back, hsplit, hkey, hshown, hback⟩ :=
      (mem_claims_iff zod preferredLocale).mp hmem
    exact ⟨before, td', after, heq, htype, hafter, front, claim', back, k, hsplit,
      hkey, hshown, hback⟩
  · rintro ⟨before, td', after, heq, htype, hafter, front, claim', back, k, hsplit,
      hkey, hshown, hback⟩
    have htd' : td' ∈ entries := heq ▸ List.mem_append_right _ List.mem_cons_self
    have hclaims' := hclaims.of_type htype
    have hinfos := (claimsOf_eq_ok zod metadata preferredLocale).mpr
      ⟨claims, hclaims', hmet td' htd' claims hclaims', rfl⟩
    exact ⟨_, (lookup_shown h).mpr ⟨before, td', after, heq, htype, hafter, hinfos⟩, k,
      (mem_claims_iff zod preferredLocale).mpr ⟨front, claim', back, hsplit, hkey, hshown, hback⟩⟩

theorem matchParsed_eq_error {entries : List TransactionData} :
    (∃ e, matchParsed zod entries metadata preferredLocale = .error e) ↔
      ¬ (entries ≠ [] ∧ TypesKnown metadata entries ∧
        MandatoryMet zod metadata getJsonPathValueAndKey entries) := by
  cases hresult : matchParsed zod entries metadata preferredLocale with
  | error e =>
    refine iff_of_true ⟨e, rfl⟩ fun h => ?_
    obtain ⟨shown, hok⟩ := exists_matchParsed preferredLocale h
    rw [hresult] at hok
    cases hok
  | ok shown => exact iff_of_false nofun fun h => h (matchParsed_eq_ok.mp hresult).1

theorem mustThrow_iff {entries : List TransactionData} : MustThrow zod metadata entries ↔
    ¬ (entries ≠ [] ∧ TypesKnown metadata entries ∧
      MandatoryMet zod metadata ownValueAndKey entries) := by
  unfold MustThrow
  tauto

end

/-- What the matching is for, with metadata that is accepted. -/
structure ShowsAll (zod : Formats) (transactionData : List String) (credentialMetadata : Value)
    (metadata : CredentialMetadata) (preferredLocale : Option String) : Prop where
  throws : (∃ e, matchTransactionDataToTransactionDataType zod transactionData credentialMetadata
    preferredLocale = .error e) ↔
    MustThrow zod metadata (decodable transactionData)
  complete : ∀ shown, matchTransactionDataToTransactionDataType zod transactionData
    credentialMetadata preferredLocale =
    .ok shown → Complete zod metadata preferredLocale (decodable transactionData) shown

/-- Where entries of known types are left to be matched: own members alone decide whether the
mandatory claims are met, and nothing that is to be shown is replaced. -/
structure NothingLost (zod : Formats) (metadata : CredentialMetadata)
    (preferredLocale : Option String) (entries : List TransactionData) : Prop where
  own : MandatoryMet zod metadata getJsonPathValueAndKey entries ↔
    MandatoryMet zod metadata ownValueAndKey entries
  kept : MandatoryMet zod metadata getJsonPathValueAndKey entries →
    NothingReplaced zod metadata preferredLocale entries

theorem matchTransactionData_iff (zod : Formats) (transactionData : List String)
    (credentialMetadata : Value) (preferredLocale : Option String) {metadata : CredentialMetadata}
    (h : parseCredentialMetadata credentialMetadata = some metadata) :
    ShowsAll zod transactionData credentialMetadata metadata preferredLocale ↔
      (decodable transactionData ≠ [] → TypesKnown metadata (decodable transactionData) →
        NothingLost zod metadata preferredLocale (decodable transactionData)) := by
  have hmatch : matchTransactionDataToTransactionDataType zod transactionData credentialMetadata
      preferredLocale =
      matchParsed zod (decodable transactionData) metadata preferredLocale := by
    rw [matchTransactionDataToTransactionDataType, h]
  constructor
  · rintro ⟨hthrows, hcomplete⟩ hne hknown
    rw [hmatch, matchParsed_eq_error, mustThrow_iff, not_iff_not] at hthrows
    rw [hmatch] at hcomplete
    refine ⟨⟨fun hmet => (hthrows.mp ⟨hne, hknown, hmet⟩).2.2,
      fun hmet => (hthrows.mpr ⟨hne, hknown, hmet⟩).2.2⟩, fun hmet => ?_⟩
    obtain ⟨shown, hok⟩ := exists_matchParsed preferredLocale ⟨hne, hknown, hmet⟩
    exact (complete_iff hok).mp (hcomplete shown hok)
  · intro hlost
    refine ⟨?_, fun shown hok => ?_⟩
    · rw [hmatch, matchParsed_eq_error, mustThrow_iff, not_iff_not]
      exact and_congr_right fun hne => and_congr_right fun hknown => (hlost hne hknown).own
    · rw [hmatch] at hok
      obtain ⟨hne, hknown, hmet⟩ := (matchParsed_eq_ok.mp hok).1
      exact (complete_iff hok).mpr ((hlost hne hknown).kept hmet)

/-! ## Two entries of one type -/

def payment (amount : String) : Value :=
  obj [("type", str "urn:eudi:sca:example:payment:1"), ("credential_ids", arr [str "sca"]),
    ("payload", obj [("amount", str amount)])]

def encoded (value : Value) : String :=
  Common.base64urlEncode (String.ofList ((Json.stringify value).getD []))

theorem parseTransactionData_encoded {value : Value} (h : value.IsJson) :
    parseTransactionData (encoded value) = zTransactionData value := by
  obtain ⟨text, htext, -⟩ := Option.bind_eq_some_iff.mp (Json.parse_stringify h)
  rw [parseTransactionData, encoded, htext, Option.getD_some,
    Common.base64urlDecodeJson_encode h htext]
  rfl

def paymentData (amount : String) : TransactionData :=
  ⟨"urn:eudi:sca:example:payment:1", ["sca"], none, [("amount", str amount)]⟩

theorem decodable_payments (amounts : List String) :
    decodable (amounts.map fun amount => encoded (payment amount)) = amounts.map paymentData := by
  have hparse : ∀ amount, parseTransactionData (encoded (payment amount)) =
      some (paymentData amount) := fun amount =>
    (parseTransactionData_encoded
      (IsJson.of_isJson (show isJson (payment amount) = true by rfl))).trans rfl
  rw [decodable, List.filterMap_map]
  have hcomp : parseTransactionData ∘ (fun amount => encoded (payment amount)) =
      some ∘ paymentData := by
    funext amount
    rw [Function.comp_apply, hparse amount, Function.comp_apply]
  rw [hcomp, List.filterMap_eq_map]

def amountClaim : Claim := ⟨[some "amount"], none, none, none⟩

def paymentMetadata : Value :=
  obj [("transaction_data_types", obj [("urn:eudi:sca:example:payment:1",
    obj [("claims", arr [obj [("path", arr [str "amount"])]]), ("ui_labels", obj [])])])]

theorem isTransactionDataUrn_payment :
    isTransactionDataUrn "urn:eudi:sca:example:payment:1" = true := by decide +kernel

theorem parse_paymentMetadata :
    parseCredentialMetadata paymentMetadata =
      some ⟨[("urn:eudi:sca:example:payment:1", ⟨[amountClaim]⟩)]⟩ := by
  have htype : zTransactionDataType ("urn:eudi:sca:example:payment:1",
      obj [("claims", arr [obj [("path", arr [str "amount"])]]), ("ui_labels", obj [])]) =
      some ("urn:eudi:sca:example:payment:1", ⟨[amountClaim]⟩) := by
    rw [zTransactionDataType, if_pos isTransactionDataUrn_payment]
    rfl
  have htypes : zTransactionDataTypes (obj [("urn:eudi:sca:example:payment:1",
      obj [("claims", arr [obj [("path", arr [str "amount"])]]), ("ui_labels", obj [])])]) =
      some [("urn:eudi:sca:example:payment:1", ⟨[amountClaim]⟩)] := by
    rw [zTransactionDataTypes, List.filter_cons_of_pos (by decide), List.filter_nil,
      List.mapM_cons, htype]
    rfl
  rw [paymentMetadata, parseCredentialMetadata]
  exact congrArg (Option.map _) htypes

def noFormats : Formats := ⟨fun _ => false, fun _ => false, fun _ => false, fun _ => false⟩

/-- The metadata of one type with one claim that need not be there. -/
def payments : CredentialMetadata := ⟨[("urn:eudi:sca:example:payment:1", ⟨[amountClaim]⟩)]⟩

theorem hasClaims_payment (amount : String) :
    HasClaims payments (paymentData amount) [amountClaim] := by
  refine ⟨⟨[amountClaim]⟩, ?_, rfl⟩
  rw [transactionDataTypes, payments, List.filter_cons_of_pos (by decide +kernel), List.filter_nil]
  exact lookup_cons_of_eq _ _ _

theorem returns_payments {amounts : List String} (h : amounts ≠ []) :
    amounts.map paymentData ≠ [] ∧ TypesKnown payments (amounts.map paymentData) ∧
      MandatoryMet noFormats payments getJsonPathValueAndKey (amounts.map paymentData) := by
  refine ⟨List.map_eq_nil_iff.not.mpr h, List.forall_mem_map.mpr fun amount _ =>
    ⟨_, hasClaims_payment amount⟩, ?_⟩
  refine List.forall_mem_map.mpr fun amount _ claims hclaims => ?_
  obtain rfl := hclaims.unique (hasClaims_payment amount)
  exact List.forall_mem_singleton.mpr nofun

theorem isShown_payment (amount : String) :
    IsShown noFormats none ownValueAndKey (paymentData amount) amountClaim "amount"
      ⟨str amount, none, none⟩ :=
  ⟨nofun, ⟨rfl, rfl⟩, rfl, rfl⟩

/-- Of two payments only the second amount is shown. -/
theorem not_showsAll_of_two_payments :
    ¬ ShowsAll noFormats (["1.00 EUR", "2.00 EUR"].map fun amount => encoded (payment amount))
      paymentMetadata payments
      none := by
  rintro ⟨-, hcomplete⟩
  rw [matchTransactionDataToTransactionDataType, parse_paymentMetadata,
    decodable_payments] at hcomplete
  obtain ⟨shown, hok⟩ :=
    exists_matchParsed none (returns_payments (List.cons_ne_nil "1.00 EUR" ["2.00 EUR"]))
  have hnone := (complete_iff hok).mp (hcomplete shown hok)
  obtain ⟨before, td, after, heq, htype, hafter, front, claim, back, key, hclaims, -, hshown, -⟩ :=
    hnone (paymentData "1.00 EUR") List.mem_cons_self _
      (hasClaims_payment _) amountClaim List.mem_cons_self _ _ (isShown_payment "1.00 EUR")
  have htd : td = paymentData "2.00 EUR" := by
    match before, heq with
    | [], heq =>
      cases heq
      exact absurd rfl (hafter (paymentData "2.00 EUR") (List.mem_map_of_mem List.mem_cons_self))
    | [_], heq =>
      cases heq
      rfl
    | _ :: _ :: before, heq =>
      have hlength := congrArg List.length heq
      simp at hlength
  have hclaim : claim = amountClaim :=
    List.mem_singleton.mp (hclaims ▸ List.mem_append_right _ List.mem_cons_self)
  subst htd hclaim
  have hselected : some ("amount", str "2.00 EUR") = some (key, str "1.00 EUR") := hshown.selects.1
  have hvalue := (Prod.mk.inj (Option.some.inj hselected)).2
  exact absurd (Leaf.str.inj (Value.leaf.inj hvalue)) (by decide)

theorem matchTransactionData_iff_payment :
    ShowsAll noFormats (["1.00 EUR"].map fun amount => encoded (payment amount)) paymentMetadata
      payments none ↔
      (decodable (["1.00 EUR"].map fun amount => encoded (payment amount)) ≠ [] →
        TypesKnown payments (decodable (["1.00 EUR"].map fun amount => encoded (payment amount))) →
        NothingLost noFormats payments none
          (decodable (["1.00 EUR"].map fun amount => encoded (payment amount)))) :=
  matchTransactionData_iff noFormats _ paymentMetadata none parse_paymentMetadata

end IdentityCommon.EudiSca
