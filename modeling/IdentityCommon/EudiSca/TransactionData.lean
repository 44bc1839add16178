import IdentityCommon.Common.Base64url
import IdentityCommon.EudiSca.CredentialMetadata
import IdentityCommon.Lib.KeyedFold

/-!
# Transaction data

What a wallet shows of transaction data: the claims that the metadata of a credential lists for the
type of each entry.

## Main definitions

- `getJsonPathValueAndKey` — the value that a path selects
- `matchValueTypeToValue` — values of a value type
- `matchTransactionDataToTransactionDataType` — what is shown, by type and by the last component of
  the path

## Design notes

The formats of dates and URLs are those of the schema library, and are parameters.
-/

namespace IdentityCommon.EudiSca

open Ecma AssocList Value Common IdentityCommon.Except

/-! ## Paths -/

/-- `typeof data === 'object' && data !== null`. -/
def isObjectType : Value → Bool
  | arr _ | obj _ | leaf .objectPrototype | leaf (.host _) => true
  | _ => false

/-- `data[key]`. The only objects of another class that are reached are `Array.prototype`. -/
def read (key : String) : Value → Value
  | leaf (.host _) =>
    if key = "length" then num (.ofDecimal 0 0)
    else if key = "__proto__" then leaf .objectPrototype
    else if key ∈ arrayPrototypeNames then leaf (.builtin key)
    else inherited key
  | value => property key value

/-- The own member of an object or an array. -/
def readOwn (key : String) : Value → Value
  | obj members => (members.lookup key).getD undefined
  | arr items => match arrayIndex key with
    | some i => items[i]?.getD undefined
    | none => if key = "length" then num (.ofDecimal items.length 0) else undefined
  | _ => undefined

/-- The index that orders a member before those that are no indices. -/
def memberIndex (key : String) : Option ℕ := (arrayIndex key).filter (· < 4294967295)

/-- `Object.entries(data)`: the indices in their order, then the other members. -/
def entries : Value → List (String × Value)
  | obj members =>
    (members.filter fun m => (memberIndex m.1).isSome).insertionSort
        (fun m m' => (memberIndex m.1).getD 0 ≤ (memberIndex m'.1).getD 0) ++
      members.filter fun m => (memberIndex m.1).isNone
  | arr items => items.zipIdx.map fun item => (toString item.2, item.1)
  | _ => []

/-- A value that is not `undefined`, under a key. -/
def defined (key : String) : Value → Option (String × Value)
  | undefined => none
  | value => some (key, value)

/-- The walk along a path, with what is read of an object. -/
def walk (read : String → Value → Value) : List (Option String) → Value → Option (String × Value)
  | [], _ => none
  | head :: tail, data =>
    if !isObjectType data then none
    else
      let entries := match head with
        | none => entries data
        | some key => [(key, read key data)]
      if tail = [] then entries.head?.bind fun entry => defined entry.1 entry.2
      else entries.findSome? fun entry => walk read tail entry.2

def getJsonPathValueAndKey (query : List (Option String)) (data : Value) :
    Option (String × Value) := walk read query data

/-! ## Values -/

def iso4217Codes : List String :=
  ["AED", "AFN", "ALL", "AMD", "ANG", "AOA", "ARS", "AUD", "AWG", "AZN", "BAM", "BBD", "BDT", "BGN",
    "BHD", "BIF", "BMD", "BND", "BOB", "BRL", "BSD", "BTN", "BWP", "BYN", "BZD", "CAD", "CDF",
    "CHF", "CLP", "CNY", "COP", "CRC", "CUP", "CVE", "CZK", "DJF", "DKK", "DOP", "DZD", "EGP",
    "ERN", "ETB", "EUR", "FJD", "FKP", "GBP", "GEL", "GHS", "GIP", "GMD", "GNF", "GTQ", "GYD",
    "HKD", "HNL", "HTG", "HUF", "IDR", "ILS", "INR", "IQD", "IRR", "ISK", "JMD", "JOD", "JPY",
    "KES", "KGS", "KHR", "KMF", "KPW", "KRW", "KWD", "KYD", "KZT", "LAK", "LBP", "LKR", "LRD",
    "LSL", "LYD", "MAD", "MDL", "MGA", "MKD", "MMK", "MNT", "MOP", "MRU", "MUR", "MVR", "MWK",
    "MXN", "MYR", "MZN", "NAD", "NGN", "NIO", "NOK", "NPR", "NZD", "OMR", "PAB", "PEN", "PGK",
    "PHP", "PKR", "PLN", "PYG", "QAR", "RON", "RSD", "RUB", "RWF", "SAR", "SBD", "SCR", "SDG",
    "SEK", "SGD", "SHP", "SLE", "SOS", "SRD", "SSP", "STN", "SVC", "SYP", "SZL", "THB", "TJS",
    "TMT", "TND", "TOP", "TRY", "TTD", "TVD", "TWD", "TZS", "UAH", "UGX", "USD", "UYU", "UZS",
    "VES", "VND", "VUV", "WST", "XAF", "XCD", "XOF", "XPF", "YER", "ZAR", "ZMW", "ZWL"]

/-- `/^\d+\.\d+ [A-Z]{3}$/`, and a code that is known. -/
def isIso4217Amount (s : String) : Bool :=
  let (whole, rest) := s.toList.span Char.isDigit
  match rest with
  | '.' :: rest =>
    let (fraction, rest) := rest.span Char.isDigit
    match rest with
    | ' ' :: code => whole ≠ [] && fraction ≠ [] && code.length = 3 && code.all Char.isUpper &&
        String.ofList code ∈ iso4217Codes
    | _ => false
  | _ => false

def frequencies : List String :=
  ["INDA", "DAIL", "WEEK", "TOWK", "TWMN", "MNTH", "TOMN", "QUTR", "FOMN", "SEMI", "YEAR", "TYEA"]

/-- The formats of texts: `z.url()`, `z.iso.date()`, `z.iso.time()` and `z.iso.datetime()`. -/
structure Formats where
  url : String → Bool
  date : String → Bool
  time : String → Bool
  datetime : String → Bool

def textOf (accepts : String → Bool) : Value → Bool
  | str s => accepts s
  | _ => false

def isBoolean : Value → Bool
  | .leaf (.bool _) => true
  | _ => false

def matchValueTypeToValue (zod : Formats) (valueType : String) (value : Value) : Bool :=
  match ValueType.ofText valueType with
  | some .boolean => isBoolean value
  | some .frequency => textOf (· ∈ frequencies) value
  | some .image => textOf zod.url value
  | some .isoDate => textOf zod.date value
  | some .isoTime => textOf zod.time value
  | some .isoDateTime => textOf zod.datetime value
  | some .isoCurrency => textOf (· ∈ iso4217Codes) value
  | some .isoCurrencyAmount => textOf isIso4217Amount value
  | some .labelOnly => true
  | some .miniMarkdown => textOf (fun _ => true) value
  | some .url => textOf zod.url value
  -- a value type of another name
  | none => true

namespace Claim

/-- `value_type ? matchValueTypeToValue(value_type, value) : true`. -/
def valueTypeMatches (zod : Formats) (claim : Claim) (value : Value) : Bool :=
  match claim.valueType with
  | some valueType => if valueType = "" then true else matchValueTypeToValue zod valueType value
  | none => true

def isMandatory (claim : Claim) : Bool := claim.mandatory.getD false

def isLabelOnly (claim : Claim) : Bool := claim.valueType = some ValueType.labelOnly.text

/-- The displays that are shown: the first one of the preferred locale, or all. -/
def shownDisplay (claim : Claim) (preferredLocale : Option String) :
    Option (List CredentialMetadataDisplay) :=
  let preferredDisplay := match preferredLocale with
    | none => none
    | some locale =>
      if locale = "" then none
      else claim.display.bind fun display => display.find? fun entry => entry.locale = some locale
  match preferredDisplay with
  | some entry => some [entry]
  | none => claim.display

end Claim

/-! ## Entries -/

structure TransactionData where
  type : String
  credentialIds : List String
  transactionHashAlg : Option String
  payload : List (String × Value)

/-- `z.record(z.string(), z.unknown())`. -/
def zPayload : Value → Option (List (String × Value))
  | obj members => some (members.filter (·.1 ≠ "__proto__"))
  | _ => none

def zTransactionData : Value → Option TransactionData
  | obj members => do
    let type ← zString (memberOf members "type")
    let credentialIds ← array zString (memberOf members "credential_ids")
    let transactionHashAlg ← optional zString (memberOf members "transaction_hash_alg")
    let payload ← zPayload (memberOf members "payload")
    some ⟨type, credentialIds, transactionHashAlg, payload⟩
  | _ => none

/-- None where it throws. -/
def parseTransactionData (txnData : String) : Option TransactionData :=
  (base64urlDecodeJson txnData).toOption.bind zTransactionData

/-! ## Matching -/

structure DisplayInfo where
  value : Value
  valueType : Option String
  display : Option (List CredentialMetadataDisplay)

/-- The own members of `PayloadWithDisplayInfo`. -/
abbrev PayloadWithDisplayInfo := List (String × DisplayInfo)

/-- What is thrown: by the function, by the schema of the metadata, or by the engine. -/
inductive Thrown
  | error (message : String)
  | zodError
  | typeError
  deriving DecidableEq

/-- `prev[key] = info`, where `__proto__` is assigned to the prototype. -/
def assignInfo (prev : PayloadWithDisplayInfo) (key : String) (info : DisplayInfo) :
    PayloadWithDisplayInfo :=
  if key = "__proto__" then prev else insert key info prev

/-- The first reduction over the claims. -/
def addClaim (zod : Formats) (preferredLocale : Option String) (payload : Value)
    (prev : PayloadWithDisplayInfo) (claim : Claim) : PayloadWithDisplayInfo :=
  match getJsonPathValueAndKey claim.path payload with
  | none => prev
  | some (key, value) =>
    if claim.isLabelOnly && claim.isMandatory then prev
    else
      let isValid := claim.valueTypeMatches zod value
      let shouldBeAdded := if claim.isMandatory then claim.isMandatory == isValid else isValid
      if shouldBeAdded then assignInfo prev key ⟨value, claim.valueType,
        claim.shownDisplay preferredLocale⟩
      else prev

/-- The test of a mandatory claim. -/
def claimPathMatchesPayload (zod : Formats) (payload : Value) (claim : Claim) : Bool :=
  if claim.isLabelOnly then true
  else match getJsonPathValueAndKey claim.path payload with
    | none => false
    | some (_, value) => claim.valueTypeMatches zod value

/-- The claims that are named in the error. -/
def isInvalidClaim (zod : Formats) (payload : Value) (claim : Claim) : Bool :=
  if !claim.isMandatory then false
  else match getJsonPathValueAndKey claim.path payload with
    | none => true
    | some (_, value) => if claim.isLabelOnly then true else !claim.valueTypeMatches zod value

def pathText (path : List (Option String)) : String :=
  "[" ++ ", ".intercalate (path.map (·.getD "")) ++ "]"

/-- What is shown of an entry. -/
def claimsOf (zod : Formats) (types : List (String × CredentialMetadataClaimsDataType))
    (preferredLocale : Option String) (td : TransactionData) :
    Except Thrown PayloadWithDisplayInfo :=
  match types.lookup td.type with
  | none =>
    if (inherited td.type).truthy then .error .typeError
    else .error (.error ("Could not find transaction data type in credential metadata for key '" ++
      td.type ++ "'"))
  | some transactionDataType =>
    let payload := obj td.payload
    if (transactionDataType.claims.filter Claim.isMandatory).all
        (claimPathMatchesPayload zod payload) then
      .ok (transactionDataType.claims.foldl (addClaim zod preferredLocale payload) [])
    else
      .error (.error ("Credential is not compatible. Missing paths: [" ++
        ", ".intercalate ((transactionDataType.claims.filter (isInvalidClaim zod payload)).map
          fun claim => pathText claim.path) ++
        "]"))

/-- What is shown of all entries, by their types. No type has the name `__proto__`. -/
abbrev Shown := List (String × PayloadWithDisplayInfo)

def transactionDataTypes (metadata : CredentialMetadata) :
    List (String × CredentialMetadataClaimsDataType) :=
  metadata.transactionDataTypes.filter fun m => urnPrefix.toList <+: m.1.toList

def addEntry (zod : Formats) (metadata : CredentialMetadata)
    (preferredLocale : Option String) (prev : Shown) (td : TransactionData) : Except Thrown Shown :=
  (claimsOf zod (transactionDataTypes metadata) preferredLocale td).map fun claims =>
    insert td.type claims prev

/-- `__matchTransactionDataToTransactionDataType`. -/
def matchParsed (zod : Formats) (transactionData : List TransactionData)
    (metadata : CredentialMetadata) (preferredLocale : Option String) : Except Thrown Shown :=
  if transactionData = [] then
    .error (.error ("No transaction data found with the required prefix of '" ++ urnPrefix ++ "'"))
  else transactionData.foldlM (addEntry zod metadata preferredLocale) []

/-- The entries that can be decoded. -/
def decodable (transactionData : List String) : List TransactionData :=
  transactionData.filterMap parseTransactionData

def matchTransactionDataToTransactionDataType (zod : Formats) (transactionData : List String)
    (credentialMetadata : Value) (preferredLocale : Option String) : Except Thrown Shown :=
  match parseCredentialMetadata credentialMetadata with
  | none => .error .zodError
  | some metadata => matchParsed zod (decodable transactionData) metadata preferredLocale

end IdentityCommon.EudiSca
