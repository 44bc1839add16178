import IdentityCommon.Ecma.Value
import IdentityCommon.Ecma.Text
import IdentityCommon.Lib.Except

/-!
# Credential metadata

The types of transaction data in the metadata of a credential, and the claims that a wallet shows of
each.

## Main definitions

- `ValueType` — how a value is shown
- `CredentialMetadata`, `parseCredentialMetadata` — the metadata that is accepted
-/

namespace IdentityCommon.EudiSca

open Ecma Value

inductive ValueType
  | boolean | frequency | image | isoDate | isoTime | isoDateTime | isoCurrency | isoCurrencyAmount
  | labelOnly | miniMarkdown | url
  deriving DecidableEq

namespace ValueType

def text : ValueType → String
  | boolean => "boolean"
  | frequency => "frequency"
  | image => "image"
  | isoDate => "iso_date"
  | isoTime => "iso_time"
  | isoDateTime => "iso_date_time"
  | isoCurrency => "iso_currency"
  | isoCurrencyAmount => "iso_currency_amount"
  | labelOnly => "label_only"
  | miniMarkdown => "mini_markdown"
  | url => "url"

def values : List ValueType :=
  [boolean, frequency, image, isoDate, isoTime, isoDateTime, isoCurrency, isoCurrencyAmount,
    labelOnly, miniMarkdown, url]

/-- The value type that a text names. -/
def ofText (s : String) : Option ValueType := values.find? fun valueType => valueType.text = s

end ValueType

/-- `/^template:(…)$/`, with the texts of all value types. -/
def isTemplate (s : String) : Bool :=
  ValueType.values.any fun valueType => s = "template:" ++ valueType.text

def urnPrefix : String := "urn:eudi:sca:"

/-- `/^urn:eudi:sca:[^:]+:[^:]+(:[^:]+)*:[^:]+$/`: after the start at least three parts that are not
empty. -/
def isTransactionDataUrn (s : String) : Bool :=
  let parts := splitChars ':' (s.toList.drop urnPrefix.toList.length)
  urnPrefix.toList <+: s.toList ∧ 3 ≤ parts.length ∧ [] ∉ parts

structure CredentialMetadataDisplay where
  locale : Option String
  name : String
  displayType : Option String
  deriving DecidableEq

structure Claim where
  /-- A component that is `null` stands for every member. -/
  path : List (Option String)
  mandatory : Option Bool
  display : Option (List CredentialMetadataDisplay)
  valueType : Option String

structure CredentialMetadataClaimsDataType where
  claims : List Claim

structure CredentialMetadata where
  transactionDataTypes : List (String × CredentialMetadataClaimsDataType)

/-! ## Parsing -/

/-- `input[key]`; no schema has the name of a member that is inherited. -/
def memberOf (members : List (String × Value)) (key : String) : Value :=
  (members.lookup key).getD undefined

def zString : Value → Option String
  | str s => some s
  | _ => none

def zBoolean : Value → Option Bool
  | .leaf (.bool b) => some b
  | _ => none

/-- `schema.optional()`. -/
def optional {α : Type} (schema : Value → Option α) : Value → Option (Option α)
  | undefined => some none
  | value => (schema value).map some

/-- `z.array(schema)`. -/
def array {α : Type} (schema : Value → Option α) : Value → Option (List α)
  | arr items => items.mapM schema
  | _ => none

def zDisplayType (value : Value) : Option String :=
  (zString value).filter fun s => (ValueType.ofText s).isSome || isTemplate s

def zDisplayEntry : Value → Option CredentialMetadataDisplay
  | obj members => do
    let locale ← optional zString (memberOf members "locale")
    let name ← zString (memberOf members "name")
    let displayType ← optional zDisplayType (memberOf members "display_type")
    some ⟨locale, name, displayType⟩
  | _ => none

def zCredentialMetadataDisplay (value : Value) : Option (List CredentialMetadataDisplay) :=
  (array zDisplayEntry value).filter fun entries => entries ≠ []

def zPathComponent : Value → Option (Option String)
  | str s => some (some s)
  | null => some none
  | _ => none

def zClaim : Value → Option Claim
  | obj members => do
    let path ← array zPathComponent (memberOf members "path")
    let mandatory ← optional zBoolean (memberOf members "mandatory")
    let display ← optional zCredentialMetadataDisplay (memberOf members "display")
    let valueType ← optional zString (memberOf members "value_type")
    -- value_type must not be used on claims without a display array
    if display.isNone && valueType.isSome then none else some ⟨path, mandatory, display, valueType⟩
  | _ => none

/-- Any value will do for `ui_labels: z.unknown()`, but the member has to be there. -/
def zCredentialMetadataClaimsDataType : Value → Option CredentialMetadataClaimsDataType
  | obj members =>
    if (members.lookup "ui_labels").isNone then none
    else (array zClaim (memberOf members "claims")).map fun claims => ⟨claims⟩
  | _ => none

/-- An entry of `z.record(z.string().regex(urnRegex), zCredentialMetadataClaimsDataType)`. -/
def zTransactionDataType (m : String × Value) :
    Option (String × CredentialMetadataClaimsDataType) :=
  if isTransactionDataUrn m.1 then (zCredentialMetadataClaimsDataType m.2).map fun dataType =>
    (m.1, dataType) else none

/-- An own member `__proto__` of a record is left out. -/
def zTransactionDataTypes : Value → Option (List (String × CredentialMetadataClaimsDataType))
  | obj members => (members.filter (·.1 ≠ "__proto__")).mapM zTransactionDataType
  | _ => none

/-- None where the schema reports an issue. -/
def parseCredentialMetadata : Value → Option CredentialMetadata
  | obj members => (zTransactionDataTypes (memberOf members "transaction_data_types")).map
      fun types => ⟨types⟩
  | _ => none

end IdentityCommon.EudiSca
