import IdentityCommon.Ecma.UrlSearchParams

/-!
# Parameters of a URL

The parameters in the query of a URL, and parameters with the members of an object.

## Main definitions

- `WebUrl`, `WebUrl.IsLawful` — the URLs of the platform, and what the conversions rely on
- `getQueryParams`, `objectToQueryParams` — the parameters of a URL, and those of an object

## Design notes

URLs are read and written by the platform, with the query as it is in the text. Only the query of a
URL is written here. -/

namespace IdentityCommon.Openid4vcUtils

open Ecma AssocList Value

structure WebUrl where
  Url : Type
  /-- `new URL(text)`; none where it throws. -/
  parse : String → Option Url
  search : Url → String
  /-- `url.search = search`. -/
  setSearch : Url → String → Url
  toText : Url → String

/-- A query of serialized parameters is written as it is, and is the query of the URL that is read
back. -/
def WebUrl.IsLawful (web : WebUrl) : Prop :=
  ∀ text url cs, web.parse text = some url → cs ≠ [] →
  (∀ c ∈ cs, UrlSearchParams.isSerializedChar c = true) →
    ∃ url', web.parse (web.toText (web.setSearch url (String.ofList ('?' :: cs)))) = some url' ∧
      web.search url' = String.ofList ('?' :: cs)

/-- `params[key] = value`, where an assignment to `__proto__` changes nothing as the value is a
text. -/
def assign (params : List (String × String)) (param : String × String) : List (String × String) :=
  if param.1 = "__proto__" then params else insert param.1 param.2 params

/-- `getQueryParams(url)`; none where the text is not a URL. -/
def getQueryParams (web : WebUrl) (text : String) : Option (List (String × String)) :=
  (web.parse text).map fun url => (UrlSearchParams.entries (web.search url)).foldl assign []

/-- The parameters with the members of an object that are neither `null` nor `undefined`. A value
has a text, or is an object that has JSON text. -/
def objectToQueryParams (members : List (String × Value)) : List (String × String) :=
  members.filterMap fun m => match m.2 with
    | undefined | null => none
    | value => some (m.1,
        if value.isObject || value.isArray then String.ofList ((Json.stringify value).getD [])
        else value.toText.getD "")

/-- The last of the parameters with a name is the one that counts. -/
theorem lookup_foldl_assign {name : String} (hname : name ≠ "__proto__")
    (entries params : List (String × String)) :
    (entries.foldl assign params).lookup name = (entries.reverse.lookup name).or
      (params.lookup name) := by
  induction entries generalizing params with
  | nil => rfl
  | cons entry entries ih =>
    rw [List.foldl_cons, ih, List.reverse_cons, List.lookup_append, Option.or_assoc]
    congr 1
    rw [assign]
    by_cases hproto : entry.1 = "__proto__"
    · rw [if_pos hproto, lookup_cons_of_ne (hproto ▸ Ne.symm hname), List.lookup_nil,
        Option.none_or]
    · rw [if_neg hproto, lookup_insert]
      by_cases hentry : name = entry.1
      · subst hentry
        rw [if_pos rfl, lookup_cons_of_eq, Option.some_or]
      · rw [if_neg hentry, lookup_cons_of_ne (Ne.symm hentry), List.lookup_nil, Option.none_or]

end IdentityCommon.Openid4vcUtils
