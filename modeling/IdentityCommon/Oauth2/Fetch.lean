import IdentityCommon.Oauth2.Callbacks

/-!
# Requests

Requests to other servers, whose responses have an expected content type and a schema.

## Main definitions

- `isMediaType` — a content type, in any casing and with any parameters
- `FetchRequest`, `FetchResponse`, `Fetch` — requests, responses, and the callback that makes a
  request
- `fetchWithZod` — the response to a request, and what its schema makes of the body

## Design notes

Requests are numbered, so that the callback can answer a request differently when it is made again.
The body of a request is given as its members; that they are sent as a form is left out.
-/

namespace IdentityCommon.Oauth2

open Ecma Value Common IdentityCommon.Except

/-! ## Content types -/

/-- What `trim` removes. -/
def isWhitespace (c : Char) : Bool :=
  c ∈ ['\t', '\n', '\u000b', '\u000c', '\r', ' ', '\u00a0', '\u1680', '\u2028', '\u2029', '\u202f',
    '\u205f', '\u3000', '\ufeff'] || '\u2000' ≤ c && c ≤ '\u200a'

def trim (s : String) : String :=
  String.ofList ((s.toList.dropWhile isWhitespace).reverse.dropWhile isWhitespace).reverse

def extractMediaType (contentType : String) : Option String :=
  nonEmpty (some (toLowerCase (trim ((split contentType ';').headD ""))))

def isMediaType (contentType : Option String) (expected : List String) : Bool :=
  match contentType.bind extractMediaType with
  | none => false
  | some mediaType => expected.any fun expected => extractMediaType expected = some mediaType

/-- Media types in order of preference, with quality values that go down to 0.1. -/
def createAcceptHeader (mediaTypes : List String) : String :=
  ", ".intercalate (mediaTypes.eraseDups.zipIdx.map fun (mediaType, index) =>
    if index = 0 then mediaType else mediaType ++ s!";q=0.{max 1 (10 - index)}")

namespace CommonMediaTypes

def XWwwFormUrlencoded : String := "application/x-www-form-urlencoded"

def Json : String := "application/json"

def JwkSet : String := "application/jwk-set+json"

def Jwt : String := "application/jwt"

end CommonMediaTypes

/-! ## Requests and responses -/

/-- Headers, under their names in lower case. -/
abbrev Headers := List (String × String)

structure FetchRequest where
  url : String
  method : String := "GET"
  headers : Headers := []
  body : Value := undefined

structure FetchResponse where
  ok : Bool
  status : ℕ
  contentType : Option String
  text : Except String String

/-- The response to the `n`-th request, or what the callback throws. -/
abbrev Fetch := ℕ → FetchRequest → Except String FetchResponse

def withAccept (expectedContentType : List String) (headers : Headers) : Headers :=
  if (headers.lookup "accept").isSome then headers
  else headers ++ [("accept", createAcceptHeader expectedContentType)]

def parseJsonResponse (response : FetchResponse) : Except Oauth2Error Value := do
  let text ← response.text.mapError .other
  match Json.parse text.toList with
  | some value => .ok value
  | none => .error (.fetch "Expected the response body to be JSON, but it could not be parsed")

/-- What the schema makes of the body: nothing for a response that is not `ok`, and `none` where it
does not validate. -/
def parseBody (schema : Schema) (response : FetchResponse) :
    Except Oauth2Error (Option (Option Value)) :=
  if !response.ok then .ok none
  else if isMediaType response.contentType [CommonMediaTypes.Jwt] then
    (response.text.mapError .other).map fun text => some (schema (str text))
  else (parseJsonResponse response).map fun value => some (schema value)

def checkContentType (response : FetchResponse) (expectedContentType : List String) :
    Except Oauth2Error Unit :=
  check (!response.ok || isMediaType response.contentType expectedContentType)
    (.fetch ("Expected response to match content type " ++ " | ".intercalate expectedContentType ++
      ", but received '" ++ response.contentType.getD "null" ++ "'"))

def fetchWithZod (fetch : Fetch) (n : ℕ) (schema : Schema) (expectedContentType : List String)
    (request : FetchRequest) : Except Oauth2Error (FetchResponse × Option (Option Value)) := do
  let response ← (fetch n { request with
      headers := withAccept expectedContentType request.headers }).mapError fun _ =>
    .fetch ("Unknown error occurred during fetch to '" ++ request.url ++ "'")
  checkContentType response expectedContentType
  let result ← parseBody schema response
  return (response, result)

example : isMediaType (some " Application/JSON; charset=utf-8") [CommonMediaTypes.Json] = true := by
  decide +kernel

/-- What a body is read as is what the schema returns. -/
theorem fetchWithZod_eq_ok {fetch : Fetch} {n : ℕ} {schema : Schema}
    {expectedContentType : List String} {request : FetchRequest} {response : FetchResponse}
    {result : Value} (h : fetchWithZod fetch n schema expectedContentType request =
      .ok (response, some (some result))) :
    ∃ body, schema body = some result := by
  obtain ⟨_, _, h⟩ := bind_eq_ok.mp h
  obtain ⟨_, _, h⟩ := bind_eq_ok.mp h
  obtain ⟨_, hparsed, h⟩ := bind_eq_ok.mp h
  cases h
  unfold parseBody at hparsed
  split_ifs at hparsed
  · cases hparsed
  · obtain ⟨text, _, htext⟩ := map_eq_ok.mp hparsed
    exact ⟨str text, Option.some.inj htext⟩
  · obtain ⟨value, _, hvalue⟩ := map_eq_ok.mp hparsed
    exact ⟨value, Option.some.inj hvalue⟩

end IdentityCommon.Oauth2
