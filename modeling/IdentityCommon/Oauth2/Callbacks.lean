import IdentityCommon.Jose.Jwt

/-!
# Callbacks and errors

What an OAuth 2.0 server is given: callbacks that verify signatures and hash, the URLs of the
platform, and requests; and the errors that its checks end in.

## Main definitions

- `Oauth2Error` — errors
- `Urls` — URLs, as the platform reads them
- `Callbacks`, `calculateJwkThumbprint` — callbacks, and the thumbprint of a key under the hash
- `RequestLike`, `AuthorizationServerMetadata` — a request, and an authorization server

## Design notes

URLs are read by the platform, and the schema of a URL by a library: both are parameters. A callback
that hashes is asked for SHA-256 only, and returns.
-/

namespace IdentityCommon.Oauth2

open Ecma Value Common Jose IdentityCommon.Except

inductive Oauth2Error
  | oauth2 (message : String)
  | jose (error : JoseError)
  | jwt (error : VerifyJwtError)
  /-- A value that does not validate. -/
  | validation (message : String)
  /-- A request that fails, or whose response is not what is expected. -/
  | fetch (message : String)
  /-- An error that is not one of the libraries, such as that of a callback. -/
  | other (message : String)
  | serverErrorResponse (code description : String)
  /-- An error response whose description ends in the message of what was thrown. -/
  | serverErrorCaused (code description : String) (cause : Oauth2Error)
  | resourceUnauthorized (message : String)
  | resourceUnauthorizedCaused (code : String) (cause : Oauth2Error)

namespace Oauth2Error

/-- `error instanceof JoseInvalidArgumentError`. -/
def isInvalidArgument : Oauth2Error → Bool
  | jose (.invalidArgument _) | jwt (.signature (.jose (.invalidArgument _))) | jwt
      (.claims _ (.invalidArgument _)) => true
  | _ => false

/-- `error instanceof IdentityError`. -/
def isIdentityError : Oauth2Error → Bool
  | other _ => false
  | _ => true

end Oauth2Error

/-- A check, that ends in an error where a condition does not hold. -/
def check (condition : Bool) (error : Oauth2Error) : Except Oauth2Error Unit :=
  if condition then .ok () else .error error

@[simp] theorem check_eq_ok {condition : Bool} {error : Oauth2Error} {u : Unit} :
    check condition error = .ok u ↔ condition = true := by
  rw [check]
  split_ifs with h
  · exact iff_of_true rfl h
  · exact iff_of_false nofun h

/-! ## The platform -/

structure Urls where
  /-- `z.url()`. -/
  zUrl : String → Option String
  /-- The text of `new URL(url)` without its query and its fragment; none where it throws. -/
  htu : String → Option String
  allowInsecureUrls : Bool

def startsWithIgnoreCase (s start : String) : Bool := startsWith (toLowerCase s) start

def zUrl (urls : Urls) : Schema
  | str s => (urls.zUrl s).map str
  | _ => none

def zHttpsUrl (urls : Urls) : Schema
  | str s => ((urls.zUrl s).filter fun url =>
      startsWithIgnoreCase url "https://" || urls.allowInsecureUrls &&
        startsWithIgnoreCase url "http://").map str
  | _ => none

def httpMethods : List String :=
  ["GET", "POST", "PUT", "DELETE", "HEAD", "OPTIONS", "TRACE", "CONNECT", "PATCH"]

def zHttpMethod : Schema
  | str s => if s ∈ httpMethods then some (str s) else none
  | _ => none

structure RequestLike where
  /-- `headers.get`. -/
  header : String → Option String
  method : String
  url : String

structure AuthorizationServerMetadata where
  issuer : String
  jwksUri : Option String := none
  introspectionEndpoint : Option String := none
  dpopSigningAlgValuesSupported : Option (List String) := none
  tokenEndpointAuthMethodsSupported : Option (List String) := none

/-! ## Callbacks -/

structure Callbacks where
  verifyJws : VerifyJwsCallback
  /-- The SHA-256 digest of a text. -/
  hash : String → List UInt8

def base64url (bytes : List UInt8) : String := String.ofList (Base64url.encode bytes)

/-- The thumbprint of a key. -/
def calculateJwkThumbprint (hash : String → List UInt8) (jwk : Value) : Except JoseError String :=
  match thumbprintComponents jwk with
  | some components => .ok (base64url (hash (String.ofList ((Json.stringify components).getD []))))
  | none => .error
      (.validation
        ("Unable to calculate the thumbprint of the jwk. Either the 'kty' is not supported, or " ++
         "a member required for the thumbprint is missing") [])

/-- A text that is there and not empty. -/
def nonEmpty (s : Option String) : Option String := s.filter (· ≠ "")

theorem nonEmpty_eq_some {s : Option String} {t : String} :
    nonEmpty s = some t ↔ s = some t ∧ t ≠ "" := by
  simp [nonEmpty, Option.filter_eq_some_iff]

end IdentityCommon.Oauth2
