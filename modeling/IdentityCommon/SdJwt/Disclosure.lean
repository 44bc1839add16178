import IdentityCommon.Common.Base64url

/-!
# Disclosures

A disclosure reveals one object property or one array element of an SD-JWT. The payload only has
the digest of its encoded form.

## Main definitions

- `Disclosure` — a salt, a claim name and a value; its names are not reserved
- `Disclosure.encode`, `Disclosure.fromEncode` — the encoded form
- `Hasher`, `HasherAndAlg` — what digests are made with

## Design notes

A disclosure stores its digest and its encoded form once they are computed. It is only digested
with one hash, so that both are functions here, and only those that it is made with are stored.
-/

namespace IdentityCommon.SdJwt

open Ecma Common

/-- A failure, with a code for those that callers tell apart. -/
structure SdJwtError where
  message : String
  code : Option String := none
  deriving DecidableEq

/-! ## Constants -/

def SD_SEPARATOR : Char := '~'

def SD_LIST_KEY : String := "..."

def SD_DIGEST : String := "_sd"

@[simp] theorem listKey_ne_digest : SD_LIST_KEY ≠ SD_DIGEST := by decide

@[simp] theorem digest_ne_listKey : SD_DIGEST ≠ SD_LIST_KEY := by decide

def SD_DECOY : String := "_sd_decoy"

def KB_JWT_TYP : String := "kb+jwt"

/-- The hash algorithms that are registered. -/
def IANA_HASH_ALGORITHMS : List String :=
  ["sha-256", "sha-256-128", "sha-256-120", "sha-256-96", "sha-256-64", "sha-256-32", "sha-384",
    "sha-512", "sha3-224", "sha3-256", "sha3-384", "sha3-512", "blake2s-256", "blake2b-256",
    "blake2b-512", "k12-256", "k12-512"]

/-- The hash algorithms that are allowed unless others are configured. -/
def DEFAULT_SECURE_HASH_ALGORITHMS : List String :=
  ["sha-256", "sha-384", "sha-512", "sha3-256", "sha3-384", "sha3-512",
    "blake2s-256", "blake2b-256", "blake2b-512", "k12-256", "k12-512"]

/-! ## Digests -/

/-- The hash of a string with an algorithm. -/
abbrev Hasher := String → String → List UInt8

structure HasherAndAlg where
  hasher : Hasher
  alg : String

def uint8ArrayToBase64Url (bytes : List UInt8) : String := String.ofList (Base64url.encode bytes)

/-- The digest of a string. -/
def HasherAndAlg.digest (hash : HasherAndAlg) (data : String) : String :=
  uint8ArrayToBase64Url (hash.hasher data hash.alg)

/-! ## Disclosures -/

/-- A disclosure: of an object property with a claim name, or of an array element without. -/
structure Disclosure where
  salt : String
  key : Option String := none
  value : Value
  _digest : Option String := none
  _encoded : Option String := none
  key_not_reserved : ∀ k, key = some k → k ≠ SD_DIGEST ∧ k ≠ SD_LIST_KEY := by
    simp [SD_DIGEST, SD_LIST_KEY]

/-- The disclosure with the given data. -/
def Disclosure.fromArray (data : Value) (_digest _encoded : Option String) :
    Except SdJwtError Disclosure :=
  match data with
  | .arr [salt, value] => match salt with
    | .str salt => .ok { salt, value, _digest, _encoded }
    | _ => .error { message := "Invalid disclosure salt" }
  | .arr [salt, key, value] => match salt, key with
    | .str salt, .str key =>
      if h : key = SD_DIGEST ∨ key = SD_LIST_KEY then
        .error { message := "Reserved disclosure claim name \"" ++ key ++ "\" is not allowed" }
      else .ok {
        salt, key := some key, value, _digest, _encoded
        key_not_reserved := by rintro k ⟨⟩; exact not_or.mp h }
    | .str _, _ => .error { message := "Invalid disclosure claim name" }
    | _, _ => .error { message := "Invalid disclosure salt" }
  | _ => .error { message := "Invalid disclosure data" }

namespace Disclosure

/-- An element has no name that could be reserved. -/
theorem none_not_reserved : ∀ k : String, none = some k → k ≠ SD_DIGEST ∧ k ≠ SD_LIST_KEY := by simp

/-- The data of a disclosure; an empty claim name is left out. -/
def decode (d : Disclosure) : Value :=
  match d.key.filter (· ≠ "") with
  | some key => .arr [.str d.salt, .str key, d.value]
  | none => .arr [.str d.salt, d.value]

/-- The encoded form: base64url of the JSON text. -/
def encode (d : Disclosure) : String :=
  (d._encoded.filter (· ≠ "")).getD
    (base64urlEncode (String.ofList ((Json.stringify d.decode).getD [])))

def digest (d : Disclosure) (hash : HasherAndAlg) : String :=
  (d._digest.filter (· ≠ "")).getD (hash.digest d.encode)

/-- The disclosure with an encoded form. -/
def fromEncode (s : String) (hash : HasherAndAlg) : Except SdJwtError Disclosure :=
  match base64urlDecodeJson s with
  | .ok item => fromArray item (some (hash.digest s)) (some s)
  | .error _ => .error { message := "Invalid disclosure data" }

end Disclosure

end IdentityCommon.SdJwt
