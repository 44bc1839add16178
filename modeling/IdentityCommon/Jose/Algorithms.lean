import IdentityCommon.Jose.SignJws

/-!
# Signature algorithms

The registered signature algorithms, and the keys that they can be used with.

## Main definitions

- `jwaSignatureAlgorithms`, `isJwaSignatureAlgorithmCaseVariant` — registered names, and names in
  another casing
- `VerificationError` — why a signature or the claims under it are not accepted
- `assertKeyAllowedForSignatureAlgorithm` — the keys of an algorithm
- `assertJwsAlgorithmAllowed` — the algorithms that are accepted
-/

namespace IdentityCommon.Jose

open Ecma Value

/-- `s.toUpperCase()`, as far as letters of ASCII go: the other characters whose capitals are
letters of ASCII are listed. -/
def toUpperCase (s : String) : String := String.ofList (s.toList.flatMap upper)
where
  upper : Char → List Char
    | 'ı' => ['I']
    | 'ſ' => ['S']
    | 'ß' => ['S', 'S']
    | 'ﬀ' => ['F', 'F']
    | 'ﬁ' => ['F', 'I']
    | 'ﬂ' => ['F', 'L']
    | 'ﬃ' => ['F', 'F', 'I']
    | 'ﬄ' => ['F', 'F', 'L']
    | 'ﬅ' => ['S', 'T']
    | 'ﬆ' => ['S', 'T']
    | c => [c.toUpper]

def jwaSignatureAlgorithms : List String :=
  ["HS256", "HS384", "HS512", "RS256", "RS384", "RS512", "PS256", "PS384", "PS512", "ES256",
    "ES384", "ES512", "ES256K", "EdDSA", "Ed25519", "Ed448"]

def symmetricSignatureAlgorithms : List String := ["HS256", "HS384", "HS512"]

def signatureAlgorithmKeyTypes : List (String × List String) :=
  [("HS256", ["oct"]), ("HS384", ["oct"]), ("HS512", ["oct"]), ("RS256", ["RSA"]),
    ("RS384", ["RSA"]), ("RS512", ["RSA"]), ("PS256", ["RSA"]), ("PS384", ["RSA"]),
    ("PS512", ["RSA"]), ("ES256", ["EC"]), ("ES384", ["EC"]), ("ES512", ["EC"]), ("ES256K", ["EC"]),
    ("EdDSA", ["OKP"]), ("Ed25519", ["OKP"]), ("Ed448", ["OKP"])]

def signatureAlgorithmCurves : List (String × String) :=
  [("ES256", "P-256"), ("ES384", "P-384"), ("ES512", "P-521"), ("ES256K", "secp256k1"),
    ("Ed25519", "Ed25519"), ("Ed448", "Ed448")]

def isJwaSignatureAlgorithm (alg : String) : Bool := alg ∈ jwaSignatureAlgorithms

def isSymmetricSignatureAlgorithm (alg : String) : Bool := alg ∈ symmetricSignatureAlgorithms

/-- A registered algorithm in a different casing. -/
def isJwaSignatureAlgorithmCaseVariant (alg : String) : Bool :=
  !isJwaSignatureAlgorithm alg && jwaSignatureAlgorithms.any fun registered =>
    toLowerCase registered = toLowerCase alg || toUpperCase registered = toUpperCase alg

inductive VerificationError
  | jose (error : JoseError)
  | algorithmNotAllowed (message : String)
  | signatureVerification (message : String)
  | signer (message : String)

def quoted (values : List String) (separator : String) : String :=
  separator.intercalate (values.map fun value => "'" ++ value ++ "'")

/-! ## Keys -/

def fullySpecifiedEdDsaAlgorithms : List String := ["Ed25519", "Ed448"]

def edDsaCurves : List String := ["Ed25519", "Ed448"]

/-- `EdDSA` and an algorithm that fixes its curve count as the same algorithm. -/
def isEdDsaEquivalent (jwkAlg : Option String) (alg : String) : Bool :=
  (jwkAlg = some "EdDSA" && fullySpecifiedEdDsaAlgorithms.contains alg) ||
    (alg = "EdDSA" && jwkAlg.any fullySpecifiedEdDsaAlgorithms.contains)

/-- The curves that a key of an algorithm can have; none where the algorithm fixes no curve. -/
def curvesOf (keyAlgorithm : String) : List String :=
  match signatureAlgorithmCurves.lookup keyAlgorithm with
  | some curve => [curve]
  | none => if keyAlgorithm = "EdDSA" then edDsaCurves else []

def assertKeyAllowedForSignatureAlgorithm (jwk : Value) (alg errorMessage : String) :
    Except VerificationError Unit :=
  let jwkAlg := textOf (jwk.get "alg")
  let jwkUse := textOf (jwk.get "use")
  let keyOps := (definedOf (jwk.get "key_ops")).map textsOf
  let kty := (textOf (jwk.get "kty")).getD ""
  let crv := textOf (jwk.get "crv")
  -- for a token that only says `EdDSA`, the algorithm that the key declares fixes the curve
  let keyAlgorithm := if isEdDsaEquivalent jwkAlg alg && alg = "EdDSA" then jwkAlg.getD "" else alg
  let keyTypes := (signatureAlgorithmKeyTypes.lookup keyAlgorithm).getD []
  let curves := curvesOf keyAlgorithm
  if jwkAlg.any (· ≠ alg) && !isEdDsaEquivalent jwkAlg alg then
    .error (.algorithmNotAllowed (errorMessage ++ " The key declares alg '" ++ jwkAlg.getD "" ++
      "', but the token uses alg '" ++ alg ++ "'."))
  else if jwkUse.any (· ≠ "sig") then
    .error (.algorithmNotAllowed (errorMessage ++ " The key declares use '" ++ jwkUse.getD "" ++
      "' instead of 'sig'."))
  else if keyOps.any fun ops => "verify" ∉ ops ∧ "sign" ∉ ops then
    .error (.algorithmNotAllowed (errorMessage ++ " The key declares key_ops " ++
      quoted (keyOps.getD []) ", " ++ ", which does not include 'sign' or 'verify'."))
  else if isJwaSignatureAlgorithmCaseVariant alg then
    .error (.algorithmNotAllowed (errorMessage ++ " The token uses alg '" ++ alg ++
      "', which differs from a registered algorithm only in casing."))
  else if !isJwaSignatureAlgorithm alg then .ok ()
  else if kty ∉ keyTypes then
    .error (.algorithmNotAllowed (errorMessage ++ " Algorithm '" ++ keyAlgorithm ++
      "' requires a key with kty " ++
      quoted keyTypes " or " ++ ", but the key has kty '" ++ kty ++ "'."))
  else if curves ≠ [] ∧ crv.all (· ∉ curves) then
    .error (.algorithmNotAllowed (errorMessage ++ " Algorithm '" ++ keyAlgorithm ++
      "' requires a key with crv " ++
      quoted curves " or " ++ ", but the key has " ++ (match crv with
        | some crv => "crv '" ++ crv ++ "'."
        | none => "no crv.")))
  else .ok ()

/-! ## Algorithms -/

def assertJwsAlgorithmAllowed (alg : String) (allowedAlgorithms : Option (List String))
    (allowSymmetricAlgorithms : Bool) (errorMessage : String) : Except VerificationError Unit :=
  if (zJwsAlg (str alg)).isNone then
    .error (.algorithmNotAllowed (errorMessage ++ " The JWS uses alg '" ++ alg ++
      "', which is not a signature algorithm. An unsecured JWS is never accepted."))
  else if isJwaSignatureAlgorithmCaseVariant alg then
    .error (.algorithmNotAllowed (errorMessage ++ " The JWS uses alg '" ++ alg ++
      "', which differs from a registered algorithm only in casing. Algorithm names are " ++
      "case-sensitive."))
  else if allowedAlgorithms.any (alg ∉ ·) then
    .error (.algorithmNotAllowed (errorMessage ++ " The JWS uses alg '" ++ alg ++
      "', but the allowed algorithms are " ++ quoted (allowedAlgorithms.getD []) ", " ++ "."))
  else if isSymmetricSignatureAlgorithm alg && !allowSymmetricAlgorithms then
    .error (.algorithmNotAllowed
      (errorMessage ++ " The JWS uses the symmetric algorithm '" ++ alg ++
      "'. Set 'allowSymmetricAlgorithms' if a MAC is expected here."))
  else .ok ()

end IdentityCommon.Jose
