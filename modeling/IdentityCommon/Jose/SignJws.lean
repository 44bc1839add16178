import IdentityCommon.Jose.CriticalHeaders
import IdentityCommon.Lib.Except

/-!
# Signing a JWS

The compact serialization of a JWS, with a callback that signs.

## Main definitions

- `JwsSigner`, `assertHeaderIdentifiesSigner` — signers, and headers that identify another one
- `SigningInput`, `signingInputOf` — what is handed to the callback
- `signCompactJws` — the compact serialization and the signature in it

## Main results

- `signCompactJws_eq_ok` — what is signed, where signing succeeds
-/

namespace IdentityCommon.Jose

open Ecma AssocList Value Json Common IdentityCommon.Except

/-! ## Signers -/

inductive JwsSigner
  | did (didUrl alg : String) (kid : Option String)
  | jwk (publicJwk : Value) (alg : String) (kid : Option String)
  | x5c (x5c : List String) (alg : String) (kid : Option String)
  | federation (trustChain : Option (List String)) (alg kid : String)
  | custom (alg : String) (kid : Option String)

def JwsSigner.alg : JwsSigner → String
  | .did _ alg _ | .jwk _ alg _ | .x5c _ alg _ | .federation _ alg _ | .custom alg _ => alg

def JwsSigner.method : JwsSigner → String
  | .did .. => "did"
  | .jwk .. => "jwk"
  | .x5c .. => "x5c"
  | .federation .. => "federation"
  | .custom .. => "custom"

/-- The header parameters that identify a signer. -/
structure SignerHeader where
  kid : Option String := none
  jwk : Option Value := none
  x5c : Option (List String) := none
  trustChain : Option (List String) := none

def jwsHeaderFromSigner : JwsSigner → SignerHeader
  | .did didUrl _ _ => { kid := didUrl }
  | .federation trustChain _ kid => { kid, trustChain }
  | .jwk publicJwk _ _ => { jwk := publicJwk }
  | .x5c x5c _ _ => { x5c }
  | .custom _ kid => { kid }

def textOf : Value → Option String
  | str s => some s
  | _ => none

theorem textOf_eq_some {v : Value} {s : String} : textOf v = some s ↔ v = str s := by
  unfold textOf
  split <;> simp_all

/-- A value that is not `undefined`. -/
def definedOf : Value → Option Value
  | undefined => none
  | value => some value

/-- The parameters of a header that identify a signer. -/
def signerParameters (header : Value) : SignerHeader where
  kid := textOf (header.get "kid")
  jwk := definedOf (header.get "jwk")
  x5c := (definedOf (header.get "x5c")).map textsOf
  trustChain := (definedOf (header.get "trust_chain")).map textsOf

/-- The members of a key that its thumbprint is made of, by type. -/
def thumbprintMembers : List (String × List String) :=
  [("EC", ["crv", "kty", "x", "y"]), ("OKP", ["crv", "kty", "x"]), ("RSA", ["e", "kty", "n"]),
    ("oct", ["k", "kty"])]

/-- `zJwkThumbprintComponents`. -/
def thumbprintComponents (jwk : Value) : Option Value := do
  let kty ← textOf (jwk.get "kty")
  let names ← thumbprintMembers.lookup kty
  let members ← names.mapM fun name => (zNonEmptyString (jwk.get name)).map
    fun value => (name, value)
  return obj members

def definedMembers (jwk : Value) : List String :=
  match jwk with
  | obj members => (keys members).filter fun name => (definedOf (jwk.get name)).isSome
  | _ => []

def isSameKey (a b : Value) : Bool :=
  match thumbprintComponents a, thumbprintComponents b with
  | some a, some b => stringify a = stringify b
  | none, none =>
    (definedMembers a).length = (definedMembers b).length ∧
      (definedMembers a).all fun name => stringify (a.get name) = stringify (b.get name)
  | _, _ => false

/-- Both are there, and they differ. -/
def differ {α : Type} (same : α → α → Bool) : Option α → Option α → Bool
  | some a, some b => !same a b
  | _, _ => false

def startsWith (s start : String) : Bool := start.toList.isPrefixOf s.toList

/-- A parameter that identifies a signer of another method. -/
def otherMethod (header : SignerHeader) (issuer : Option String) (method : String) :
    Option (String × String) :=
  let kidIdentifiesDid := header.kid.any fun kid =>
    startsWith kid "did:" || (startsWith kid "#" && issuer.any (startsWith · "did:"))
  let identifiedMethods :=
    [("x5c", "x5c", header.x5c.isSome), ("trust_chain", "federation", header.trustChain.isSome),
    ("kid", "did", kidIdentifiesDid), ("jwk", "jwk", header.jwk.isSome)]
  (identifiedMethods.find? fun (_, other, present) => present && other ≠ method).map
    fun (parameter, other, _) =>
    (parameter, other)

def assertHeaderIdentifiesSigner (protectedHeader : Value) (signer : JwsSigner)
    (issuer : Option String) : Except JoseError Unit :=
  let header := signerParameters protectedHeader
  let signerHeader := jwsHeaderFromSigner signer
  if differ (· = ·) header.kid signerHeader.kid then
    .error (.invalidArgument ("Unable to sign the JWS, the kid in the header is '" ++
      header.kid.getD "" ++
      "', but the signer is identified by kid '" ++ signerHeader.kid.getD "" ++ "'."))
  else if differ (· = ·) header.x5c signerHeader.x5c then
    .error (.invalidArgument
      "Unable to sign the JWS, the x5c in the header is not the certificate chain of the signer.")
  else if differ (· = ·) header.trustChain signerHeader.trustChain then
    .error (.invalidArgument
      "Unable to sign the JWS, the trust_chain in the header is not the trust chain of the signer.")
  else if differ isSameKey header.jwk signerHeader.jwk then
    .error (.invalidArgument
      "Unable to sign the JWS, the jwk in the header is not the public key of the signer.")
  else if signer.method = "custom" then .ok ()
  else match otherMethod header issuer signer.method with
    | some (parameter, method) =>
      .error (.invalidArgument ("Unable to sign the JWS, the '" ++ parameter ++
        "' in the header identifies a signer with method '" ++ method ++
        "', but the signer has method '" ++
        signer.method ++ "'."))
    | none => .ok ()

/-! ## Texts and bytes -/

/-- `encodeBase64UrlJson`; a value without a text is encoded as no text at all. -/
def encodeBase64UrlJson (value : Value) : String :=
  base64urlEncode (String.ofList ((stringify value).getD []))

def decodeUnencodedPayload (payload : List UInt8) : Except JoseError String :=
  match bytesToString payload with
  | .ok s => .ok s
  | .error _ =>
    .error (.notSupported
      "An unencoded payload ('b64' is false) that is not valid UTF-8 is not supported.")

/-- Why an unencoded payload cannot be carried in a compact serialization. -/
def unencodedCompactPayloadIssue (payload : String) : Option String :=
  if '.' ∈ payload.toList then
    some ("The payload is unencoded ('b64' is false) and contains a '.', which RFC 7797 section " ++
      "5.2 does not allow in a compact serialization, where it separates the parts.")
  else if !payload.toList.all fun c => ' ' ≤ c ∧ c ≤ '~' then
    some ("The payload is unencoded ('b64' is false) and contains a character outside printable " ++
      "ASCII, which RFC 7797 section 5.2 does not allow in a compact serialization.")
  else none

def encodePayload (isBase64UrlEncoded : Bool) (payload : List UInt8) : Except JoseError String :=
  if isBase64UrlEncoded then .ok (String.ofList (Base64url.encode payload))
  else decodeUnencodedPayload payload

/-! ## Signing -/

inductive Payload
  | json (members : List (String × Value))
  | text (s : String)
  | bytes (octets : List UInt8)

def Payload.toBytes : Payload → List UInt8
  | .json members => stringToBytes (String.ofList ((stringify (obj members)).getD []))
  | .text s => stringToBytes s
  | .bytes octets => octets

/-- The payload as an object. -/
def Payload.jwtPayload : Payload → Option Value
  | .json members => some (obj members)
  | _ => none

structure SignCompactJwsOptions where
  protectedHeader : Value
  /-- The members of an object have different names. -/
  distinct : protectedHeader.Distinct
  payload : Payload
  signer : JwsSigner
  detachPayload : Bool := false

/-- What is handed to the callback. -/
structure SigningInput where
  signingInput : String
  protectedHeader : Value
  payload : List UInt8
  jwtPayload : Option Value

def SigningInput.signingInputBytes (input : SigningInput) : List UInt8 :=
  stringToBytes input.signingInput

/-- What the callback returns. -/
structure Signature where
  signature : String
  signerJwk : Value

structure SignCompactJwsResult where
  compact : String
  signature : String
  signingInput : String
  signerJwk : Value

def parseHeader (schema : Schema) (message : String) (protectedHeader : Value) :
    Except JoseError Value :=
  match schema protectedHeader with
  | some protectedHeader => .ok protectedHeader
  | none => .error (.validation message [])

def assertAlg (protectedHeader : Value) (signer : JwsSigner) : Except JoseError Unit :=
  if textOf (protectedHeader.get "alg") ≠ some signer.alg then
    .error (.invalidArgument ("Unable to sign the JWS, the header says alg '" ++
      (textOf (protectedHeader.get "alg")).getD "" ++ "' but the signer signs with alg '" ++
      signer.alg ++ "'."))
  else .ok ()

def assertCompactPayload (isBase64UrlEncoded detachPayload : Bool) (encodedPayload : String) :
    Except JoseError Unit :=
  match
    if !isBase64UrlEncoded && !detachPayload then unencodedCompactPayloadIssue encodedPayload
    else none with
  | some issue => .error (.invalidArgument ("Unable to sign the JWS. " ++ issue ++
      " Detach the payload, or leave out 'b64' so that it is base64url encoded."))
  | none => .ok ()

/-- The header as it is signed, the payload as it is encoded, and what is handed to the callback. -/
def signingInputOf (options : SignCompactJwsOptions) :
    Except JoseError (String × String × SigningInput) := do
  let protectedHeader ← parseHeader zJwsProtectedHeader "Unable to sign the JWS, invalid header"
    options.protectedHeader
  assertCriticalHeaderParameters protectedHeader none (critOf protectedHeader)
  assertAlg protectedHeader options.signer
  let jwtPayload := options.payload.jwtPayload
  assertHeaderIdentifiesSigner protectedHeader options.signer
    (jwtPayload.bind fun payload => textOf (payload.get "iss"))
  let payload := options.payload.toBytes
  let isBase64UrlEncoded ← isPayloadBase64UrlEncoded protectedHeader
  let encodedProtectedHeader := encodeBase64UrlJson protectedHeader
  let encodedPayload ← encodePayload isBase64UrlEncoded payload
  assertCompactPayload isBase64UrlEncoded options.detachPayload encodedPayload
  return (encodedProtectedHeader, encodedPayload,
    { signingInput := join [encodedProtectedHeader, encodedPayload] '.', protectedHeader,
      payload, jwtPayload })

def assertSignature (signature : String) : Except JoseError Unit :=
  if zNonEmptyBase64Url (str signature) = none then
    .error (.invalidArgument
      ("Unable to sign the JWS, the signature returned by the signing callback is not a " ++
       "non-empty base64url string."))
  else .ok ()

def signCompactJws (signJwsCallback : JwsSigner → SigningInput → Except JoseError Signature)
    (options : SignCompactJwsOptions) : Except JoseError SignCompactJwsResult := do
  let (encodedProtectedHeader, encodedPayload, input) ← signingInputOf options
  let result ← signJwsCallback options.signer input
  assertSignature result.signature
  return {
    compact := join [encodedProtectedHeader, if options.detachPayload then "" else encodedPayload,
      result.signature] '.'
    signature := result.signature, signingInput := input.signingInput,
    signerJwk := result.signerJwk }

/-- What is signed. -/
structure IsSigned (options : SignCompactJwsOptions)
    (encodedProtectedHeader encodedPayload : String) (input : SigningInput)
    (isBase64UrlEncoded : Bool) : Prop where
  header : zJwsProtectedHeader options.protectedHeader = some input.protectedHeader
  crit : assertCriticalHeaderParameters input.protectedHeader none
    (critOf input.protectedHeader) = .ok ()
  b64 : isPayloadBase64UrlEncoded input.protectedHeader = .ok isBase64UrlEncoded
  encodesHeader : encodedProtectedHeader = encodeBase64UrlJson input.protectedHeader
  encodesPayload : encodePayload isBase64UrlEncoded options.payload.toBytes = .ok encodedPayload
  compactPayload : assertCompactPayload isBase64UrlEncoded options.detachPayload
    encodedPayload = .ok ()
  signingInput : input.signingInput = join [encodedProtectedHeader, encodedPayload] '.'
  payload : input.payload = options.payload.toBytes

theorem isSigned_of_signingInputOf {options : SignCompactJwsOptions}
    {encodedProtectedHeader encodedPayload : String} {input : SigningInput}
    (h : signingInputOf options = .ok (encodedProtectedHeader, encodedPayload, input)) :
    ∃ isBase64UrlEncoded,
    IsSigned options encodedProtectedHeader encodedPayload input isBase64UrlEncoded := by
  obtain ⟨protectedHeader, hheader, h⟩ := bind_eq_ok.mp h
  obtain ⟨_, hcrit, h⟩ := bind_eq_ok.mp h
  obtain ⟨_, _, h⟩ := bind_eq_ok.mp h
  obtain ⟨_, _, h⟩ := bind_eq_ok.mp h
  obtain ⟨isBase64UrlEncoded, hb64, h⟩ := bind_eq_ok.mp h
  obtain ⟨payload, hpayload, h⟩ := bind_eq_ok.mp h
  obtain ⟨_, hcompact, h⟩ := bind_eq_ok.mp h
  cases h
  refine ⟨isBase64UrlEncoded, ?_, hcrit, hb64, rfl, hpayload, hcompact, rfl, rfl⟩
  unfold parseHeader at hheader
  split at hheader
  · cases hheader
    assumption
  · cases hheader

/-- Where signing succeeds, the callback was handed what is signed, and its signature is in the
serialization. -/
theorem signCompactJws_eq_ok
    {signJwsCallback : JwsSigner → SigningInput → Except JoseError Signature}
    {options : SignCompactJwsOptions} {result : SignCompactJwsResult}
    (h : signCompactJws signJwsCallback options = .ok result) :
    ∃ encodedProtectedHeader encodedPayload input signature,
      signingInputOf options = .ok (encodedProtectedHeader, encodedPayload, input) ∧
      signJwsCallback options.signer input = .ok signature ∧
      (isBase64Url signature.signature = true ∧ signature.signature ≠ "") ∧
      result = {
        compact := join [encodedProtectedHeader, if options.detachPayload then ""
          else encodedPayload, signature.signature] '.'
        signature := signature.signature, signingInput := input.signingInput,
        signerJwk := signature.signerJwk } := by
  obtain ⟨⟨encodedProtectedHeader, encodedPayload, input⟩, hinput, h⟩ := bind_eq_ok.mp h
  obtain ⟨signature, hsignature, h⟩ := bind_eq_ok.mp h
  obtain ⟨_, hassert, h⟩ := bind_eq_ok.mp h
  cases h
  refine ⟨_, _, _, _, hinput, hsignature, ?_, rfl⟩
  rw [assertSignature, zNonEmptyBase64Url] at hassert
  by_contra hnot
  rw [if_neg hnot] at hassert
  cases hassert

theorem bytesToString_eq_ok {bytes : List UInt8} {s : String} (h : bytesToString bytes = .ok s) :
    stringToBytes s = bytes := by
  unfold bytesToString at h
  split at h
  · next heq =>
    cases h
    unfold String.fromUTF8? at heq
    split at heq
    · cases heq
      rfl
    · cases heq
  · cases h

/-- The bytes that are encoded are those of the encoded payload. -/
theorem encodePayload_eq_ok {isBase64UrlEncoded : Bool} {payload : List UInt8}
    {encodedPayload : String} (h : encodePayload isBase64UrlEncoded payload = .ok encodedPayload) :
    if isBase64UrlEncoded then encodedPayload = String.ofList (Base64url.encode payload)
    else stringToBytes encodedPayload = payload := by
  unfold encodePayload at h
  cases isBase64UrlEncoded with
  | true =>
    cases h
    rfl
  | false =>
    change decodeUnencodedPayload payload = .ok encodedPayload at h
    unfold decodeUnencodedPayload at h
    split at h
    · next heq =>
      cases h
      exact bytesToString_eq_ok heq
    · cases h

end IdentityCommon.Jose
