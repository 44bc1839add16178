import IdentityCommon.Jades.Verifier
import IdentityCommon.Lib.Run

/-!
# The builder of a JAdES signature

A token with a header, a payload and a signature, its setters, and its serializations.

## Main definitions

- `Token` — the state of a builder
- `Setter` — the setters, with their arguments
- `Token.toCompact`, `Token.toJson`, `Token.toFlattenedJson` — the serializations of a signed token
- `Session`, `step` — a token whose signers are called and answer at any time

## Design notes

A setter that throws can leave a changed token, so it returns the token beside its outcome. Signing
is two steps: the signer is called, and later it answers.
-/

namespace IdentityCommon.Jades

open Ecma AssocList Value Common IdentityCommon.Except

/-! ## Arguments -/

/-- A value whose objects have distinct names. -/
abbrev Argument := { v : Value // v.Distinct }

/-- A payload: bytes, or any other value. -/
inductive Payload
  | bytes (b : Bytes)
  | value (v : Value)

/-- `payload === undefined`. -/
def Payload.isAbsent : Payload → Bool
  | bytes _ => false
  | value v => isUndefined v

/-- The time that a signing time is set to. -/
inductive SigningTime
  /-- none where it is not finite -/
  | number (n : Option Number)
  | text (s : String)
  /-- none where the date is not valid -/
  | date (milliseconds : Option ℤ)
  /-- the current time -/
  | now (milliseconds : ℤ)

def serializePayload : Payload → Except Error (Bytes × String)
  | .bytes b => .ok (b, bytesToText b)
  | .value (str s) => .ok (stringToBytes s, s)
  | .value v => match Json.stringify v with
    | none => .error (.jades "Payload is not JSON serializable")
    | some text => .ok (stringToBytes (String.ofList text), String.ofList text)

/-- `Number.isInteger(seconds)`. -/
def isInteger (n : Number) : Bool :=
  match Double.ofNumber n with
  | .finite x => x.value.den = 1
  | _ => false

/-- The seconds of a signing time, if they are an integer. -/
def SigningTime.seconds (platform : Platform) : SigningTime → Option Number
  | number n => n.filter isInteger
  | text s => (platform.dateParse s).map fun milliseconds => .ofInt (milliseconds / 1000)
  | date milliseconds => milliseconds.map fun milliseconds => .ofInt (milliseconds / 1000)
  | now milliseconds => some (.ofInt (milliseconds / 1000))

/-- `{ ...members, ...others }`. -/
def spread (members others : List (String × Value)) : List (String × Value) :=
  others.foldl (fun members m => insert m.1 m.2 members) members

def delete (key : String) (members : List (String × Value)) : List (String × Value) :=
  members.filter (·.1 ≠ key)

/-! ## Tokens -/

structure Token where
  protectedHeader : List (String × Value) := []
  unprotectedHeader : Option Value := none
  payload : Payload
  payloadBytes : Bytes
  payloadText : String
  detached : Bool := false
  signature : Option String := none

def Token.new (payload : Payload) : Except Error Token :=
  if payload.isAbsent then .ok { payload, payloadBytes := [], payloadText := "" }
  else do
    let serialized ← serializePayload payload
    return { payload, payloadBytes := serialized.1, payloadText := serialized.2 }

namespace Token

variable (platform : Platform) (token : Token)

def setProtectedHeader (header : Value) : Except Error Unit × Token :=
  match zProtectedHeaderParams platform (obj (spread token.protectedHeader (membersOf header))) with
  | none => (.error (.jades "Invalid protected header"), token)
  | some data => (.ok (), { token with protectedHeader := membersOf data, signature := none })

def setUnprotectedHeader (header : Value) : Except Error Unit × Token :=
  match zUnprotectedHeader platform header with
  | none => (.error (.jades "Invalid unprotected header"), token)
  | some data => (.ok (), { token with unprotectedHeader := some data })

def setX5c (certs : List String) : Except Error Unit × Token :=
  token.setProtectedHeader platform (obj [("x5c", arr (certs.map str))])

def setX5u (uri : String) : Except Error Unit × Token :=
  token.setProtectedHeader platform (obj [("x5u", str uri)])

def setX5tS256 (thumbprint : String) : Except Error Unit × Token :=
  token.setProtectedHeader platform (obj [("x5t#S256", str thumbprint)])

def setX5tO (x5tO : Value) : Except Error Unit × Token :=
  token.setProtectedHeader platform (obj [("x5t#o", x5tO)])

def setSigningTime (time : SigningTime) : Except Error Unit × Token :=
  match time.seconds platform with
  | none => (.error (.jades "Signing time must resolve to integer Unix seconds"), token)
  | some seconds =>
    token.setProtectedHeader platform
      (obj (delete "sigT" (insert "iat" (num seconds) token.protectedHeader)))

def setLegacySigningTime (time : String) : Except Error Unit × Token :=
  token.setProtectedHeader platform
    (obj (delete "iat" (insert "sigT" (str time) token.protectedHeader)))

def setKid (kid : String) : Except Error Unit × Token :=
  token.setProtectedHeader platform (obj [("kid", str kid)])

def setContentType (cty : String) : Except Error Unit × Token :=
  token.setProtectedHeader platform (obj [("cty", str cty)])

def setType (typ : String) : Except Error Unit × Token :=
  token.setProtectedHeader platform (obj [("typ", str typ)])

def setB64 (value : Bool) : Except Error Unit × Token :=
  (.ok (), {
    token with
    protectedHeader :=
      if value then delete "b64" token.protectedHeader
      else insert "b64" (.leaf (.bool false)) token.protectedHeader
    signature := none })

def setDetached (sigD : Value) (payload : Payload) : Except Error Unit × Token :=
  match zSigD platform sigD with
  | none => (.error (.jades "Invalid sigD"), token)
  | some data =>
    let token := { token with
      detached := true, signature := none
      protectedHeader := insert "sigD" data token.protectedHeader }
    let finish (token : Token) :=
      if isText httpHeaders (sigD.get "mId") then token.setB64 false else (.ok (), token)
    if payload.isAbsent then finish token
    else match serializePayload payload with
      | .error e => (.error e, { token with payload })
      | .ok (payloadBytes, payloadText) => finish { token with payload, payloadBytes, payloadText }

/-! ## Signing inputs -/

/-- `crit.add(parameter)`, of a set in insertion order. -/
def addParameter (crit : List String) (parameter : String) : List String :=
  if parameter ∈ crit then crit else crit ++ [parameter]

/-- The critical parameters, with those of the header that are critical always. -/
def crit (header : List (String × Value)) : List String :=
  (textsOf ((obj header).get "crit") ++ criticalParameters.filter (hasMember · (obj header))).foldl
    addParameter []

def finalHeader : List (String × Value) :=
  if crit token.protectedHeader = [] then token.protectedHeader
  else insert "crit" (arr ((crit token.protectedHeader).map str)) token.protectedHeader

def isUnencoded : Bool := Jades.isUnencoded (obj token.protectedHeader)

def isObjectDigest : Bool := Jades.isObjectDigest (obj token.protectedHeader)

def attachedPayloadSegment : String :=
  if token.isUnencoded then token.payloadText else bytesToBase64Url token.payloadBytes

def signingPayloadSegment : String :=
  if token.isObjectDigest then "" else token.attachedPayloadSegment

def encodedProtectedHeader : String := encodeJson (obj token.finalHeader)

def signingInput : String := token.encodedProtectedHeader ++ "." ++ token.signingPayloadSegment

def validateBeforeSign : Except Error Unit :=
  let sigD := (obj token.finalHeader).get "sigD"
  if (zProtectedHeaderForSigning platform (obj token.finalHeader)).isNone then
    .error (.jades "Invalid protected header for signing")
  else if sigD.truthy && !token.detached then
    .error (.jades "sigD is only allowed with a detached payload")
  else if sigD.truthy && !isText objectByUriHash (sigD.get "mId") && token.payload.isAbsent then
    .error (.jades "The constructed detached JWS Payload is required for this sigD mechanism")
  else .ok ()

def setSignature (signature : String) : Except Error Unit × Token :=
  match token.validateBeforeSign platform with
  | .error e => (.error e, token)
  | .ok _ =>
    if isBase64Url signature.toList then (.ok (), { token with signature := some signature })
    else (.error (.jades "Signature must be unpadded base64url"), token)

/-! ## Serializations -/

def getSignature : Except Error String :=
  match token.signature with
  | none => .error (.jades "Token not signed yet")
  | some signature => .ok signature

/-- `toString()`. -/
def toCompact : Except Error String := do
  let signature ← token.getSignature
  if token.unprotectedHeader.isSome then
    throw (.jades "Compact JWS cannot carry the etsiU unprotected header")
  let payload := if token.detached then "" else token.attachedPayloadSegment
  if token.isUnencoded && payload.toList.contains '.' then
    throw (.jades "An unencoded compact JWS payload must not contain a period")
  return token.encodedProtectedHeader ++ "." ++ payload ++ "." ++ signature

def payloadMember : List (String × Value) :=
  if token.detached then [] else [("payload", str token.attachedPayloadSegment)]

def headerMember : List (String × Value) :=
  (token.unprotectedHeader.map fun header => ("header", header)).toList

/-- `toJSON()`. -/
def toJson : Except Error Value := do
  let signature ← token.getSignature
  return obj (token.payloadMember ++
    [("signatures", arr [obj ([("protected", str token.encodedProtectedHeader),
    ("signature", str signature)] ++ token.headerMember)])])

def toFlattenedJson : Except Error Value := do
  let signature ← token.getSignature
  return obj ([("protected", str token.encodedProtectedHeader), ("signature", str signature)] ++
    token.payloadMember ++ token.headerMember)

end Token

/-! ## Sessions -/

/-- The setters, with their arguments. -/
inductive Setter
  | protectedHeader (header : Argument)
  | unprotectedHeader (header : Argument)
  | x5c (certs : List String)
  | x5u (uri : String)
  | x5tS256 (thumbprint : String)
  | x5tO (digest : Argument)
  | signingTime (time : SigningTime)
  | legacySigningTime (time : String)
  | kid (value : String)
  | contentType (cty : String)
  | type (typ : String)
  | b64 (value : Bool)
  | detached (sigD : Argument) (payload : Payload)

def Setter.run (platform : Platform) : Setter → Token → Except Error Unit × Token
  | protectedHeader header, token => token.setProtectedHeader platform header.1
  | unprotectedHeader header, token => token.setUnprotectedHeader platform header.1
  | x5c certs, token => token.setX5c platform certs
  | x5u uri, token => token.setX5u platform uri
  | x5tS256 thumbprint, token => token.setX5tS256 platform thumbprint
  | x5tO value, token => token.setX5tO platform value.1
  | signingTime time, token => token.setSigningTime platform time
  | legacySigningTime time, token => token.setLegacySigningTime platform time
  | kid value, token => token.setKid platform value
  | contentType cty, token => token.setContentType platform cty
  | type typ, token => token.setType platform typ
  | b64 value, token => token.setB64 value
  | detached sigD payload, token => token.setDetached platform sigD.1 payload

/-- A token, the signing inputs whose signers have not answered yet, and the answers so far. -/
structure Session where
  token : Token
  pending : List String := []
  signed : List Call := []

inductive Action
  | set (setter : Setter)
  /-- `sign(signer)`, up to the call of the signer -/
  | sign
  /-- the signer of a pending call returns a signature -/
  | resolve (index : ℕ) (signature : String)
  /-- the signer of a pending call throws -/
  | reject (index : ℕ)

/-- A step, with what the call that it belongs to throws. -/
def perform (platform : Platform) (s : Session) : Action → Except Error Unit × Session
  | .set setter => ((setter.run platform s.token).1,
      { s with token := (setter.run platform s.token).2 })
  | .sign => match s.token.validateBeforeSign platform with
    | .error e => (.error e, s)
    | .ok _ => (.ok (), { s with pending := s.pending ++ [s.token.signingInput] })
  | .resolve index signature => match s.pending[index]? with
    | none => (.ok (), s)
    | some data =>
      ((s.token.setSignature platform signature).1, {
        token := (s.token.setSignature platform signature).2
        pending := s.pending.eraseIdx index
        signed := ⟨data, signature⟩ :: s.signed })
  | .reject index => (.error .other, { s with pending := s.pending.eraseIdx index })

def step (platform : Platform) (s : Session) (a : Action) : Session := (perform platform s a).2

end IdentityCommon.Jades
