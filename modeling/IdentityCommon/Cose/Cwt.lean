import IdentityCommon.Cose.Mac0

/-!
# Tokens

COSE structures decoded from bytes: as a COSE_Sign1 or a COSE_Mac0 of some class, or as a CWT with
classes for its headers and its payload.

## Main definitions

- `Sign1.decode`, `Mac0.decode`, `Cwt.fromToken` — structures from bytes
- `Cwt.payloadBytes`, `Cwt.asSign1`, `Cwt.asMac0` — a CWT as the structure that it is carried in
- `receivedParts` — the protected headers and the payload in a token

## Main results

- `Sign1.decode_eq_ok`, `Mac0.decode_eq_ok`, `Cwt.fromToken_eq_ok` — decoded structures keep the
  parts of their token
- `receivedParts_encode` — the parts of a token that is written

## Design notes

The extensions of the CBOR codec for the two tags are part of the functions that decode a token. A
structure is decoded with the two header classes of its class.
-/

namespace IdentityCommon.Cose

open IdentityCommon.Cbor IdentityCommon.Except

/-- The header classes of a class of structures. -/
structure HeaderClasses where
  protectedHeaders : HeaderClass
  unprotectedHeaders : HeaderClass

/-- The members of an encoded structure: the fourth is a signature or an authentication tag. -/
structure Encoded where
  protectedHeaders : Bytes
  unprotectedHeaders : List (Item × Item)
  payload : Option Bytes
  proof : Bytes

/-- The tuple of an encoded structure. -/
def encodedOf : Item → Except CoseError Encoded
  | .array [.bytes protectedHeaders, .map unprotectedHeaders, .bytes payload, .bytes proof] =>
    .ok { protectedHeaders, unprotectedHeaders, payload := some payload, proof }
  | .array [.bytes protectedHeaders, .map unprotectedHeaders, .simple 22, .bytes proof] =>
    .ok { protectedHeaders, unprotectedHeaders, payload := none, proof }
  | _ => .error (.validation "Error decoding")

/-! ## COSE_Sign1 -/

namespace Sign1

variable (codec : Codec)

def fromEncodedStructure (classes : HeaderClasses) (item : Item) : Except CoseError Sign1 := do
  let encoded ← encodedOf item
  if !encoded.unprotectedHeaders.all fun e => isNumber e.1 then
    .error (.validation "Error decoding Sign1")
  else do
    let protectedHeaders ← ProtectedHeaders.fromEncodedStructure codec classes.protectedHeaders
      encoded.protectedHeaders
    let unprotectedHeaders ← UnprotectedHeaders.fromEncodedStructure classes.unprotectedHeaders
      encoded.unprotectedHeaders
    .ok {
      protectedHeaders, unprotectedHeaders, payload := encoded.payload
      signature := encoded.proof }

/-- Decoding by a class: `Sign1` itself, or a subclass with header classes of its own. -/
def decode (base : HeaderClasses) (subclass : Option HeaderClasses) (token : Bytes) :
    Except CoseError Sign1 := do
  match ← cborDecode codec token, subclass with
  | .tag 18 item, none => fromEncodedStructure codec base item
  | .tag 18 item, some classes => do
    let rawStructure ← fromEncodedStructure codec base item
    fromEncodedStructure codec classes (← rawStructure.encodedStructure codec)
  | item, subclass => fromEncodedStructure codec (subclass.getD base) item

end Sign1

/-! ## COSE_Mac0 -/

namespace Mac0

variable (codec : Codec)

def fromEncodedStructure (classes : HeaderClasses) (item : Item) : Except CoseError Mac0 := do
  let encoded ← encodedOf item
  let protectedHeaders ← ProtectedHeaders.fromEncodedStructure codec classes.protectedHeaders
    encoded.protectedHeaders
  let unprotectedHeaders ← UnprotectedHeaders.fromEncodedStructure classes.unprotectedHeaders
    encoded.unprotectedHeaders
  .ok { protectedHeaders, unprotectedHeaders, payload := encoded.payload, tag := encoded.proof }

def decode (base : HeaderClasses) (subclass : Option HeaderClasses) (token : Bytes) :
    Except CoseError Mac0 := do
  match ← cborDecode codec token, subclass with
  | .tag 17 item, none => fromEncodedStructure codec base item
  | .tag 17 item, some classes => do
    let rawStructure ← fromEncodedStructure codec base item
    fromEncodedStructure codec classes (← rawStructure.encodedStructure codec)
  | item, subclass => fromEncodedStructure codec (subclass.getD base) item

end Mac0

/-! ## CWTs -/

/-- A claims set, with the check of the schema of its class. -/
structure CwtPayload where
  schema : HeaderClass
  claims : TypedMap

namespace CwtPayload

variable (codec : Codec)

def encode (payload : CwtPayload) : Except CoseError Bytes :=
  if payload.schema.check payload.claims then .ok (codec.encode payload.claims.toItem)
  else .error (.validation ("Error encoding " ++ payload.schema.name))

def fromEncodedStructure (schema : HeaderClass) : Item → Except CoseError CwtPayload
  | .map entries =>
    if schema.check (TypedMap.fromEntries entries) then
      .ok { schema, claims := TypedMap.fromEntries entries }
    else .error (.validation ("Error decoding " ++ schema.name))
  | _ => .error (.validation ("Error decoding " ++ schema.name))

end CwtPayload

structure Cwt where
  protectedHeaders : ProtectedHeaders
  unprotectedHeaders : UnprotectedHeaders
  payload : CwtPayload
  originalPayloadBytes : Option Bytes
  signature : Option Bytes
  tag : Option Bytes

/-- The classes that a token is decoded into. -/
structure CwtStructures where
  payload : HeaderClass
  protectedHeaders : Option HeaderClass
  unprotectedHeaders : Option HeaderClass

namespace Cwt

variable (codec : Codec)

/-- `decodeCoseStructure`: one of the two structures, by its tag. -/
def decodeCoseStructure (base : HeaderClasses) (token : Bytes) :
    Except CoseError (Sign1 ⊕ Mac0) := do
  match ← cborDecode codec token with
  | .tag 18 item => return .inl (← Sign1.fromEncodedStructure codec base item)
  | .tag 17 item => return .inr (← Mac0.fromEncodedStructure codec base item)
  | _ => .error .payloadInvalidStructure

/-- The headers of a token, read through a class if there is one. -/
def rereadProtected (schema : Option HeaderClass) (h : ProtectedHeaders) :
    Except CoseError ProtectedHeaders :=
  match schema with
  | some schema => do
    ProtectedHeaders.fromEncodedStructure codec schema (← h.encodedStructure codec)
  | none => .ok h

def rereadUnprotected (schema : Option HeaderClass) (h : UnprotectedHeaders) :
    Except CoseError UnprotectedHeaders :=
  match schema with
  | some schema => do
    match ← h.encodedStructure with
    | .map entries => UnprotectedHeaders.fromEncodedStructure schema entries
    | _ => .error (.validation ("Error decoding " ++ schema.name))
  | none => .ok h

def decodePayload (schema : HeaderClass) (payloadBytes : Bytes) : Except CoseError CwtPayload :=
  match cborDecode codec payloadBytes >>= CwtPayload.fromEncodedStructure schema with
  | .ok payload => .ok payload
  | .error _ => .error .payloadDecode

def fromToken (base : HeaderClasses) (structures : CwtStructures) (token : Bytes) :
    Except CoseError Cwt := do
  let coseStructure ← decodeCoseStructure codec base token
  match coseStructure.elim Sign1.payload Mac0.payload with
  | none => .error .detachedPayload
  | some payloadBytes => do
    let payload ← decodePayload codec structures.payload payloadBytes
    let protectedHeaders ← rereadProtected codec structures.protectedHeaders
      (coseStructure.elim Sign1.protectedHeaders Mac0.protectedHeaders)
    let unprotectedHeaders ← rereadUnprotected structures.unprotectedHeaders
      (coseStructure.elim Sign1.unprotectedHeaders Mac0.unprotectedHeaders)
    .ok { protectedHeaders, unprotectedHeaders, payload, originalPayloadBytes := some payloadBytes
          signature := coseStructure.elim (fun sign1 => some sign1.signature) fun _ => none
          tag := coseStructure.elim (fun _ => none) fun mac0 => some mac0.tag }

def payloadBytes (cwt : Cwt) : Except CoseError Bytes :=
  match cwt.originalPayloadBytes with
  | some original => .ok original
  | none => cwt.payload.encode codec

def markPayloadModified (cwt : Cwt) : Cwt := { cwt with originalPayloadBytes := none }

def asSign1 (cwt : Cwt) : Except CoseError Sign1 := do
  let payload ← payloadBytes codec cwt
  .ok { protectedHeaders := cwt.protectedHeaders, unprotectedHeaders := cwt.unprotectedHeaders
        payload := some payload
        signature := cwt.signature.getD [] }

def asMac0 (cwt : Cwt) : Except CoseError Mac0 := do
  let payload ← payloadBytes codec cwt
  .ok { protectedHeaders := cwt.protectedHeaders, unprotectedHeaders := cwt.unprotectedHeaders
        payload := some payload
        tag := cwt.tag.getD [] }

end Cwt

/-! ## The parts of a token -/

/-- The protected headers and the payload of a structure, with or without its tag. -/
def partsOf : Item → Option (Bytes × Option Bytes)
  | .tag _ item | item => (encodedOf item).toOption.map fun encoded =>
      (encoded.protectedHeaders, encoded.payload)

/-- The protected headers and the payload in a token. -/
def receivedParts (codec : Codec) (token : Bytes) : Option (Bytes × Option Bytes) :=
  (cborDecode codec token).toOption.bind partsOf

variable {codec : Codec}

/-- A structure whose protected headers and payload are those that were received. -/
def Retains (h : ProtectedHeaders) (payload : Option Bytes) (parts : Bytes × Option Bytes) : Prop :=
  h.originalEncodedStructure = some parts.1 ∧ payload = parts.2

theorem ProtectedHeaders.original_of_fromEncodedStructure {schema : HeaderClass} {encoded : Bytes}
    {h : ProtectedHeaders} (heq : fromEncodedStructure codec schema encoded = .ok h) :
    h.originalEncodedStructure = some encoded := by
  obtain ⟨headers, -, heq⟩ := bind_eq_ok.mp heq
  cases heq
  rfl

theorem partsOf_tag (n : ℕ) (item : Item) :
    partsOf (.tag n item) = (encodedOf item).toOption.map fun encoded => (encoded.protectedHeaders,
      encoded.payload) := rfl

theorem partsOf_of_encodedOf {item : Item} {encoded : Encoded} (h : encodedOf item = .ok encoded) :
    partsOf item = some (encoded.protectedHeaders, encoded.payload) := by
  cases item with
  | array items =>
    change (encodedOf (.array items)).toOption.map _ = _
    rw [h]
    rfl
  | _ => cases h

theorem receivedParts_of_tag {token : Bytes} {n : ℕ} {item : Item} {encoded : Encoded}
    (htoken : cborDecode codec token = .ok (.tag n item)) (h : encodedOf item = .ok encoded) :
    receivedParts codec token = some (encoded.protectedHeaders, encoded.payload) := by
  rw [receivedParts, htoken]
  change partsOf (.tag n item) = _
  rw [partsOf_tag, h]
  rfl

theorem receivedParts_of_encodedOf {token : Bytes} {item : Item} {encoded : Encoded}
    (htoken : cborDecode codec token = .ok item) (h : encodedOf item = .ok encoded) :
    receivedParts codec token = some (encoded.protectedHeaders, encoded.payload) := by
  rw [receivedParts, htoken]
  exact partsOf_of_encodedOf h

/-- The tuple of a structure whose headers are encoded. -/
theorem encodedOf_array {h : Bytes} {unprotectedHeaders : UnprotectedHeaders} {item : Item}
    (payload : Option Bytes) (proof : Bytes)
    (hitem : unprotectedHeaders.encodedStructure = .ok item) :
    encodedOf (.array [.bytes h, item, Sign1.encodedStructure.payloadItem payload, .bytes proof]) =
      .ok { protectedHeaders := h, unprotectedHeaders := unprotectedHeaders.headers.entries,
            payload, proof } := by
  rw [UnprotectedHeaders.encodedStructure] at hitem
  split_ifs at hitem
  cases hitem
  cases payload <;> rfl

/-! ### Structures that are decoded -/

theorem Sign1.fromEncodedStructure_eq_ok {classes : HeaderClasses} {item : Item} {sign1 : Sign1}
    (h : fromEncodedStructure codec classes item = .ok sign1) :
    ∃ encoded, encodedOf item = .ok encoded ∧
      Retains sign1.protectedHeaders sign1.payload (encoded.protectedHeaders, encoded.payload) := by
  obtain ⟨encoded, hencoded, h⟩ := bind_eq_ok.mp h
  split at h
  · cases h
  · obtain ⟨protectedHeaders, hprotected, h⟩ := bind_eq_ok.mp h
    obtain ⟨unprotectedHeaders, -, h⟩ := bind_eq_ok.mp h
    cases h
    exact ⟨encoded, hencoded, ProtectedHeaders.original_of_fromEncodedStructure hprotected, rfl⟩

theorem Mac0.fromEncodedStructure_eq_ok {classes : HeaderClasses} {item : Item} {mac0 : Mac0}
    (h : fromEncodedStructure codec classes item = .ok mac0) :
    ∃ encoded, encodedOf item = .ok encoded ∧
      Retains mac0.protectedHeaders mac0.payload (encoded.protectedHeaders, encoded.payload) := by
  obtain ⟨encoded, hencoded, h⟩ := bind_eq_ok.mp h
  obtain ⟨protectedHeaders, hprotected, h⟩ := bind_eq_ok.mp h
  obtain ⟨unprotectedHeaders, -, h⟩ := bind_eq_ok.mp h
  cases h
  exact ⟨encoded, hencoded, ProtectedHeaders.original_of_fromEncodedStructure hprotected, rfl⟩

/-- The encoded structure has the protected headers and the payload of a structure. -/
theorem Sign1.encodedOf_encodedStructure {sign1 : Sign1} {item : Item}
    (h : encodedStructure codec sign1 = .ok item) :
    ∃ encoded, encodedOf item = .ok encoded ∧
    sign1.protectedHeaders.encodedStructure codec = .ok encoded.protectedHeaders ∧
      encoded.payload = sign1.payload := by
  rw [encodedStructure] at h
  split at h
  · cases h
  · obtain ⟨protectedHeaders, hprotected, h⟩ := bind_eq_ok.mp h
    obtain ⟨unprotectedHeaders, hunprotected, h⟩ := bind_eq_ok.mp h
    cases h
    exact ⟨_, encodedOf_array _ _ hunprotected, hprotected, rfl⟩

theorem Mac0.encodedOf_encodedStructure {mac0 : Mac0} {item : Item}
    (h : encodedStructure codec mac0 = .ok item) :
    ∃ encoded, encodedOf item = .ok encoded ∧
    mac0.protectedHeaders.encodedStructure codec = .ok encoded.protectedHeaders ∧
      encoded.payload = mac0.payload := by
  rw [encodedStructure] at h
  split at h
  · cases h
  · obtain ⟨protectedHeaders, hprotected, h⟩ := bind_eq_ok.mp h
    obtain ⟨unprotectedHeaders, hunprotected, h⟩ := bind_eq_ok.mp h
    cases h
    exact ⟨_, encodedOf_array _ _ hunprotected, hprotected, rfl⟩

theorem ProtectedHeaders.encodedStructure_of_original {h : ProtectedHeaders} {b : Bytes}
    (horiginal : h.originalEncodedStructure = some b) : h.encodedStructure codec = .ok b := by
  rw [encodedStructure, horiginal]

theorem Sign1.decode_eq_ok {base : HeaderClasses} {subclass : Option HeaderClasses} {token : Bytes}
    {sign1 : Sign1} (h : decode codec base subclass token = .ok sign1) :
    ∃ parts, receivedParts codec token = some parts ∧
    Retains sign1.protectedHeaders sign1.payload parts := by
  obtain ⟨item, hitem, h⟩ := bind_eq_ok.mp h
  split at h
  · obtain ⟨encoded, hencoded, hretains⟩ := fromEncodedStructure_eq_ok h
    exact ⟨_, receivedParts_of_tag hitem hencoded, hretains⟩
  · obtain ⟨raw, hraw, h⟩ := bind_eq_ok.mp h
    obtain ⟨encodedItem, hencodedItem, h⟩ := bind_eq_ok.mp h
    obtain ⟨received, hreceived, horiginal, hpayload⟩ := fromEncodedStructure_eq_ok hraw
    obtain ⟨encoded, hencoded, hprotected, hpayload'⟩ := encodedOf_encodedStructure hencodedItem
    obtain ⟨encoded', hencoded', hretains⟩ := fromEncodedStructure_eq_ok h
    obtain rfl : encoded = encoded' := Except.ok.inj (hencoded.symm.trans hencoded')
    -- The subclass reads the headers that the structure of the base class retains.
    have hsame : encoded.protectedHeaders = received.protectedHeaders := Except.ok.inj
      (hprotected.symm.trans (ProtectedHeaders.encodedStructure_of_original horiginal))
    rw [hsame, hpayload', hpayload] at hretains
    exact ⟨_, receivedParts_of_tag hitem hreceived, hretains⟩
  · obtain ⟨encoded, hencoded, hretains⟩ := fromEncodedStructure_eq_ok h
    exact ⟨_, receivedParts_of_encodedOf hitem hencoded, hretains⟩

theorem Mac0.decode_eq_ok {base : HeaderClasses} {subclass : Option HeaderClasses}
    {token : Bytes} {mac0 : Mac0} (h : decode codec base subclass token = .ok mac0) :
    ∃ parts, receivedParts codec token = some parts ∧
    Retains mac0.protectedHeaders mac0.payload parts := by
  obtain ⟨item, hitem, h⟩ := bind_eq_ok.mp h
  split at h
  · obtain ⟨encoded, hencoded, hretains⟩ := fromEncodedStructure_eq_ok h
    exact ⟨_, receivedParts_of_tag hitem hencoded, hretains⟩
  · obtain ⟨raw, hraw, h⟩ := bind_eq_ok.mp h
    obtain ⟨encodedItem, hencodedItem, h⟩ := bind_eq_ok.mp h
    obtain ⟨received, hreceived, horiginal, hpayload⟩ := fromEncodedStructure_eq_ok hraw
    obtain ⟨encoded, hencoded, hprotected, hpayload'⟩ := encodedOf_encodedStructure hencodedItem
    obtain ⟨encoded', hencoded', hretains⟩ := fromEncodedStructure_eq_ok h
    obtain rfl : encoded = encoded' := Except.ok.inj (hencoded.symm.trans hencoded')
    have hsame : encoded.protectedHeaders = received.protectedHeaders := Except.ok.inj
      (hprotected.symm.trans (ProtectedHeaders.encodedStructure_of_original horiginal))
    rw [hsame, hpayload', hpayload] at hretains
    exact ⟨_, receivedParts_of_tag hitem hreceived, hretains⟩
  · obtain ⟨encoded, hencoded, hretains⟩ := fromEncodedStructure_eq_ok h
    exact ⟨_, receivedParts_of_encodedOf hitem hencoded, hretains⟩

theorem Cwt.decodeCoseStructure_eq_ok {base : HeaderClasses} {token : Bytes}
    {coseStructure : Sign1 ⊕ Mac0} (h : decodeCoseStructure codec base token = .ok coseStructure) :
    ∃ parts, receivedParts codec token = some parts ∧
      Retains (coseStructure.elim Sign1.protectedHeaders Mac0.protectedHeaders)
        (coseStructure.elim Sign1.payload Mac0.payload) parts := by
  obtain ⟨item, hitem, h⟩ := bind_eq_ok.mp h
  split at h
  · obtain ⟨sign1, hsign1, h⟩ := bind_eq_ok.mp h
    cases h
    obtain ⟨encoded, hencoded, hretains⟩ := Sign1.fromEncodedStructure_eq_ok hsign1
    exact ⟨_, receivedParts_of_tag hitem hencoded, hretains⟩
  · obtain ⟨mac0, hmac0, h⟩ := bind_eq_ok.mp h
    cases h
    obtain ⟨encoded, hencoded, hretains⟩ := Mac0.fromEncodedStructure_eq_ok hmac0
    exact ⟨_, receivedParts_of_tag hitem hencoded, hretains⟩
  · cases h

theorem Cwt.original_of_rereadProtected {schema : Option HeaderClass}
    {h h' : ProtectedHeaders} {b : Bytes} (horiginal : h.originalEncodedStructure = some b)
    (heq : rereadProtected codec schema h = .ok h') :
    h'.originalEncodedStructure = some b := by
  cases schema with
  | none =>
    cases heq
    exact horiginal
  | some schema =>
    rw [rereadProtected, ProtectedHeaders.encodedStructure_of_original horiginal, ok_bind] at heq
    exact ProtectedHeaders.original_of_fromEncodedStructure heq

theorem Cwt.fromToken_eq_ok {base : HeaderClasses} {structures : CwtStructures}
    {token : Bytes} {cwt : Cwt} (h : fromToken codec base structures token = .ok cwt) :
    ∃ parts, receivedParts codec token = some parts ∧
    Retains cwt.protectedHeaders cwt.originalPayloadBytes parts ∧
      cwt.originalPayloadBytes.isSome := by
  obtain ⟨coseStructure, hcose, h⟩ := bind_eq_ok.mp h
  obtain ⟨parts, hparts, horiginal, hpayload⟩ := decodeCoseStructure_eq_ok hcose
  split at h
  · cases h
  · next payloadBytes hbytes =>
    obtain ⟨payload, -, h⟩ := bind_eq_ok.mp h
    obtain ⟨protectedHeaders, hprotected, h⟩ := bind_eq_ok.mp h
    obtain ⟨unprotectedHeaders, -, h⟩ := bind_eq_ok.mp h
    cases h
    exact ⟨parts, hparts, ⟨original_of_rereadProtected horiginal hprotected,
      hbytes.symm.trans hpayload⟩, rfl⟩

/-! ### Structures that are written -/

theorem cborDecode_encode_tag {n : ℕ} {item : Item} (h : n ≠ 24) :
    cborDecode codec (codec.encode (.tag n item)) = .ok (.tag n item) :=
  cborDecode_eq (codec.decode_encode _) fun _ htag => h (Item.tag.inj htag).1

theorem Sign1.receivedParts_encode {sign1 : Sign1} {token : Bytes}
    (h : encode codec sign1 = .ok token) :
    ∃ b, sign1.protectedHeaders.encodedStructure codec = .ok b ∧
    receivedParts codec token = some (b, sign1.payload) := by
  obtain ⟨item, hitem, h⟩ := bind_eq_ok.mp h
  cases h
  obtain ⟨encoded, hencoded, hprotected, hpayload⟩ := encodedOf_encodedStructure hitem
  rw [← hpayload]
  exact ⟨_, hprotected, receivedParts_of_tag (cborDecode_encode_tag (by decide)) hencoded⟩

theorem Mac0.receivedParts_encode {mac0 : Mac0} {token : Bytes}
    (h : encode codec mac0 = .ok token) :
    ∃ b, mac0.protectedHeaders.encodedStructure codec = .ok b ∧
    receivedParts codec token = some (b, mac0.payload) := by
  obtain ⟨item, hitem, h⟩ := bind_eq_ok.mp h
  cases h
  obtain ⟨encoded, hencoded, hprotected, hpayload⟩ := encodedOf_encodedStructure hitem
  rw [← hpayload]
  exact ⟨_, hprotected, receivedParts_of_tag (cborDecode_encode_tag (by decide)) hencoded⟩

end IdentityCommon.Cose
