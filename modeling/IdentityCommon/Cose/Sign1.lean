import IdentityCommon.Cose.Headers

/-!
# COSE_Sign1

Signatures over a payload and its protected headers, and what is handed to the callbacks that make
and check them.

## Main definitions

- `Sign1.toBeSigned`, `Sign1.toBeSignedOf` — the bytes of the `Sig_structure`
- `Sign1.signRequest`, `Sign1.verifyRequest` — the arguments of the two callbacks
- `Sign1.encode` — the structure on the wire

## Main results

- `Sign1.toBeSignedOf_eq_ok` — the `Sig_structure`, with a zero-length string for data that is
  absent
- `Sign1.toBeSigned_of_signRequest`, `Sign1.toBeSigned_of_verifyRequest` — both callbacks get these
  bytes
-/

namespace IdentityCommon.Cose

open IdentityCommon.Cbor IdentityCommon.Except

/-! ## Keys of an algorithm -/

def ecdsaCurves : List Curve := [.p256, .p384, .p521]

def eddsaCurves : List Curve := [.ed25519, .ed448]

/-- The type and the curves of the keys of an algorithm. -/
def signatureAlgorithmKeys : List (Item × KeyType × List Curve) :=
  [(ofInt (-7), .ec, ecdsaCurves), (ofInt (-35), .ec, ecdsaCurves), (ofInt (-36), .ec, ecdsaCurves),
    (ofInt (-9), .ec, [.p256]), (ofInt (-51), .ec, [.p384]), (ofInt (-52), .ec, [.p521]),
    (ofInt (-8), .okp, eddsaCurves), (ofInt (-19), .okp, [.ed25519]), (ofInt (-53), .okp, [.ed448])]

/-- `SignatureAlgorithm[algorithm]`. -/
def signatureAlgorithmName (algorithm : Item) : String :=
  ((SignatureAlgorithm.find? fun m => ofInt m.2 = algorithm).map Prod.fst).getD "undefined"

def keyTypeName : KeyType → String
  | .ec => "EC2"
  | .okp => "OKP"
  | _ => "undefined"

def assertKeyMatchesAlgorithm (key : CoseKey) : Option Item → Except CoseError Unit
  | none => .ok ()
  | some algorithm =>
    match signatureAlgorithmKeys.lookup algorithm with
    | none => .ok ()
    | some (keyType, curves) =>
      if key.keyType = ofInt keyType.value ∧
          (key.curve.any fun curve => curve ∈ curves.map fun c => ofInt c.value) then
        .ok ()
      else .error (.invalidAlgorithm
        ("Algorithm " ++ signatureAlgorithmName algorithm ++ " requires an " ++
        keyTypeName keyType ++ " key on curve " ++ " or ".intercalate (curves.map Curve.name)))

/-! ## Payloads -/

/-- The payload of a structure, embedded or detached. -/
def payloadOf (structureName : String) : Option Bytes → Option Bytes → Except CoseError Bytes
  | some _, some _ => .error (.error
      ("Cannot provide detachedPayload when the " ++ structureName ++
        " already contains an embedded payload"))
  | some payload, none => .ok payload
  | none, some payload => .ok payload
  | none, none => .error .payloadMustBeDefined

/-- The payload and the data that are given to an operation. -/
structure Supplied where
  detachedPayload : Option Bytes := none
  externalAad : Option Bytes := none

/-! ## The structure -/

structure Sign1 where
  protectedHeaders : ProtectedHeaders
  unprotectedHeaders : UnprotectedHeaders
  payload : Option Bytes
  signature : Bytes

namespace Sign1

variable (codec : Codec)

def tag : ℕ := 18

/-- The static `toBeSigned`. -/
def toBeSignedOf (payload : Bytes) (protectedHeaders : ProtectedHeaders)
    (externalAad : Option Bytes) : Except CoseError Bytes := do
  let encoded ← protectedHeaders.encodedStructure codec
  .ok (codec.encode (.array [.text "Signature1", .bytes encoded, .bytes (externalAad.getD []),
    .bytes payload]))

def toBeSigned (sign1 : Sign1) (options : Supplied) : Except CoseError Bytes := do
  let payload ← payloadOf "Sign1" sign1.payload options.detachedPayload
  toBeSignedOf codec payload sign1.protectedHeaders options.externalAad

def algorithm (sign1 : Sign1) : Except CoseError (Option Item) :=
  algorithmOf SignatureAlgorithm sign1.protectedHeaders.headers

structure VerifyRequest where
  toBeVerified : Bytes
  signature : Bytes
  key : CoseKey
  algorithm : Option Item

/-- What `verifySignature` hands to the callback. -/
def verifyRequest (sign1 : Sign1) (key : CoseKey) (options : Supplied) :
    Except CoseError VerifyRequest := do
  if sign1.payload.isSome ∧ options.detachedPayload.isSome then
    .error (.error
      "Cannot provide detachedPayload when the Sign1 already contains an embedded payload")
  else do
    let algorithm ← sign1.algorithm
    assertKeyMatchesAlgorithm key algorithm
    let toBeVerified ← toBeSigned codec sign1 options
    .ok { toBeVerified, signature := sign1.signature, key, algorithm }

def verifySignature (sign1 : Sign1) (key : CoseKey) (options : Supplied)
    (verify : VerifyRequest → Except CoseError Bool) : Except CoseError Bool := do
  verify (← verifyRequest codec sign1 key options)

structure SignRequest where
  toBeSigned : Bytes
  key : CoseKey
  algorithm : Item

/-- What `sign` hands to the callback. -/
def signRequest (sign1 : Sign1) (signingKey : CoseKey) (algorithm : Option Item)
    (options : Supplied) : Except CoseError SignRequest := do
  let payload ← payloadOf "Sign1" sign1.payload options.detachedPayload
  match (algorithm.or signingKey.algorithm).filter truthy with
  | none => .error (.invalidAlgorithm
      ("Could not establish signature algorithm. Either provide it in the " ++
      "options directly, or provide it in the signingKey"))
  | some signatureAlgorithm =>
    if signatureAlgorithm ∉ enumValues SignatureAlgorithm then
      .error (.invalidAlgorithm
        "algorithm provided in the options or key is not a valid signing algorithm")
    else do
      assertKeyMatchesAlgorithm signingKey (some signatureAlgorithm)
      let toBeSigned ← toBeSignedOf codec payload sign1.protectedHeaders options.externalAad
      .ok { toBeSigned, key := signingKey, algorithm := signatureAlgorithm }

def sign (sign1 : Sign1) (signingKey : CoseKey) (algorithm : Option Item) (options : Supplied)
    (callback : SignRequest → Except CoseError Bytes) : Except CoseError Sign1 := do
  let signature ← callback (← signRequest codec sign1 signingKey algorithm options)
  .ok { sign1 with signature }

/-! ### On the wire -/

def encodedStructure (sign1 : Sign1) : Except CoseError Item :=
  if sign1.signature = [] then
    .error (.error "Signature has not been set. Required for encoding the sign1 structure")
  else do
    let protectedHeaders ← sign1.protectedHeaders.encodedStructure codec
    let unprotectedHeaders ← sign1.unprotectedHeaders.encodedStructure
    .ok (.array [.bytes protectedHeaders, unprotectedHeaders, payloadItem sign1.payload,
      .bytes sign1.signature])
where
  payloadItem : Option Bytes → Item
    | some payload => .bytes payload
    | none => .simple 22

def encode (sign1 : Sign1) : Except CoseError Bytes := do
  .ok (codec.encode (.tag tag (← encodedStructure codec sign1)))

/-! ### What is signed -/

variable {codec}

theorem toBeSignedOf_eq_ok {payload : Bytes} {protectedHeaders : ProtectedHeaders}
    {externalAad : Option Bytes} {b : Bytes} :
    toBeSignedOf codec payload protectedHeaders externalAad = .ok b ↔
      ∃ encoded, protectedHeaders.encodedStructure codec = .ok encoded ∧
        b = codec.encode (.array [.text "Signature1", .bytes encoded, .bytes (externalAad.getD []),
          .bytes payload]) := by
  rw [toBeSignedOf, bind_eq_ok]
  simp only [Except.ok.injEq, eq_comm]

theorem toBeSigned_eq_ok {sign1 : Sign1} {options : Supplied} {b : Bytes} :
    toBeSigned codec sign1 options = .ok b ↔
      ∃ payload, payloadOf "Sign1" sign1.payload options.detachedPayload = .ok payload ∧
      toBeSignedOf codec payload sign1.protectedHeaders options.externalAad = .ok b := bind_eq_ok

theorem toBeSigned_of_verifyRequest {sign1 : Sign1} {key : CoseKey} {options : Supplied}
    {request : VerifyRequest} (h : verifyRequest codec sign1 key options = .ok request) :
    toBeSigned codec sign1 options = .ok request.toBeVerified := by
  rw [verifyRequest] at h
  split at h
  · cases h
  · obtain ⟨algorithm, -, h⟩ := bind_eq_ok.mp h
    obtain ⟨-, -, h⟩ := bind_eq_ok.mp h
    obtain ⟨b, hb, h⟩ := bind_eq_ok.mp h
    cases h
    exact hb

theorem toBeSigned_of_signRequest {sign1 : Sign1} {key : CoseKey} {algorithm : Option Item}
    {options : Supplied} {request : SignRequest}
    (h : signRequest codec sign1 key algorithm options = .ok request) :
    toBeSigned codec sign1 options = .ok request.toBeSigned := by
  obtain ⟨payload, hpayload, h⟩ := bind_eq_ok.mp h
  split at h
  · cases h
  · split at h
    · cases h
    · obtain ⟨-, -, h⟩ := bind_eq_ok.mp h
      obtain ⟨b, hb, h⟩ := bind_eq_ok.mp h
      cases h
      exact toBeSigned_eq_ok.mpr ⟨payload, hpayload, hb⟩

end Sign1

end IdentityCommon.Cose
