import IdentityCommon.Cose.Sign1

/-!
# COSE_Mac0

Authentication codes over a payload and its protected headers, and the structures that the two kinds
of COSE structures sign or authenticate.

## Main definitions

- `Mac0.toBeAuthenticated`, `Mac0.toBeAuthenticatedOf` — the bytes that are authenticated
- `Mac0.authenticateRequest`, `Mac0.verifyRequest` — the arguments of the two callbacks
- `sigStructure`, `macStructure` — the structures of the standard, with a zero-length string for
  absent external data

## Main results

- `toBeSigned_structures` — a `Sig_structure` is always that of the standard; a `MAC_structure` is
  exactly where there is external data
- `macStructure_withoutExternalData` — a code over three items instead of four

## Design notes

`Mac0.toBeAuthenticatedOf` leaves out the external data where there are none, so that the array has
three items.
-/

namespace IdentityCommon.Cose

open IdentityCommon.Cbor IdentityCommon.Except

structure Mac0 where
  protectedHeaders : ProtectedHeaders
  unprotectedHeaders : UnprotectedHeaders
  payload : Option Bytes
  tag : Bytes

namespace Mac0

variable (codec : Codec)

def cborTag : ℕ := 17

/-- The static `toBeAuthenticated`. -/
def toBeAuthenticatedOf (payload : Bytes) (protectedHeaders : ProtectedHeaders)
    (externalAad : Option Bytes) : Except CoseError Bytes := do
  let encoded ← protectedHeaders.encodedStructure codec
  .ok (codec.encode (.array ([.text "MAC0", .bytes encoded] ++
    (externalAad.map Item.bytes).toList ++ [.bytes payload])))

def toBeAuthenticated (mac0 : Mac0) (options : Supplied) : Except CoseError Bytes := do
  let payload ← payloadOf "Mac0" mac0.payload options.detachedPayload
  toBeAuthenticatedOf codec payload mac0.protectedHeaders options.externalAad

def algorithm (mac0 : Mac0) : Except CoseError (Option Item) :=
  algorithmOf MacAlgorithm mac0.protectedHeaders.headers

structure AuthenticateRequest where
  toBeAuthenticated : Bytes
  key : CoseKey ⊕ Bytes
  algorithm : Item

/-- What `authenticate` hands to the callback. -/
def authenticateRequest (mac0 : Mac0) (key : CoseKey ⊕ Bytes) (algorithm : Option Item)
    (options : Supplied) : Except CoseError AuthenticateRequest := do
  let payload ← payloadOf "Mac0" mac0.payload options.detachedPayload
  match (keyAlgorithm key algorithm).filter truthy with
  | none => .error (.invalidAlgorithm
      ("Could not establish mac algorithm. Either provide it in the options " ++
      "directly, or provide it in the signingKey"))
  | some macAlgorithm =>
    if macAlgorithm ∉ enumValues MacAlgorithm then
      .error (.invalidAlgorithm "Invalid mac algorithm.")
    else do
      let toBeAuthenticated ← toBeAuthenticatedOf codec payload mac0.protectedHeaders
        options.externalAad
      .ok { toBeAuthenticated, key, algorithm := macAlgorithm }
where
  keyAlgorithm : CoseKey ⊕ Bytes → Option Item → Option Item
    | .inl key, _ => key.algorithm
    | .inr _, algorithm => algorithm

def authenticate (mac0 : Mac0) (key : CoseKey ⊕ Bytes) (algorithm : Option Item)
    (options : Supplied) (callback : AuthenticateRequest → Except CoseError Bytes) :
    Except CoseError Mac0 := do
  let tag ← callback (← authenticateRequest codec mac0 key algorithm options)
  .ok { mac0 with tag }

structure VerifyRequest where
  toBeAuthenticated : Bytes
  tag : Bytes
  key : CoseKey
  algorithm : Option Item

/-- What `verifyAuthenticationCode` hands to the callback. -/
def verifyRequest (mac0 : Mac0) (key : CoseKey) (options : Supplied) :
    Except CoseError VerifyRequest := do
  if mac0.payload.isSome ∧ options.detachedPayload.isSome then
    .error (.error
      "Cannot provide detachedPayload when the Mac0 already contains an embedded payload")
  else do
    let toBeAuthenticated ← toBeAuthenticated codec mac0 options
    let algorithm ← mac0.algorithm
    .ok { toBeAuthenticated, tag := mac0.tag, key, algorithm }

def verifyAuthenticationCode (mac0 : Mac0) (key : CoseKey) (options : Supplied)
    (verify : VerifyRequest → Except CoseError Bool) : Except CoseError Bool := do
  verify (← verifyRequest codec mac0 key options)

/-! ### On the wire -/

def encodedStructure (mac0 : Mac0) : Except CoseError Item :=
  if mac0.tag = [] then
    .error (.error "Tag has not been set. Required for encoding the mac0 structure")
  else do
    let protectedHeaders ← mac0.protectedHeaders.encodedStructure codec
    let unprotectedHeaders ← mac0.unprotectedHeaders.encodedStructure
    .ok (.array [.bytes protectedHeaders, unprotectedHeaders,
      Sign1.encodedStructure.payloadItem mac0.payload, .bytes mac0.tag])

def encode (mac0 : Mac0) : Except CoseError Bytes := do
  .ok (codec.encode (.tag cborTag (← encodedStructure codec mac0)))

/-! ### What is authenticated -/

variable {codec}

theorem toBeAuthenticatedOf_eq_ok {payload : Bytes} {protectedHeaders : ProtectedHeaders}
    {externalAad : Option Bytes} {b : Bytes} :
    toBeAuthenticatedOf codec payload protectedHeaders externalAad = .ok b ↔
      ∃ encoded, protectedHeaders.encodedStructure codec = .ok encoded ∧ b = codec.encode
        (.array ([.text "MAC0", .bytes encoded] ++ (externalAad.map Item.bytes).toList ++
          [.bytes payload])) := by
  rw [toBeAuthenticatedOf, bind_eq_ok]
  simp only [Except.ok.injEq, eq_comm]

theorem toBeAuthenticated_eq_ok {mac0 : Mac0} {options : Supplied} {b : Bytes} :
    toBeAuthenticated codec mac0 options = .ok b ↔
      ∃ payload, payloadOf "Mac0" mac0.payload options.detachedPayload = .ok payload ∧
      toBeAuthenticatedOf codec payload mac0.protectedHeaders options.externalAad = .ok b :=
        bind_eq_ok

theorem toBeAuthenticated_of_verifyRequest {mac0 : Mac0} {key : CoseKey} {options : Supplied}
    {request : VerifyRequest} (h : verifyRequest codec mac0 key options = .ok request) :
    toBeAuthenticated codec mac0 options = .ok request.toBeAuthenticated := by
  rw [verifyRequest] at h
  split at h
  · cases h
  · obtain ⟨b, hb, h⟩ := bind_eq_ok.mp h
    obtain ⟨algorithm, -, h⟩ := bind_eq_ok.mp h
    cases h
    exact hb

theorem toBeAuthenticated_of_authenticateRequest {mac0 : Mac0} {key : CoseKey ⊕ Bytes}
    {algorithm : Option Item} {options : Supplied} {request : AuthenticateRequest}
    (h : authenticateRequest codec mac0 key algorithm options = .ok request) :
    toBeAuthenticated codec mac0 options = .ok request.toBeAuthenticated := by
  obtain ⟨payload, hpayload, h⟩ := bind_eq_ok.mp h
  split at h
  · cases h
  · split at h
    · cases h
    · obtain ⟨b, hb, h⟩ := bind_eq_ok.mp h
      cases h
      exact toBeAuthenticated_eq_ok.mpr ⟨payload, hpayload, hb⟩

end Mac0

/-! ## The structures of the standard -/

/-- The `Sig_structure` of a COSE_Sign1. -/
def sigStructure (encoded externalAad payload : Bytes) : Item :=
  .array [.text "Signature1", .bytes encoded, .bytes externalAad, .bytes payload]

/-- The `MAC_structure` of a COSE_Mac0. -/
def macStructure (encoded externalAad payload : Bytes) : Item :=
  .array [.text "MAC0", .bytes encoded, .bytes externalAad, .bytes payload]

/-- The protected headers on the wire, the external data and the payload of an operation. -/
structure Triple where
  encoded : Bytes
  externalAad : Bytes
  payload : Bytes
  deriving DecidableEq

/-- What an operation with some headers is about. -/
def IsTriple (codec : Codec) (structureName : String) (protectedHeaders : ProtectedHeaders)
    (embedded : Option Bytes) (options : Supplied) (t : Triple) : Prop :=
  protectedHeaders.encodedStructure codec = .ok t.encoded ∧
  options.externalAad.getD [] = t.externalAad ∧
    payloadOf structureName embedded options.detachedPayload = .ok t.payload

theorem toBeSigned_eq {codec : Codec} {sign1 : Sign1} {options : Supplied} {t : Triple}
    (h : IsTriple codec "Sign1" sign1.protectedHeaders sign1.payload options t) :
    sign1.toBeSigned codec options =
      .ok (codec.encode (sigStructure t.encoded t.externalAad t.payload)) := by
  obtain ⟨hencoded, haad, hpayload⟩ := h
  rw [Sign1.toBeSigned_eq_ok]
  refine ⟨_, hpayload, Sign1.toBeSignedOf_eq_ok.mpr ⟨_, hencoded, ?_⟩⟩
  rw [haad, sigStructure]

theorem toBeAuthenticated_eq {codec : Codec} {mac0 : Mac0} {options : Supplied} {t : Triple}
    (h : IsTriple codec "Mac0" mac0.protectedHeaders mac0.payload options t) :
    mac0.toBeAuthenticated codec options = .ok (codec.encode (.array
      ([.text "MAC0", .bytes t.encoded] ++ (options.externalAad.map Item.bytes).toList ++
        [.bytes t.payload]))) := by
  obtain ⟨hencoded, -, hpayload⟩ := h
  exact Mac0.toBeAuthenticated_eq_ok.mpr ⟨_, hpayload,
    Mac0.toBeAuthenticatedOf_eq_ok.mpr ⟨_, hencoded, rfl⟩⟩

/-- The array has four items only where there is external data. -/
theorem toBeAuthenticated_iff {codec : Codec} {mac0 : Mac0} {options : Supplied} {t : Triple}
    (h : IsTriple codec "Mac0" mac0.protectedHeaders mac0.payload options t) :
    mac0.toBeAuthenticated codec options =
      .ok (codec.encode (macStructure t.encoded t.externalAad t.payload)) ↔
      options.externalAad.isSome := by
  rw [toBeAuthenticated_eq h, Except.ok.injEq, codec.encode_injective.eq_iff, macStructure,
    Item.array.injEq]
  obtain ⟨-, haad, -⟩ := h
  cases hoption : options.externalAad with
  | none => simp
  | some externalAad =>
    rw [hoption, Option.getD_some] at haad
    simp [haad]

theorem triple_of_toBeSigned {codec : Codec} {sign1 sign1' : Sign1} {options options' : Supplied}
    {t t' : Triple} (h : IsTriple codec "Sign1" sign1.protectedHeaders sign1.payload options t)
    (h' : IsTriple codec "Sign1" sign1'.protectedHeaders sign1'.payload options' t')
    (heq : sign1.toBeSigned codec options = sign1'.toBeSigned codec options') : t = t' := by
  rw [toBeSigned_eq h, toBeSigned_eq h', Except.ok.injEq, codec.encode_injective.eq_iff] at heq
  cases t
  cases t'
  simpa [sigStructure] using heq

/-- Three items and four items are different arrays, so that what is left out is not confused with
what is there. -/
theorem triple_of_toBeAuthenticated {codec : Codec} {mac0 mac0' : Mac0}
    {options options' : Supplied} {t t' : Triple}
    (h : IsTriple codec "Mac0" mac0.protectedHeaders mac0.payload options t)
    (h' : IsTriple codec "Mac0" mac0'.protectedHeaders mac0'.payload options' t')
    (heq : mac0.toBeAuthenticated codec options = mac0'.toBeAuthenticated codec options') :
    t = t' := by
  rw [toBeAuthenticated_eq h, toBeAuthenticated_eq h', Except.ok.injEq,
    codec.encode_injective.eq_iff, Item.array.injEq] at heq
  obtain ⟨-, haad, -⟩ := h
  obtain ⟨-, haad', -⟩ := h'
  obtain ⟨encoded, aad, payload⟩ := t
  obtain ⟨encoded', aad', payload'⟩ := t'
  dsimp only at haad haad' heq
  cases hoption : options.externalAad <;> cases hoption' : options'.externalAad <;>
    rw [hoption] at haad heq <;> rw [hoption'] at haad' heq <;> simp_all

/-- What the two kinds of structures sign and authenticate. -/
theorem toBeSigned_structures (codec : Codec) :
    (∀ (sign1 : Sign1) options t,
      IsTriple codec "Sign1" sign1.protectedHeaders sign1.payload options t →
      sign1.toBeSigned codec options =
        .ok (codec.encode (sigStructure t.encoded t.externalAad t.payload))) ∧
    (∀ (mac0 : Mac0) options t, IsTriple codec "Mac0" mac0.protectedHeaders mac0.payload options t →
      (mac0.toBeAuthenticated codec options =
        .ok (codec.encode (macStructure t.encoded t.externalAad t.payload)) ↔
        options.externalAad.isSome)) ∧
    (∀ (sign1 : Sign1) key key' algorithm options signature request request',
      Sign1.signRequest codec sign1 key algorithm options = .ok request →
      Sign1.verifyRequest codec { sign1 with signature } key' options = .ok request' →
      sign1.toBeSigned codec options = .ok request.toBeSigned ∧
        request'.toBeVerified = request.toBeSigned) ∧
    (∀ (mac0 : Mac0) key key' algorithm options tag request request',
      Mac0.authenticateRequest codec mac0 key algorithm options = .ok request →
      Mac0.verifyRequest codec { mac0 with tag } key' options = .ok request' →
      mac0.toBeAuthenticated codec options = .ok request.toBeAuthenticated ∧
        request'.toBeAuthenticated = request.toBeAuthenticated) ∧
    (∀ (sign1 sign1' : Sign1) options options' t t',
      IsTriple codec "Sign1" sign1.protectedHeaders sign1.payload options t →
      IsTriple codec "Sign1" sign1'.protectedHeaders sign1'.payload options' t' → t ≠ t' →
      sign1.toBeSigned codec options ≠ sign1'.toBeSigned codec options') ∧
    (∀ (mac0 mac0' : Mac0) options options' t t',
      IsTriple codec "Mac0" mac0.protectedHeaders mac0.payload options t →
      IsTriple codec "Mac0" mac0'.protectedHeaders mac0'.payload options' t' → t ≠ t' →
      mac0.toBeAuthenticated codec options ≠ mac0'.toBeAuthenticated codec options') := by
  refine ⟨fun _ _ _ => toBeSigned_eq, fun _ _ _ => toBeAuthenticated_iff, ?_, ?_,
    fun _ _ _ _ _ _ h h' hne heq => hne (triple_of_toBeSigned h h' heq),
    fun _ _ _ _ _ _ h h' hne heq => hne (triple_of_toBeAuthenticated h h' heq)⟩
  · intro sign1 key key' algorithm options signature request request' h h'
    have hsigned := Sign1.toBeSigned_of_signRequest h
    have hverified := Sign1.toBeSigned_of_verifyRequest h'
    exact ⟨hsigned, Except.ok.inj (hverified.symm.trans hsigned)⟩
  · intro mac0 key key' algorithm options tag request request' h h'
    have hauthenticated := Mac0.toBeAuthenticated_of_authenticateRequest h
    have hverified := Mac0.toBeAuthenticated_of_verifyRequest h'
    exact ⟨hauthenticated, Except.ok.inj (hverified.symm.trans hauthenticated)⟩

/-- Headers that name an algorithm, and one byte of payload. -/
def headersExample (algorithm : ℤ) : ProtectedHeaders where
  schema := { name := "ProtectedHeaders", check := fun _ => true }
  headers := TypedMap.fromEntries [(RegisteredCwtHeaderClaimKey.algorithm, ofInt algorithm)]
  originalEncodedStructure := none

def mac0Example : Mac0 where
  protectedHeaders := headersExample 5
  unprotectedHeaders := {
    schema := { name := "UnprotectedHeaders", check := fun _ => true }
    headers := OrderedMap.empty }
  payload := some [1]
  tag := []

/-- Without external data the array has three items. -/
theorem macStructure_withoutExternalData :
    IsTriple shortest "Mac0" mac0Example.protectedHeaders mac0Example.payload {}
      { encoded := [0xa1, 1, 5], externalAad := [], payload := [1] } ∧
    mac0Example.toBeAuthenticated shortest {} =
      .ok [0x83, 0x64, 0x4d, 0x41, 0x43, 0x30, 0x43, 0xa1, 1, 5, 0x41, 1] ∧
    shortest.encode (macStructure [0xa1, 1, 5] [] [1]) =
      [0x84, 0x64, 0x4d, 0x41, 0x43, 0x30, 0x43, 0xa1, 1, 5, 0x40, 0x41, 1] :=
  ⟨⟨rfl, rfl, rfl⟩, rfl, rfl⟩

theorem macStructure_withExternalData :
    mac0Example.toBeAuthenticated shortest { externalAad := some [7] } =
      .ok (shortest.encode (macStructure [0xa1, 1, 5] [7] [1])) := by
  obtain ⟨-, hmac, -⟩ := toBeSigned_structures shortest
  exact (hmac mac0Example { externalAad := some [7] }
    { encoded := [0xa1, 1, 5], externalAad := [7], payload := [1] } ⟨rfl, rfl, rfl⟩).mpr rfl

end IdentityCommon.Cose
