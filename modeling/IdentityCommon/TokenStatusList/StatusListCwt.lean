import IdentityCommon.TokenStatusList.StatusListCbor
import Mathlib.Algebra.Order.Ring.Rat

/-!
# Status list tokens in CWT

`StatusListCwt`: the claims of a token, one of which is a status list, and the payload bytes of the
token that it was decoded from, which are signed again until the payload is marked as modified.

## Main definitions

- `StatusListCwtPayload` — claims that meet the schema
- `payloadBytes`, `signAndEncode` — the bytes that are signed, and the signed token
- `StatusListCwt.step` — the operations on a token
- `History` — whether a token is as it was decoded, was changed in place, or is marked as modified
- `report` — what the claims of a token are, with the statuses in place of the compressed bytes

## Main results

- `statusListTokens` — the runs of status lists and of tokens
- `changedInPlace_signed` — what they do not promise

## Design notes

A change of the status list in place, through the payload of a token, is not seen by the token: the
caller has to mark the payload as modified. The COSE structure of a token is taken as decoded, and
so are its headers, of types `P` and `U`.
-/

namespace IdentityCommon.TokenStatusList

open IdentityCommon.Except Run

variable {X B P U : Type}

/-- A claim: a value, or a map such as that of a status list. -/
abbrev Claim (X : Type) := Field (OrderedMap Label (Field X) ⊕ X)

/-! ## Claims -/

namespace ClaimKey

def issuer : Label := .int 1
def subject : Label := .int 2
def audience : Label := .int 3
def expirationTime : Label := .int 4
def notBefore : Label := .int 5
def issuedAt : Label := .int 6
def cwtId : Label := .int 7
def statusList : Label := .int 65533
def timeToLive : Label := .int 65534

end ClaimKey

/-- What the schema says about a claim: whether it is required, and which values it has. -/
structure ClaimSchema (X : Type) where
  label : Label
  required : Bool
  check : Claim X → Bool

def isText : Claim X → Bool
  | .text _ => true
  | _ => false

def isAudience : Claim X → Bool
  | .text _ | .texts _ => true
  | _ => false

def isNumber : Claim X → Bool
  | .number _ => true
  | _ => false

def isPositive : Claim X → Bool
  | .number n => 0 < n
  | _ => false

def isBytes : Claim X → Bool
  | .bytes _ => true
  | _ => false

def zStatusListCwtPayload : List (ClaimSchema X) :=
  [⟨ClaimKey.issuer, false, isText⟩, ⟨ClaimKey.audience, false, isAudience⟩,
    ⟨ClaimKey.expirationTime, false, isNumber⟩, ⟨ClaimKey.notBefore, false, isNumber⟩,
      ⟨ClaimKey.cwtId, false, isBytes⟩,
    ⟨ClaimKey.subject, true, isText⟩, ⟨ClaimKey.issuedAt, true, isNumber⟩,
      ⟨ClaimKey.timeToLive, false, isPositive⟩]

/-- A claim of a decoded payload. The status list is an object of its own. -/
abbrev PayloadClaim (X : Type) := Claim X ⊕ StatusListCbor X

def ClaimSchema.holds (schema : ClaimSchema X) : Option (PayloadClaim X) → Bool
  | none => !schema.required
  | some (.inl claim) => schema.check claim
  | some (.inr _) => false

def claimsOk (claims : OrderedMap Label (PayloadClaim X)) : Bool :=
  zStatusListCwtPayload.all fun schema => schema.holds (claims.get schema.label)

theorem claimsOk_set (claims : OrderedMap Label (PayloadClaim X)) (claim : PayloadClaim X) :
    claimsOk (claims.set ClaimKey.statusList claim) = claimsOk claims := by
  simp [claimsOk, zStatusListCwtPayload, OrderedMap.get_set, ClaimKey.issuer, ClaimKey.audience,
    ClaimKey.expirationTime, ClaimKey.notBefore, ClaimKey.cwtId, ClaimKey.subject,
    ClaimKey.issuedAt, ClaimKey.timeToLive, ClaimKey.statusList]

/-- The claims of a token that meet the schema. -/
structure StatusListCwtPayload (X : Type) where
  claims : OrderedMap Label (PayloadClaim X)
  statusList : StatusListCbor X
  get_statusList : claims.get ClaimKey.statusList = some (.inr statusList)
  checked : claimsOk claims = true

namespace StatusListCwtPayload

/-- The payload with another status list, or with the same object in another state. -/
def setStatusList (payload : StatusListCwtPayload X) (list : StatusListCbor X) :
    StatusListCwtPayload X where
  claims := payload.claims.set ClaimKey.statusList (.inr list)
  statusList := list
  get_statusList := OrderedMap.get_set_self ..
  checked := (claimsOk_set ..).trans payload.checked

/-- A payload of some claims and a status list, if they meet the schema. -/
def fromClaims (claims : OrderedMap Label (PayloadClaim X)) (list : StatusListCbor X) :
    Except TokenError (StatusListCwtPayload X) :=
  if h : claimsOk claims = true then .ok {
    claims := claims.set ClaimKey.statusList (.inr list), statusList := list
    get_statusList := OrderedMap.get_set_self .., checked := (claimsOk_set ..).trans h }
  else .error (.cose "Error decoding StatusListCwtPayload")

structure CreateOptions (X : Type) where
  issuer : Option String := none
  subject : String
  audience : Option (String ⊕ List String) := none
  /-- Times, in seconds. -/
  expirationTime : Option ℚ := none
  notBefore : Option ℚ := none
  issuedAt : Option ℚ := none
  cwtId : Option (List UInt8) := none
  additionalClaims : OrderedMap Label (Claim X) := .empty
  timeToLive : Option ℚ := none

def setIfSome (claims : OrderedMap Label (Claim X)) :
    Label × Option (Claim X) → OrderedMap Label (Claim X)
  | (label, some claim) => claims.set label claim
  | (_, none) => claims

def cwtPayloadClaimsFromOptions (options : CreateOptions X) (now : ℚ) :
    OrderedMap Label (Claim X) :=
  let registered : List (Label × Option (Claim X)) :=
    [(ClaimKey.issuer, options.issuer.map .text), (ClaimKey.subject, some (.text options.subject)),
      (ClaimKey.audience, options.audience.map (Sum.elim .text .texts)),
      (ClaimKey.expirationTime, options.expirationTime.map .number),
        (ClaimKey.notBefore, options.notBefore.map .number),
      (ClaimKey.issuedAt, some (.number (options.issuedAt.getD now))),
        (ClaimKey.cwtId, options.cwtId.map .bytes)]
  options.additionalClaims.entries.foldl (fun claims entry => claims.set entry.1 entry.2)
    (registered.foldl setIfSome .empty)

def create (options : CreateOptions X) (now : ℚ) (list : StatusListCbor X) :
    Except TokenError (StatusListCwtPayload X) :=
  let claims : OrderedMap Label (PayloadClaim X) :=
    ((cwtPayloadClaimsFromOptions options now).mapVal .inl).set ClaimKey.statusList (.inr list)
  match options.timeToLive with
  | some timeToLive => fromClaims (claims.set ClaimKey.timeToLive (.inl (.number timeToLive))) list
  | none => fromClaims claims list

def fromEncodedStructure (input : OrderedMap Label (Claim X)) :
    Except TokenError (StatusListCwtPayload X) :=
  match input.get ClaimKey.statusList with
  | some (.other (.inl entries)) => do
    let list ← StatusListCbor.fromEncodedStructure entries
    fromClaims (input.mapVal .inl) list
  | _ => .error (.cose "Error decoding StatusListCbor")

def decode (cbor : Cbor (OrderedMap Label (Field X) ⊕ X) B) (bytes : B) :
    Except TokenError (StatusListCwtPayload X) := do
  match ← cbor.cborDecode bytes with
  | .map input => fromEncodedStructure input
  | _ => .error (.cose "Error decoding StatusListCwtPayload")

/-- A claim as it is in the map of a payload. -/
def encodeClaim : PayloadClaim X → Claim X
  | .inl claim => claim
  | .inr list => .other (.inl list.entries)

/-- The claims with some entries for the status list. -/
def claimsWith (payload : StatusListCwtPayload X) (entries : OrderedMap Label (Field X)) :
    OrderedMap Label (Claim X) :=
  (payload.claims.mapVal encodeClaim).set ClaimKey.statusList (.other (.inl entries))

section Pako

variable (pako : Pako)

def encodedStructure (payload : StatusListCwtPayload X) :
    StatusListCwtPayload X × Except TokenError (OrderedMap Label (Claim X)) :=
  match payload.statusList.encodedStructure pako with
  | (list, .ok entries) => (payload.setStatusList list, .ok (payload.claimsWith entries))
  | (list, .error e) => (payload.setStatusList list, .error e)

def encode (cbor : Cbor (OrderedMap Label (Field X) ⊕ X) B) (payload : StatusListCwtPayload X) :
    StatusListCwtPayload X × Except TokenError B :=
  let (payload, result) := payload.encodedStructure pako
  (payload, cbor.encode <$> result)

end Pako

end StatusListCwtPayload

/-! ## Tokens -/

/-- A decoded COSE structure. The payload is missing when it is detached. -/
structure CoseStructure (P U B : Type) where
  protectedHeaders : P
  unprotectedHeaders : U
  payload : Option B

/-- What a signature covers. -/
structure SigStructure (P B : Type) where
  context : String := "Signature1"
  protectedHeaders : P
  externalAad : List UInt8
  payload : B

structure Sign1 (P U B : Type) where
  protectedHeaders : P
  unprotectedHeaders : U
  payload : B
  signature : List UInt8

structure StatusListCwt (X B P U : Type) where
  payload : StatusListCwtPayload X
  protectedHeaders : P
  unprotectedHeaders : U
  originalPayloadBytes : Option B := none

namespace StatusListCwt

def fromToken (cbor : Cbor (OrderedMap Label (Field X) ⊕ X) B) (cose : CoseStructure P U B) :
    Except TokenError (StatusListCwt X B P U) :=
  match cose.payload with
  | none => .error (.statusList
      ⟨"Cwt does not contain payload, detached payload is not supported for status list CWT"⟩)
  | some bytes => do
    let payload ← StatusListCwtPayload.decode cbor bytes
    return ⟨payload, cose.protectedHeaders, cose.unprotectedHeaders, bytes⟩

def markPayloadModified (cwt : StatusListCwt X B P U) : StatusListCwt X B P U :=
  { cwt with originalPayloadBytes := none }

/-- The token with its status list in another state. -/
def mapList (cwt : StatusListCwt X B P U) (list : StatusListCbor X) : StatusListCwt X B P U :=
  { cwt with payload := cwt.payload.setStatusList list }

section Pako

variable (pako : Pako) (cbor : Cbor (OrderedMap Label (Field X) ⊕ X) B)

/-- The bytes that are signed: those that were received, or else the payload encoded again. -/
def payloadBytes (cwt : StatusListCwt X B P U) : StatusListCwt X B P U × Except TokenError B :=
  match cwt.originalPayloadBytes with
  | some bytes => (cwt, .ok bytes)
  | none =>
    let (payload, result) := cwt.payload.encode pako cbor
    ({ cwt with payload }, result)

def signAndEncode (sign : SigStructure P B → List UInt8) (externalAad : List UInt8)
    (cwt : StatusListCwt X B P U) : StatusListCwt X B P U × Except TokenError (Sign1 P U B) :=
  match cwt.payloadBytes pako cbor with
  | (cwt, .error e) => (cwt, .error e)
  | (cwt, .ok payload) =>
    let signature := sign { protectedHeaders := cwt.protectedHeaders, externalAad, payload }
    if signature = [] then
      (cwt, .error (.cose "Signature has not been set. Required for encoding the sign1 structure"))
    else (cwt, .ok ⟨cwt.protectedHeaders, cwt.unprotectedHeaders, payload, signature⟩)

end Pako

/-! ## Runs -/

/-- An operation on a token. -/
inductive Event (P U B : Type)
  /-- `fromToken`, in place of the token -/
  | decode (cose : CoseStructure P U B)
  /-- an operation on the status list of the payload -/
  | inPlace (event : StatusListCbor.Event)
  /-- `payload.setStatusList` -/
  | setPayloadStatusList (source : ListSource B)
  | updateStatusList (index value : ℕ)
  | setStatusList (source : ListSource B)
  | markPayloadModified
  | encodePayload
  | sign (externalAad : List UInt8)

/-- What became of the payload of a token. -/
inductive History (B : Type)
  /-- it is as it was decoded -/
  | decoded (bytes : B)
  /-- it was decoded and then changed in place, and not marked as modified since it was decoded -/
  | changedInPlace
  /-- it was created, or marked as modified after it was decoded -/
  | marked
  deriving DecidableEq

def History.changeInPlace : History B → History B
  | decoded _ | changedInPlace => changedInPlace
  | marked => marked

/-- A token, and what became of its payload. -/
structure Tracked (X B P U : Type) where
  cwt : StatusListCwt X B P U
  history : History B

section Step

variable (pako : Pako) (cborList : Cbor X B) (cbor : Cbor (OrderedMap Label (Field X) ⊕ X) B)
  (sign : SigStructure P B → List UInt8)

/-- `updateStatusList`, and whether it throws. -/
def updateStatusList (cwt : StatusListCwt X B P U) (index value : ℕ) :
    StatusListCwt X B P U × Except TokenError Unit :=
  match cwt.payload.statusList.setStatus pako index value with
  | (list, .ok ()) => ((cwt.mapList list).markPayloadModified, .ok ())
  | (list, .error e) => (cwt.mapList list, .error e)

def step (token : Tracked X B P U) : Event P U B → Tracked X B P U
  | .decode cose =>
    match fromToken cbor cose, cose.payload with
    | .ok cwt, some bytes => ⟨cwt, .decoded bytes⟩
    | _, _ => token
  | .inPlace event =>
    let { list, changed } := StatusListCbor.step pako ⟨token.cwt.payload.statusList, false⟩ event
    ⟨token.cwt.mapList list, if changed then token.history.changeInPlace else token.history⟩
  | .setPayloadStatusList source =>
    match source.history pako cborList with
    | .ok { list, .. } => ⟨token.cwt.mapList list, token.history.changeInPlace⟩
    | .error _ => token
  | .updateStatusList index value =>
    match token.cwt.updateStatusList pako index value with
    | (cwt, .ok ()) => ⟨cwt, .marked⟩
    | (cwt, .error _) => ⟨cwt, token.history⟩
  | .setStatusList source =>
    match source.history pako cborList with
    | .ok { list, .. } => ⟨(token.cwt.mapList list).markPayloadModified, .marked⟩
    | .error _ => token
  | .markPayloadModified => ⟨token.cwt.markPayloadModified, .marked⟩
  | .encodePayload =>
      ⟨{ token.cwt with payload := (token.cwt.payload.encode pako cbor).1 }, token.history⟩
  | .sign externalAad => ⟨(token.cwt.signAndEncode pako cbor sign externalAad).1, token.history⟩

end Step

/-- How a token was made. -/
inductive Start (X B P U : Type)
  | created (options : StatusListCwtPayload.CreateOptions X) (now : ℚ) (source : ListSource B)
      (protectedHeaders : P)
    (unprotectedHeaders : U)
  | decoded (cose : CoseStructure P U B)

def start (pako : Pako) (cborList : Cbor X B) (cbor : Cbor (OrderedMap Label (Field X) ⊕ X) B) :
    Start X B P U → Option (Tracked X B P U)
  | .created options now source protectedHeaders unprotectedHeaders => do
    let { list, .. } ← (source.history pako cborList).toOption
    let payload ← (StatusListCwtPayload.create options now list).toOption
    return ⟨{ payload, protectedHeaders, unprotectedHeaders }, .marked⟩
  | .decoded cose => do
    let cwt ← (fromToken cbor cose).toOption
    let bytes ← cose.payload
    return ⟨cwt, .decoded bytes⟩

end StatusListCwt

/-! ## What a token reports -/

/-- The claims, without the compressed bytes, and the statuses. -/
structure Report (X : Type) where
  claims : OrderedMap Label (Claim X)
  bits : BitsPerStatus
  statuses : Except TokenError (List ℕ)

def StatusListCwtPayload.report (pako : Pako) (payload : StatusListCwtPayload X) : Report X where
  claims := payload.claimsWith (StatusListCbor.withoutLst payload.statusList.entries)
  bits := payload.statusList.bits
  statuses := payload.statusList.statuses pako

namespace StatusListCwtPayload

variable {pako : Pako} {payload : StatusListCwtPayload X}

theorem claimsWith_setStatusList (payload : StatusListCwtPayload X) (list : StatusListCbor X)
    (entries : OrderedMap Label (Field X)) :
    (payload.setStatusList list).claimsWith entries = payload.claimsWith entries := by
  unfold claimsWith setStatusList
  rw [OrderedMap.mapVal_set, OrderedMap.set_set]

theorem fromClaims_eq_ok {claims : OrderedMap Label (PayloadClaim X)} {list : StatusListCbor X}
    (h : fromClaims claims list = .ok payload) :
    payload.statusList = list ∧ ∀ entries, payload.claimsWith entries =
      (claims.mapVal encodeClaim).set ClaimKey.statusList (.other (.inl entries)) := by
  unfold fromClaims at h
  split at h
  case isFalse => cases h
  case isTrue =>
    cases h
    refine ⟨rfl, fun entries => ?_⟩
    unfold claimsWith
    rw [OrderedMap.mapVal_set, OrderedMap.set_set]

/-- What a payload is decoded from is the map of its claims. -/
theorem fromEncodedStructure_eq_ok {input : OrderedMap Label (Claim X)}
    (h : fromEncodedStructure input = .ok payload) :
    payload.statusList.statusList = none ∧
    payload.claimsWith payload.statusList.entries = input := by
  unfold fromEncodedStructure at h
  split at h
  case h_2 => cases h
  case h_1 entries hget =>
    obtain ⟨list, hlist, h⟩ := bind_eq_ok.mp h
    obtain ⟨hentries, hnone⟩ := StatusListCbor.fromEncodedStructure_eq_ok hlist
    obtain ⟨rfl, hclaims⟩ := fromClaims_eq_ok h
    refine ⟨hnone, ?_⟩
    rw [hclaims, OrderedMap.mapVal_mapVal, hentries]
    exact (congrArg (OrderedMap.set · _ _) (OrderedMap.mapVal_id input)).trans
      (OrderedMap.set_of_get hget)

theorem ClaimSchema.holds_map {schema : ClaimSchema X} {claim : Option (PayloadClaim X)}
    (h : schema.holds claim = true) :
    schema.holds (claim.map (.inl ∘ encodeClaim)) = true := by
  cases claim with
  | none => exact h
  | some claim =>
    cases claim with
    | inl claim => exact h
    | inr list => cases h

/-- What a payload is encoded to is decoded to a payload with the same claims. -/
theorem fromEncodedStructure_claimsWith (payload : StatusListCwtPayload X)
    {entries : OrderedMap Label (Field X)} {list : StatusListCbor X}
    (h : StatusListCbor.fromEncodedStructure entries = .ok list) :
    ∃ decoded, fromEncodedStructure (payload.claimsWith entries) = .ok decoded ∧
    decoded.statusList = list ∧
      ∀ e, decoded.claimsWith e = payload.claimsWith e := by
  have hok : claimsOk ((payload.claimsWith entries).mapVal .inl) = true := by
    unfold claimsWith
    rw [OrderedMap.mapVal_set, OrderedMap.mapVal_mapVal, claimsOk_set]
    refine List.all_eq_true.mpr fun schema hschema => ?_
    rw [OrderedMap.get_mapVal]
    exact ClaimSchema.holds_map (List.all_eq_true.mp payload.checked schema hschema)
  have hget : (payload.claimsWith entries).get ClaimKey.statusList = some (.other (.inl entries)) :=
    OrderedMap.get_set_self ..
  have hdecode : fromEncodedStructure (payload.claimsWith entries) =
      fromClaims ((payload.claimsWith entries).mapVal .inl) list := by
    unfold fromEncodedStructure
    rw [hget]
    dsimp only
    rw [h]
    rfl
  have hfrom : ∃ decoded, fromClaims ((payload.claimsWith entries).mapVal .inl) list =
      .ok decoded :=
    ⟨_, dif_pos hok⟩
  obtain ⟨decoded, hdecoded⟩ := hfrom
  obtain ⟨hlist, hclaims⟩ := fromClaims_eq_ok hdecoded
  refine ⟨decoded, hdecode.trans hdecoded, hlist, fun e => ?_⟩
  rw [hclaims, OrderedMap.mapVal_mapVal]
  refine (congrArg (OrderedMap.set · _ _) (OrderedMap.mapVal_id _)).trans ?_
  exact OrderedMap.set_set ..

theorem report_eq {payload payload' : StatusListCwtPayload X}
    (hclaims : ∀ e, payload.claimsWith e = payload'.claimsWith e)
    (hentries : StatusListCbor.withoutLst payload.statusList.entries =
      StatusListCbor.withoutLst payload'.statusList.entries)
    (hbits : payload.statusList.bits = payload'.statusList.bits)
    (hstatuses : payload.statusList.statuses pako = payload'.statusList.statuses pako) :
    payload.report pako = payload'.report pako := by
  unfold report
  rw [hclaims, hentries, hbits, hstatuses]

/-- What a payload is encoded to is decoded to a payload with the same report. -/
theorem encodedStructure_spec (hpako : pako.Lawful) (hc : payload.statusList.Consistent pako) :
    ∃ input decoded, (payload.encodedStructure pako).2 = .ok input ∧
    fromEncodedStructure input = .ok decoded ∧
      decoded.report pako = payload.report pako ∧
      (payload.statusList.Unmodified → input = payload.claimsWith payload.statusList.entries) := by
  obtain ⟨entries, list, hencode, hlist, hbits, hentries, hstatuses, hun⟩ :=
    hc.encodedStructure hpako
  obtain ⟨decoded, hdecode, rfl, hclaims⟩ := payload.fromEncodedStructure_claimsWith hlist
  refine ⟨payload.claimsWith entries, decoded, ?_, hdecode, report_eq hclaims ?_ hbits hstatuses,
    fun hunmodified => ?_⟩
  · unfold encodedStructure
    split
    case h_1 heq =>
      rw [heq] at hencode
      cases hencode
      rfl
    case h_2 heq =>
      rw [heq] at hencode
      cases hencode
  · rw [(StatusListCbor.fromEncodedStructure_eq_ok hlist).1, hentries]
  · rw [hun hunmodified]

/-- Encoding leaves the status list as an event of its own does. -/
theorem encodedStructure_fst (pako : Pako) (payload : StatusListCwtPayload X) :
    (payload.encodedStructure pako).1 =
      payload.setStatusList (payload.statusList.encodedStructure pako).1 := by
  unfold encodedStructure
  split
  case h_1 heq => rw [heq]
  case h_2 heq => rw [heq]

theorem decode_eq_ok {cbor : Cbor (OrderedMap Label (Field X) ⊕ X) B} {bytes : B}
    (h : decode cbor bytes = .ok payload) :
    payload.statusList.statusList = none ∧
      cbor.cborDecode bytes = .ok (.map (payload.claimsWith payload.statusList.entries)) := by
  obtain ⟨item, hitem, h⟩ := bind_eq_ok.mp h
  split at h
  case h_1 input =>
    obtain ⟨hnone, hclaims⟩ := fromEncodedStructure_eq_ok h
    exact ⟨hnone, hclaims ▸ hitem⟩
  case h_2 => cases h

end StatusListCwtPayload

/-! ## What a run does -/

namespace StatusListCwt

variable {pako : Pako} {cborList : Cbor X B} {cbor : Cbor (OrderedMap Label (Field X) ⊕ X) B}
  {sign : SigStructure P B → List UInt8}

/-- What the history of a token says about its payload bytes. -/
def HistoryOk (cbor : Cbor (OrderedMap Label (Field X) ⊕ X) B) (cwt : StatusListCwt X B P U) :
    History B → Prop
  | .decoded bytes => cwt.originalPayloadBytes = some bytes ∧ cwt.payload.statusList.Unmodified ∧
      cbor.cborDecode bytes = .ok (.map (cwt.payload.claimsWith cwt.payload.statusList.entries))
  | .changedInPlace => True
  | .marked => cwt.originalPayloadBytes = none

structure TrackedOk (pako : Pako) (cbor : Cbor (OrderedMap Label (Field X) ⊕ X) B)
    (token : Tracked X B P U) : Prop where
  consistent : token.cwt.payload.statusList.Consistent pako
  history : HistoryOk cbor token.cwt token.history

/-- Another state of the status list, as long as its map is as it was. -/
theorem HistoryOk.mapList {cwt : StatusListCwt X B P U} {history : History B}
    (h : HistoryOk cbor cwt history) {list : StatusListCbor X}
    (hlist : cwt.payload.statusList.Unmodified → list.Unmodified ∧
      list.entries = cwt.payload.statusList.entries) :
    HistoryOk cbor (cwt.mapList list) history := by
  cases history with
  | decoded bytes =>
    obtain ⟨hbytes, hunmodified, hdecode⟩ := h
    obtain ⟨hunmodified', hentries⟩ := hlist hunmodified
    refine ⟨hbytes, hunmodified', ?_⟩
    unfold StatusListCwt.mapList
    rw [StatusListCwtPayload.claimsWith_setStatusList]
    dsimp only [StatusListCwtPayload.setStatusList]
    rw [hentries]
    exact hdecode
  | changedInPlace => trivial
  | marked => exact h

theorem HistoryOk.changeInPlace {cwt : StatusListCwt X B P U} {history : History B}
    (h : HistoryOk cbor cwt history) (list : StatusListCbor X) :
    HistoryOk cbor (cwt.mapList list) history.changeInPlace := by
  cases history with
  | decoded bytes => trivial
  | changedInPlace => trivial
  | marked => exact h

/-- An event of the status list that leaves its statuses. -/
theorem TrackedOk.mapList (hpako : pako.Lawful) {token : Tracked X B P U}
    (h : TrackedOk pako cbor token) (event : StatusListCbor.Event) {list : StatusListCbor X}
    (heq : StatusListCbor.step pako ⟨token.cwt.payload.statusList, false⟩ event = ⟨list, false⟩) :
    TrackedOk pako cbor ⟨token.cwt.mapList list, token.history⟩ := by
  have hc : (StatusListCbor.step pako
      ⟨token.cwt.payload.statusList, false⟩ event).list.Consistent pako :=
    StatusListCbor.Consistent.step hpako h.consistent event
  rw [heq] at hc
  refine ⟨hc, h.history.mapList fun hunmodified => ?_⟩
  have hok : StatusListCbor.HistoryOk pako token.cwt.payload.statusList.entries
      ⟨token.cwt.payload.statusList, false⟩ :=
    ⟨h.consistent, fun _ => ⟨hunmodified, rfl⟩⟩
  have hstep := (hok.step hpako _ event).unchanged
  rw [heq] at hstep
  exact hstep rfl

theorem fromToken_eq_ok {cose : CoseStructure P U B} {cwt : StatusListCwt X B P U}
    (h : fromToken cbor cose = .ok cwt) :
    ∃ bytes, cose.payload = some bytes ∧ TrackedOk pako cbor ⟨cwt, .decoded bytes⟩ := by
  unfold fromToken at h
  split at h
  case h_1 => cases h
  case h_2 bytes hbytes =>
    obtain ⟨payload, hpayload, h⟩ := bind_eq_ok.mp h
    cases h
    obtain ⟨hnone, hdecode⟩ := StatusListCwtPayload.decode_eq_ok hpayload
    refine ⟨bytes, hbytes, fun l hl => ?_, rfl, fun l hl => ?_, hdecode⟩
    · cases hnone.symm.trans hl
    · cases hnone.symm.trans hl

theorem encode_fst (pako : Pako) (cbor : Cbor (OrderedMap Label (Field X) ⊕ X) B)
    (cwt : StatusListCwt X B P U) :
    { cwt with payload := (cwt.payload.encode pako cbor).1 } =
      cwt.mapList (cwt.payload.statusList.encodedStructure pako).1 := by
  unfold mapList StatusListCwtPayload.encode
  dsimp only
  rw [StatusListCwtPayload.encodedStructure_fst]

theorem payloadBytes_fst (pako : Pako) (cbor : Cbor (OrderedMap Label (Field X) ⊕ X) B)
    (cwt : StatusListCwt X B P U) :
    (cwt.payloadBytes pako cbor).1 = cwt ∨
      (cwt.payloadBytes pako cbor).1 =
        cwt.mapList (cwt.payload.statusList.encodedStructure pako).1 := by
  unfold payloadBytes
  split
  case h_1 => exact Or.inl rfl
  case h_2 => exact Or.inr (encode_fst pako cbor cwt)

theorem signAndEncode_fst (pako : Pako) (cbor : Cbor (OrderedMap Label (Field X) ⊕ X) B)
    (sign : SigStructure P B → List UInt8) (externalAad : List UInt8)
    (cwt : StatusListCwt X B P U) :
    (cwt.signAndEncode pako cbor sign externalAad).1 = (cwt.payloadBytes pako cbor).1 := by
  unfold signAndEncode
  split
  case h_1 heq => rw [heq]
  case h_2 heq =>
    rw [heq]
    dsimp only
    split
    case isTrue => rfl
    case isFalse => rfl

/-- The signed token has the payload bytes, and the signature covers them. -/
theorem signAndEncode_eq_ok {externalAad : List UInt8} {cwt : StatusListCwt X B P U}
    {signed : Sign1 P U B} (h : (cwt.signAndEncode pako cbor sign externalAad).2 = .ok signed) :
    (cwt.payloadBytes pako cbor).2 = .ok signed.payload ∧
      signed.signature = sign
        { protectedHeaders := cwt.protectedHeaders, externalAad, payload := signed.payload } := by
  have hfst := payloadBytes_fst pako cbor cwt
  unfold signAndEncode at h
  split at h
  case h_1 => cases h
  case h_2 cwt' payload heq =>
    rw [heq] at hfst ⊢
    have hheaders : cwt'.protectedHeaders = cwt.protectedHeaders := by
      obtain rfl | rfl := hfst
      · rfl
      · rfl
    dsimp only at h
    split at h
    case isTrue => cases h
    case isFalse =>
      cases h
      rw [hheaders]
      exact ⟨rfl, rfl⟩

theorem trackedOk_step (hpako : pako.Lawful) (token : Tracked X B P U) (event : Event P U B)
    (h : TrackedOk pako cbor token) :
    TrackedOk pako cbor (step pako cborList cbor sign token event) := by
  have hencode : TrackedOk pako cbor
      ⟨token.cwt.mapList (token.cwt.payload.statusList.encodedStructure pako).1, token.history⟩ :=
    h.mapList hpako .encode rfl
  cases event with
  | decode cose =>
    unfold step
    dsimp only
    split
    case h_1 cwt bytes hcwt hbytes =>
      obtain ⟨bytes', hbytes', hok⟩ := fromToken_eq_ok hcwt
      cases hbytes.symm.trans hbytes'
      exact hok
    case h_2 => exact h
  | inPlace event =>
    have hc : (StatusListCbor.step pako
        ⟨token.cwt.payload.statusList, false⟩ event).list.Consistent pako :=
      StatusListCbor.Consistent.step hpako h.consistent event
    unfold step
    dsimp only
    cases hstep : StatusListCbor.step pako ⟨token.cwt.payload.statusList, false⟩ event with
    | mk list changed =>
      rw [hstep] at hc
      cases changed with
      | false => exact h.mapList hpako event hstep
      | true => exact ⟨hc, h.history.changeInPlace list⟩
  | setPayloadStatusList source =>
    unfold step
    dsimp only
    split
    case h_1 list changed hsource =>
      obtain ⟨entries, hok, -⟩ := ListSource.historyOk hpako hsource
      exact ⟨hok.consistent, h.history.changeInPlace list⟩
    case h_2 => exact h
  | updateStatusList index value =>
    have hc := h.consistent.setStatus index value
    unfold step updateStatusList
    dsimp only
    cases hset : token.cwt.payload.statusList.setStatus pako index value with
    | mk list result =>
      rw [hset] at hc
      cases result with
      | ok => exact ⟨hc, rfl⟩
      | error e =>
        refine h.mapList hpako (.setStatus index value) ?_
        unfold StatusListCbor.step
        dsimp only
        rw [hset]
  | setStatusList source =>
    unfold step
    dsimp only
    split
    case h_1 list changed hsource =>
      obtain ⟨entries, hok, -⟩ := ListSource.historyOk hpako hsource
      exact ⟨hok.consistent, rfl⟩
    case h_2 => exact h
  | markPayloadModified => exact ⟨h.consistent, rfl⟩
  | encodePayload =>
    unfold step
    dsimp only
    rw [encode_fst]
    exact hencode
  | sign externalAad =>
    unfold step
    dsimp only
    rw [signAndEncode_fst]
    obtain heq | heq := payloadBytes_fst pako cbor token.cwt
    · rw [heq]
      exact h
    · rw [heq]
      exact hencode

theorem trackedOk_start (hpako : pako.Lawful) {s : Start X B P U} {token : Tracked X B P U}
    (h : start pako cborList cbor s = some token) : TrackedOk pako cbor token := by
  cases s with
  | created options now source protectedHeaders unprotectedHeaders =>
    obtain ⟨history, hsource, h⟩ := Option.bind_eq_some_iff.mp h
    obtain ⟨payload, hpayload, h⟩ := Option.bind_eq_some_iff.mp h
    cases h
    obtain ⟨entries, hok, -⟩ := ListSource.historyOk hpako (toOption_eq_some.mp hsource)
    have hcreate := toOption_eq_some.mp hpayload
    have hlist : payload.statusList = history.list := by
      unfold StatusListCwtPayload.create at hcreate
      dsimp only at hcreate
      split at hcreate
      case h_1 => exact (StatusListCwtPayload.fromClaims_eq_ok hcreate).1
      case h_2 => exact (StatusListCwtPayload.fromClaims_eq_ok hcreate).1
    exact ⟨hlist ▸ hok.consistent, rfl⟩
  | decoded cose =>
    obtain ⟨cwt, hcwt, h⟩ := Option.bind_eq_some_iff.mp h
    obtain ⟨bytes, hbytes, h⟩ := Option.bind_eq_some_iff.mp h
    cases h
    obtain ⟨bytes', hbytes', hok⟩ := fromToken_eq_ok (toOption_eq_some.mp hcwt)
    cases hbytes.symm.trans hbytes'
    exact hok

/-- The claims of a token are encoded to bytes that are decoded to them. -/
theorem TrackedOk.encode (hpako : pako.Lawful) (hcbor : cbor.Lawful) {token : Tracked X B P U}
    (h : TrackedOk pako cbor token) :
    ∃ input decoded, (token.cwt.payload.encodedStructure pako).2 = .ok input ∧
      StatusListCwtPayload.decode cbor (cbor.encode input) = .ok decoded ∧
      decoded.report pako = token.cwt.payload.report pako ∧
      ∀ bytes, token.history = .decoded bytes → cbor.cborDecode bytes = .ok (.map input) := by
  obtain ⟨input, decoded, hencode, hdecode, hreport, hun⟩ :=
    StatusListCwtPayload.encodedStructure_spec hpako h.consistent
  refine ⟨input, decoded, hencode, ?_, hreport, fun bytes hbytes => ?_⟩
  · unfold StatusListCwtPayload.decode Cbor.cborDecode
    rw [hcbor]
    exact hdecode
  · have hhistory := h.history
    rw [hbytes] at hhistory
    obtain ⟨-, hunmodified, hcborDecode⟩ := hhistory
    rw [hun hunmodified]
    exact hcborDecode

/-- What is signed is decoded to the claims of the token, unless they were changed in place. -/
theorem TrackedOk.signed (hpako : pako.Lawful) (hcbor : cbor.Lawful) {token : Tracked X B P U}
    (h : TrackedOk pako cbor token) (hmarked : token.history ≠ .changedInPlace) :
    ∃ bytes decoded, (token.cwt.payloadBytes pako cbor).2 = .ok bytes ∧
      StatusListCwtPayload.decode cbor bytes = .ok decoded ∧
      decoded.report pako = token.cwt.payload.report pako := by
  obtain ⟨input, decoded, hencode, hdecode, hreport, hbytes⟩ := h.encode hpako hcbor
  have hhistory := h.history
  obtain ⟨cwt, history⟩ := token
  cases history with
  | decoded bytes =>
    refine ⟨bytes, decoded, ?_, ?_, hreport⟩
    · unfold payloadBytes
      rw [hhistory.1]
    · unfold StatusListCwtPayload.decode at hdecode ⊢
      unfold Cbor.cborDecode at hdecode
      rw [hcbor] at hdecode
      rw [hbytes bytes rfl]
      exact hdecode
  | changedInPlace => exact absurd rfl hmarked
  | marked =>
    refine ⟨cbor.encode input, decoded, ?_, hdecode, hreport⟩
    unfold payloadBytes
    dsimp only [HistoryOk] at hhistory
    rw [hhistory]
    exact congrArg (cbor.encode <$> ·) hencode

end StatusListCwt

/-- A status list is encoded to bytes that decompress to the statuses that it reports, and to the
map that it was decoded from when none of them was set. So is the payload of a token, whose payload
bytes are those that it was decoded from when nothing was changed. A signature covers bytes that are
decoded to the claims that the token reports, if a change in place was not left unmarked. -/
theorem statusListTokens (pako : Pako) (hpako : pako.Lawful) (cborList : Cbor X B)
    (hlist : cborList.Lawful) (cbor : Cbor (OrderedMap Label (Field X) ⊕ X) B) (hcbor : cbor.Lawful)
    (sign : SigStructure P B → List UInt8) :
    (∀ (source : ListSource B) history, source.history pako cborList = .ok history →
      ∃ entries decoded, (history.list.encodedStructure pako).2 = .ok entries ∧
        StatusListCbor.decode cborList (cborList.encode entries) = .ok decoded ∧
          decoded.bits = history.list.bits ∧
        decoded.statuses pako = history.list.statuses pako ∧
        (history.changed = false → ∀ bytes events, source = .decoded bytes events →
          cborList.cborDecode bytes = .ok (.map entries))) ∧
    ∀ (start : StatusListCwt.Start X B P U) token₀,
    StatusListCwt.start pako cborList cbor start = some token₀ →
      ∀ events token, run (StatusListCwt.step pako cborList cbor sign) token₀ events = token →
        (∀ bytes, token.history = .decoded bytes →
          (token.cwt.payloadBytes pako cbor).2 = .ok bytes) ∧
        (∃ input decoded, (token.cwt.payload.encodedStructure pako).2 = .ok input ∧
          StatusListCwtPayload.decode cbor (cbor.encode input) = .ok decoded ∧
          decoded.report pako = token.cwt.payload.report pako ∧
          ∀ bytes, token.history = .decoded bytes → cbor.cborDecode bytes = .ok (.map input)) ∧
        (token.history ≠ .changedInPlace →
          ∀ externalAad signed, (token.cwt.signAndEncode pako cbor sign externalAad).2 =
            .ok signed →
            signed.signature = sign {
              protectedHeaders := token.cwt.protectedHeaders, externalAad,
              payload := signed.payload } ∧
            ∃ decoded, StatusListCwtPayload.decode cbor signed.payload = .ok decoded ∧
              decoded.report pako = token.cwt.payload.report pako) := by
  refine ⟨fun source history hsource => ?_, ?_⟩
  · obtain ⟨entries, hok, hbytes⟩ := ListSource.historyOk hpako hsource
    obtain ⟨entries', decoded, hencode, hdecode, hbits, -, hstatuses, hun⟩ :=
      hok.consistent.encodedStructure hpako
    refine ⟨entries', decoded, hencode, ?_, hbits, hstatuses, fun hchanged bytes events heq => ?_⟩
    · unfold StatusListCbor.decode Cbor.cborDecode
      rw [hlist]
      exact hdecode
    · obtain ⟨hunmodified, rfl⟩ := hok.unchanged hchanged
      rw [hun hunmodified]
      exact hbytes bytes events heq
  · rintro start token₀ hstart events token rfl
    have hok : StatusListCwt.TrackedOk pako cbor
        (run (StatusListCwt.step pako cborList cbor sign) token₀ events) :=
      invariant_run (StatusListCwt.trackedOk_step hpako)
        (StatusListCwt.trackedOk_start hpako hstart) events
    refine ⟨fun bytes hbytes => ?_, hok.encode hpako hcbor,
      fun hmarked externalAad signed hsigned => ?_⟩
    · have hhistory := hok.history
      rw [hbytes] at hhistory
      unfold StatusListCwt.payloadBytes
      rw [hhistory.1]
    · obtain ⟨bytes, decoded, hbytes, hdecode, hreport⟩ := hok.signed hpako hcbor hmarked
      obtain ⟨hpayload, hsignature⟩ := StatusListCwt.signAndEncode_eq_ok hsigned
      cases hbytes.symm.trans hpayload
      exact ⟨hsignature, decoded, hdecode, hreport⟩

/-! ## Examples -/

/-- Bytes that are what they encode, for status lists and for tokens. -/
abbrev Encoded := Item Empty ⊕ Item (OrderedMap Label (Field Empty) ⊕ Empty)

def plainList : Cbor Empty Encoded where
  encode m := .inl (.map m)
  decode := Sum.getLeft?

def plainPayload : Cbor (OrderedMap Label (Field Empty) ⊕ Empty) Encoded where
  encode m := .inr (.map m)
  decode := Sum.getRight?

/-- Compression that leaves the bytes. -/
def stored : Pako where
  deflate := id
  inflate bytes := ([bytes], none)

theorem stored_lawful : stored.Lawful := fun bytes => ⟨by simp [stored], rfl⟩

/-- The map of a status list with eight statuses of one bit. -/
def eightStatuses : OrderedMap Label (Field Empty) where
  entries := [(.text "bits", .number 1), (.text "lst", .bytes [0])]
  nodup := by decide

/-- A token with that status list. -/
def eightToken : CoseStructure Unit Unit Encoded where
  protectedHeaders := ()
  unprotectedHeaders := ()
  payload := some (.inr (.map {
    entries := [(ClaimKey.subject, .text "s"), (ClaimKey.issuedAt, .number 1),
      (ClaimKey.statusList, .other (.inl eightStatuses))]
    nodup := by decide }))

def signature : SigStructure Unit Encoded → List UInt8 := fun _ => [1]

/-- The token after some operations. -/
def eightRun (events : List (StatusListCwt.Event Unit Unit Encoded)) :
    Option (StatusListCwt.Tracked Empty Encoded Unit Unit) :=
  (StatusListCwt.start stored plainList plainPayload (.decoded eightToken)).map fun token =>
    run (StatusListCwt.step stored plainList plainPayload signature) token events

/-- The statuses that are signed. -/
def signedStatuses (token : StatusListCwt.Tracked Empty Encoded Unit Unit) : Option (List ℕ) := do
  let signed ← (token.cwt.signAndEncode stored plainPayload signature []).2.toOption
  let decoded ← (StatusListCwtPayload.decode plainPayload signed.payload).toOption
  (decoded.statusList.statuses stored).toOption

theorem statusListTokens_update : ∃ token signed decoded,
    eightRun [.updateStatusList 3 1] = some token ∧
      (token.cwt.signAndEncode stored plainPayload signature []).2 = .ok signed ∧
      StatusListCwtPayload.decode plainPayload signed.payload = .ok decoded ∧
      decoded.statusList.statuses stored = token.cwt.payload.statusList.statuses stored ∧
      (token.cwt.payload.statusList.statuses stored).toOption = some [0, 0, 0, 1, 0, 0, 0, 0] := by
  have hmarked : (eightRun [.updateStatusList 3 1]).map (·.history matches .marked) =
      some true := by decide +kernel
  have hstatuses : ((eightRun [.updateStatusList 3 1]).bind fun token =>
      (token.cwt.payload.statusList.statuses stored).toOption) = some [0, 0, 0, 1, 0, 0, 0, 0] := by
        decide +kernel
  have hsigned : ((eightRun [.updateStatusList 3 1]).bind fun token =>
      (token.cwt.signAndEncode stored plainPayload signature []).2.toOption).isSome = true := by
        decide +kernel
  obtain ⟨token, htoken, hmatches⟩ := Option.map_eq_some_iff.mp hmarked
  obtain ⟨token₀, hstart, hrun⟩ := Option.map_eq_some_iff.mp htoken
  rw [htoken, Option.bind_some] at hstatuses hsigned
  obtain ⟨signed, hsigned⟩ := Option.isSome_iff_exists.mp hsigned
  have hsign := toOption_eq_some.mp hsigned
  have hunchanged : token.history ≠ .changedInPlace := by
    intro heq
    rw [heq] at hmatches
    cases hmatches
  obtain ⟨-, decoded, hdecode, hreport⟩ :=
    ((statusListTokens stored stored_lawful plainList (fun _ => rfl) plainPayload
    (fun _ => rfl) signature).2 _ _ hstart _ _ hrun).2.2 hunchanged [] signed hsign
  exact ⟨token, signed, decoded, htoken, hsign, hdecode,
    congrArg Report.statuses hreport, hstatuses⟩

/-- What is changed in place is not signed, and a status list in a data item is encoded without
it. -/
theorem changedInPlace_signed :
    ((eightRun [.inPlace (.setStatus 0 1)]).map fun token =>
        ((token.cwt.payload.statusList.statuses stored).toOption, signedStatuses token)) =
      some (some [1, 0, 0, 0, 0, 0, 0, 0], some [0, 0, 0, 0, 0, 0, 0, 0]) ∧
    ∃ list entries, StatusListCbor.decode plainList (.inl (.dataItem (.map eightStatuses))) =
      .ok list ∧
      (list.encodedStructure stored).2 = .ok entries ∧
      plainList.encode entries ≠ .inl (.dataItem (.map eightStatuses)) := by
  refine ⟨by decide +kernel, ?_⟩
  exact ⟨_, _, rfl, rfl, nofun⟩

end IdentityCommon.TokenStatusList
