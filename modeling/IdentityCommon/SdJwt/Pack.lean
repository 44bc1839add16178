import IdentityCommon.SdJwt.Instance

/-!
# Packing claims

What an issuer makes of claims and a disclosure frame: the packed claims, in which the digests stand
for the claims that are disclosable, and the disclosures of these.

## Main definitions

- `DisclosureFrame` — what is disclosable of an object or an array, the number of decoys, and the
  frames of what is in it
- `PackState` — the salts that were drawn, and the salts and digests that were seen
- `pack` — the packed claims and the disclosures
- `IssuerConfig`, `SdJwtInstance.issue` — issuing an SD-JWT

## Design notes

A salt generator is the sequence of the salts that it gives. In the frame of an array the names
besides `_sd` and `_sd_decoy` are indices. The members of a frame besides these two are in the order
of their enumeration; `_sd_decoy` is enumerated with them, and is put last, as no salt is drawn for
it. -/

namespace IdentityCommon.SdJwt

open Ecma Value AssocList

/-- A disclosure frame, or `undefined`. -/
inductive DisclosureFrame
  | undefined
  | frame (_sd : Option (List Key)) (_sd_decoy : Option ℕ)
      (frames : List (String × DisclosureFrame))

/-- What packing is given besides the claims and the frame. -/
structure PackConfig where
  hash : HasherAndAlg
  saltGenerator : ℕ → String

structure PackState where
  drawn : ℕ := 0
  seenSalts : List String := []
  seenDigests : List String := []

/-- Packing, from a state. -/
abbrev Packing (α : Type) := PackState → Except UnpackError (α × PackState)

variable (c : PackConfig)

/-! ## Salts and digests -/

def drawSalt (st : PackState) : String × PackState :=
  (c.saltGenerator st.drawn, { st with drawn := st.drawn + 1 })

/-- A salt that was not seen before. -/
def createDisclosureSalt : Packing String := fun st =>
  let (salt, st) := drawSalt c st
  if salt ∈ st.seenSalts then throwSdJwt "Duplicate disclosure salt detected"
  else .ok (salt, { st with seenSalts := st.seenSalts ++ [salt] })

def addDisclosureDigest (digest : String) : Packing Unit := fun st =>
  if digest ∈ st.seenDigests then throwSdJwt "Duplicate disclosure digest detected"
  else .ok ((), { st with seenDigests := st.seenDigests ++ [digest] })

/-- The digest of a salt, which no disclosure has. -/
def createDecoy : Packing String := fun st =>
  let (salt, st) := drawSalt c st
  .ok (c.hash.digest salt, st)

/-- The disclosure of a claim and its digest. -/
def createDisclosure (key : Option String) (claim : Value) :
    Packing (Disclosure × String) := fun st => do
  let (salt, st) ← createDisclosureSalt c st
  let data := match key with
    | some key => [.str salt, .str key, claim]
    | none => [.str salt, claim]
  let disclosure ← liftError (Disclosure.fromArray (.arr data) none none)
  let digest := disclosure.digest c.hash
  let ((), st) ← addDisclosureDigest digest st
  .ok ((disclosure, digest), st)

/-- The digests of decoys. -/
def createDecoys : ℕ → Packing (List String)
  | 0, st => .ok ([], st)
  | decoyCount + 1, st => do
    let (decoyDigest, st) ← createDecoy c st
    let ((), st) ← addDisclosureDigest decoyDigest st
    let (decoys, st) ← createDecoys decoyCount st
    .ok (decoyDigest :: decoys, st)

/-! ## One level -/

/-- `{ '...': digest }`. -/
def digestPlaceholder (digest : String) : Value := .obj [(SD_LIST_KEY, .str digest)]

/-- `packed ? packed : claim`. -/
def packedOr (packed claim : Value) : Value := if packed.truthy then packed else claim

/-- The elements of an array from index `i` on. -/
def packItems (sd : List Key) (recursivePackedClaims : List (String × Value)) (i : ℕ) :
    List Value → Packing (List Value × List Disclosure)
  | [], st => .ok (([], []), st)
  | item :: items, st => do
    let claim := packedOr ((recursivePackedClaims.lookup (Nat.repr i)).getD undefined) item
    if .index i ∈ sd then
      let ((disclosure, digest), st) ← createDisclosure c none claim st
      let ((packedClaims, disclosures), st) ← packItems sd recursivePackedClaims (i + 1) items st
      .ok ((digestPlaceholder digest :: packedClaims, disclosure :: disclosures), st)
    else
      let ((packedClaims, disclosures), st) ← packItems sd recursivePackedClaims (i + 1) items st
      .ok ((claim :: packedClaims, disclosures), st)

/-- What is made of the members of an object. -/
structure PackedMembers where
  packedClaims : List (String × Value)
  _sd : List String
  disclosures : List Disclosure

/-- The members of an object. An assignment to `__proto__` makes no member. -/
def packMembers (sd : List Key) (recursivePackedClaims : List (String × Value)) :
    List (String × Value) → Packing PackedMembers
  | [], st => .ok (⟨[], [], []⟩, st)
  | (key, value) :: members, st => do
    let claim := packedOr ((obj recursivePackedClaims).get key) value
    if .name key ∈ sd then
      let ((disclosure, digest), st) ← createDisclosure c (some key) claim st
      let (p, st) ← packMembers sd recursivePackedClaims members st
      .ok (⟨p.packedClaims, digest :: p._sd, disclosure :: p.disclosures⟩, st)
    else
      let (p, st) ← packMembers sd recursivePackedClaims members st
      .ok (⟨if key = "__proto__" then p.packedClaims else (key, claim) :: p.packedClaims,
        p._sd, p.disclosures⟩, st)

/-- The packed claims with the digests of the disclosures and the decoys in order. -/
def withDigests (packedClaims : List (String × Value)) (_sd : List String) :
    List (String × Value) :=
  if _sd = [] then packedClaims
  else insert SD_DIGEST (.arr ((sortStrings _sd).map .str)) packedClaims

/-- One level of packing, with what is packed of the levels below. -/
def packLevel (sd : List Key) (decoyCount : ℕ) (recursivePackedClaims : List (String × Value))
    (claims : Value) :
    Packing (Value × List Disclosure) := fun st =>
  match claims with
  | .arr items => do
    let ((packedClaims, disclosures), st) ← packItems c sd recursivePackedClaims 0 items st
    let (decoys, st) ← createDecoys c decoyCount st
    .ok ((.arr (packedClaims ++ decoys.map digestPlaceholder), disclosures), st)
  | claims => do
    let (p, st) ← packMembers c sd recursivePackedClaims (ownMembers claims) st
    let (decoys, st) ← createDecoys c decoyCount st
    .ok ((.obj (withDigests p.packedClaims (p._sd ++ decoys)), p.disclosures), st)

/-! ## All levels -/

/-- `claims[key]`, where only indices are read from an array. -/
def readClaim (claims : Value) (key : String) : Except UnpackError Value :=
  match claims with
  | .undefined | .null => .error (.thrown { message := "Cannot read properties of undefined" })
  | .arr items => .ok (((arrayIndex key).bind fun idx => items[idx]?).getD .undefined)
  | claims => .ok (claims.property key)

/-- What the member `_sd_decoy` of a frame, a number, makes of the claims: the member of that name,
packed without anything disclosable. -/
def packDecoyEntry (claims : Value) (_sd_decoy : Option ℕ) :
    Packing (List (String × Value)) := fun st =>
  match _sd_decoy with
  | none => .ok ([], st)
  | some decoyCount => do
    let claim ← readClaim claims SD_DECOY
    if decoyCount = 0 ∨ claims.isArray then .ok ([(SD_DECOY, claim)], st)
    else
      let ((packed, _), st) ← packLevel c [] 0 [] claim st
      .ok ([(SD_DECOY, packed)], st)

mutual

def pack (claims : Value) : DisclosureFrame → Packing (Value × List Disclosure)
  | .undefined, st => .ok ((claims, []), st)
  | .frame _sd _sd_decoy frames, st => do
    let ((recursivePackedClaims, disclosures), st) ← packFrames claims frames st
    let (decoyEntry, st) ← packDecoyEntry c claims _sd_decoy st
    let ((packedClaims, disclosures'), st) ←
      packLevel c (_sd.getD []) (_sd_decoy.getD 0) (recursivePackedClaims ++ decoyEntry) claims st
    .ok ((packedClaims, disclosures ++ disclosures'), st)

/-- What the claims with a frame of their own are packed to. -/
def packFrames (claims : Value) :
    List (String × DisclosureFrame) → Packing (List (String × Value) × List Disclosure)
  | [], st => .ok (([], []), st)
  | (key, frame) :: frames, st => do
    let claim ← readClaim claims key
    let ((packed, disclosures), st) ← pack claim frame st
    let ((recursivePackedClaims, disclosures'), st) ← packFrames claims frames st
    .ok (((key, packed) :: recursivePackedClaims, disclosures ++ disclosures'), st)

end

/-! ## Issuing -/

/-- What an issuer is configured with. -/
structure IssuerConfig where
  hasher : Option Hasher := none
  saltGenerator : Option (ℕ → String) := none
  signer : Option Signer := none
  signAlg : Option String := none
  hashAlg : Option String := none
  allowedDisclosureHashAlgorithms : Option (List String) := none
  omitTyp : Bool := false
  /-- The type of the instance. -/
  type : Option String := none

namespace SdJwtInstance

def defaultHashAlg : String := "sha-256"

/-- The header of the JWT: the type, then the members that the caller gives, then the algorithm. -/
def issuerHeader (config : IssuerConfig) (alg : String) (header : List (String × Value)) : Value :=
  let typ : List (String × Value) := if config.omitTyp then []
    else [("typ", (config.type.map Value.str).getD undefined)]
  .obj (insert "alg" (.str alg) (header.foldl (fun acc m => insert m.1 m.2 acc) typ))

/-- `disclosureFrame ? hashAlg : undefined`. -/
def sdAlgOf (disclosureFrame : DisclosureFrame) (hashAlg : String) : Value :=
  match disclosureFrame with
  | .undefined => undefined
  | _ => .str hashAlg

def issue (config : IssuerConfig) (payload : Value) (disclosureFrame : DisclosureFrame)
    (header : List (String × Value)) : Except UnpackError String :=
  match config.hasher, config.saltGenerator, nonEmpty config.signAlg with
  | none, _, _ => throwSdJwt "Hasher not found"
  | _, none, _ => throwSdJwt "SaltGenerator not found"
  | _, _, none => throwSdJwt "sign alogrithm not specified"
  | some hasher, some saltGenerator, some alg =>
    if alg = "none" then throwSdJwt "sign algorithm \"none\" is not allowed"
    else do
      validateReservedFieldsInternal payload
      let hashAlg := config.hashAlg.getD defaultHashAlg
      let allowed := config.allowedDisclosureHashAlgorithms.getD DEFAULT_SECURE_HASH_ALGORITHMS
      if hashAlg ∉ allowed then throwSdJwt ("Disallowed hash algorithm: " ++ hashAlg)
      else
        let ((packedClaims, disclosures), _) ← pack
          ⟨⟨hasher, hashAlg⟩, saltGenerator⟩ payload disclosureFrame {}
        let jwt : Jwt := {
          header := issuerHeader config alg header
          payload := Value.obj (insert "_sd_alg" (sdAlgOf disclosureFrame hashAlg)
            (ownMembers packedClaims)) }
        match config.signer with
        | none => throwSdJwt "Signer not found"
        | some signer => do
          let jwt ← jwt.sign signer
          { jwt := jwt, disclosures := disclosures : SdJwt }.encodeSdJwt

end SdJwtInstance

end IdentityCommon.SdJwt
