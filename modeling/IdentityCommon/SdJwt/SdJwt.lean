import IdentityCommon.SdJwt.Jwt
import Mathlib.Data.List.Sort

/-!
# SD-JWTs

An SD-JWT as its parts: the JWT, the disclosures and the key binding JWT.

## Main definitions

- `SdJwt` — the parts
- `SdJwt.fromEncode`, `SdJwt.encodeSdJwt` — from and to the compact form
- `SdJwt.getClaims`, `SdJwt.keys` — what the disclosures reveal
- `SdJwt.getPresentDisclosures`, `SdJwt.present` — the disclosures that a frame selects

## Design notes

Strings are sorted by their UTF-16 code units, as the language sorts them.
-/

set_option linter.dupNamespace false

namespace IdentityCommon.SdJwt

open Ecma Value AssocList

/-- The own members of a value, which spreading it into an object copies. -/
def ownMembers : Value → List (String × Value)
  | .obj members => members
  | .arr items => items.zipIdx.map fun x => (Nat.repr x.2, x.1)
  | .str s => s.toList.zipIdx.map fun x => (Nat.repr x.2, .str (String.singleton x.1))
  | _ => []

/-- The UTF-16 code units of a character. -/
def codeUnits (c : Char) : List ℕ :=
  if c.toNat < 0x10000 then [c.toNat]
  else [0xd800 + (c.toNat - 0x10000) / 0x400, 0xdc00 + (c.toNat - 0x10000) % 0x400]

/-- `a <= b` for strings. -/
def stringLe (a b : String) : Bool := a.toList.flatMap codeUnits ≤ b.toList.flatMap codeUnits

/-- `strings.sort()`. -/
def sortStrings (strings : List String) : List String := strings.insertionSort (stringLe · ·)

/-- An error of a function that reads a disclosure. -/
def liftError {α : Type} : Except SdJwtError α → Except UnpackError α
  | .ok a => .ok a
  | .error e => .error (.thrown e)

structure SdJwt where
  jwt : Option Jwt := none
  disclosures : Option (List Disclosure) := none
  kbJwt : Option Jwt := none

/-! ## Frames and keys -/

mutual

/-- The paths that a presentation frame selects. -/
def transformPresentationFrame (path : List String) : Value → List String
  | .obj entries => transformEntries path entries
  | .arr items => transformItems path 0 items
  | _ => []

def transformEntries (path : List String) : List (String × Value) → List String
  | [] => []
  | (key, value) :: entries =>
    (match value with
      | .leaf (.bool true) => [encodePath (path ++ [key])]
      | .obj _ | .arr _ =>
        encodePath (path ++ [key]) :: transformPresentationFrame (path ++ [key]) value
      | _ => []) ++ transformEntries path entries

def transformItems (path : List String) (idx : ℕ) : List Value → List String
  | [] => []
  | value :: items =>
    (match value with
      | .leaf (.bool true) => [encodePath (path ++ [Nat.repr idx])]
      | .obj _ | .arr _ =>
        encodePath (path ++ [Nat.repr idx]) :: transformPresentationFrame
          (path ++ [Nat.repr idx]) value
      | _ => []) ++ transformItems path (idx + 1) items

end

mutual

/-- The paths of the members and elements that are not `undefined`. -/
def listKeys (path : String) : Value → List String
  | .obj members => listMemberKeys path members
  | .arr items => listItemKeys path 0 items
  | _ => []

def listMemberKeys (path : String) : List (String × Value) → List String
  | [] => []
  | (key, value) :: members =>
    (match value with
      | .undefined => []
      | value => joinPath path (encodePathSegment key) :: listKeys
          (joinPath path (encodePathSegment key)) value) ++
    listMemberKeys path members

def listItemKeys (path : String) (idx : ℕ) : List Value → List String
  | [] => []
  | value :: items =>
    (match value with
      | .undefined => []
      | value => joinPath path (Nat.repr idx) :: listKeys (joinPath path (Nat.repr idx)) value) ++
    listItemKeys path (idx + 1) items

end

/-- `disclosureKeymap[key]`, as it is used as a name. -/
def keymapText (keymap : DisclosureKeymap) (key : String) : String :=
  (keymap.lookup key).getD ((inherited key).toText.getD "")

/-- `hashmap[digest]`, if it is not `undefined`: a disclosure, or what every object inherits. -/
def hashmapGet (hashmap : DisclosureMap) (digest : String) : Option (Option Disclosure) :=
  match hashmap.lookup digest with
  | some disclosure => some (some disclosure)
  | none => if digest ∈ inheritedNames then some none else none

namespace SdJwt

/-! ## The compact form -/

/-- The key binding JWT, if there is one. -/
def decodeKbJwt (encodedKeyBindingJwt : String) : Except UnpackError (Option Jwt) :=
  if encodedKeyBindingJwt = "" then .ok none else some <$> Jwt.fromEncode encodedKeyBindingJwt

def decodeSdJwt (sdjwt : String) (hasher : Hasher) : Except UnpackError SdJwt :=
  match split sdjwt SD_SEPARATOR with
  | encodedJwt :: encodedDisclosure :: encodedDisclosures => do
    let jwt ← Jwt.fromEncode encodedJwt
    match Jwt.part jwt.payload with
    | none => throwSdJwt "Payload is undefined on the JWT. Invalid state reached"
    | some payload =>
      let encodedDisclosures := encodedDisclosure :: encodedDisclosures
      let encodedKeyBindingJwt := encodedDisclosures.getLastD ""
      let kbJwt ← decodeKbJwt encodedKeyBindingJwt
      let (_sd_alg, _) ← getSdAlgAndPayload (ownMembers payload)
      let disclosures ← encodedDisclosures.dropLast.mapM fun encoded =>
        liftError (Disclosure.fromEncode encoded { hasher, alg := _sd_alg })
      .ok { jwt, disclosures, kbJwt }
  | _ => throwSdJwt "Invalid SD-JWT: missing SD-JWT separator"

def fromEncode (encodedSdJwt : String) (hasher : Hasher) : Except UnpackError SdJwt :=
  decodeSdJwt encodedSdJwt hasher

def encodeSdJwt (s : SdJwt) : Except UnpackError String :=
  match s.jwt with
  | none => throwSdJwt "Invalid sd-jwt: jwt is missing"
  | some jwt => do
    let (encodedJwt, _) ← jwt.encodeJwt
    let encodedDisclosures := match s.disclosures with
      | some (d :: disclosures) => [join ((d :: disclosures).map Disclosure.encode) SD_SEPARATOR]
      | _ => []
    let encodedKbJwt ← match s.kbJwt with
      | some kbJwt => Prod.fst <$> kbJwt.encodeJwt
      | none => .ok ""
    .ok (join (encodedJwt :: encodedDisclosures ++ [encodedKbJwt]) SD_SEPARATOR)

/-! ## Claims -/

/-- The payload and the disclosures, if both are there. -/
def parts (s : SdJwt) : Except UnpackError (Value × List Disclosure) :=
  match s.jwt.bind fun jwt => Jwt.part jwt.payload, s.disclosures with
  | some payload, some disclosures => .ok (payload, disclosures)
  | _, _ => throwSdJwt "Invalid sd-jwt: jwt or disclosures is missing"

def unpackParts (s : SdJwt) (hasher : Hasher) : Except UnpackError Unpacked := do
  let (payload, disclosures) ← s.parts
  unpack (ownMembers payload) disclosures hasher

def getClaims (s : SdJwt) (hasher : Hasher) : Except UnpackError Value :=
  Unpacked.unpackedObj <$> s.unpackParts hasher

def keys (s : SdJwt) (hasher : Hasher) : Except UnpackError (List String) :=
  (sortStrings ∘ listKeys "") <$> s.getClaims hasher

def presentableKeys (s : SdJwt) (hasher : Hasher) : Except UnpackError (List String) :=
  (fun r => sortStrings (AssocList.keys r.disclosureKeymap)) <$> s.unpackParts hasher

/-! ## Presentations -/

/-- The disclosures at the paths of a frame, or at all paths; `none` among them is what every object
inherits. -/
def getPresentDisclosures (s : SdJwt) (presentFrame : Option Value) (hasher : Hasher) :
    Except UnpackError (List (Option Disclosure)) := do
  let (payload, disclosures) ← s.parts
  let (alg, _) ← getSdAlgAndPayload (ownMembers payload)
  let hashmap ← createHashMapping disclosures { hasher, alg }
  let { disclosureKeymap, .. } ← unpack (ownMembers payload) disclosures hasher
  let keys ← match presentFrame with
    | some frame => .ok (transformPresentationFrame [] frame)
    | none => s.presentableKeys hasher
  .ok (keys.filterMap fun k => hashmapGet hashmap (keymapText disclosureKeymap k))

/-- The compact form with the disclosures that a frame selects. -/
def present (s : SdJwt) (presentFrame : Option Value) (hasher : Hasher) :
    Except UnpackError String := do
  let disclosures ← s.getPresentDisclosures presentFrame hasher
  match disclosures.mapM id with
  | none => throwSdJwt "dc.encode is not a function"
  | some disclosures =>
    ({ jwt := s.jwt, disclosures := disclosures, kbJwt := s.kbJwt } : SdJwt).encodeSdJwt

end SdJwt

end IdentityCommon.SdJwt
