import IdentityCommon.Lib.Cbor
import IdentityCommon.Lib.Except
import IdentityCommon.Lib.OrderedMap

/-!
# Headers of COSE structures

Header maps, the protected headers that keep the bytes they were decoded from, and the keys and
algorithms of the two structures.

## Main definitions

- `cborDecode` — a decoded item, with a data item at the top unwrapped
- `HeaderClass` — what the schema of a header class accepts
- `ProtectedHeaders`, `UnprotectedHeaders` — headers with the schema of their class
- `CoseKey`, `SignatureAlgorithm`, `MacAlgorithm` — keys and algorithms

## Design notes

A header class is the check that its schema makes: `protectedHeadersSchema` reads and writes the map
as it is. A key of a header map is compared by its value. What a schema says about a map that it
does not accept is not modelled.
-/

namespace IdentityCommon.Cose

open IdentityCommon.Cbor

abbrev Bytes := List UInt8

inductive CoseError
  | error (message : String)
  | validation (message : String)
  | cborDecode
  | payloadMustBeDefined
  | invalidAlgorithm (message : String)
  | payloadInvalidStructure
  | detachedPayload
  | payloadDecode
  deriving DecidableEq

/-! ## Items -/

/-- A data item at the top level is unwrapped. It is longer than the bytes in it. -/
def unwrapDataItem (codec : Codec) : ℕ → Bytes → Option Item
  | 0, _ => none
  | fuel + 1, b =>
    match codec.decode b with
    | some (.tag 24 (.bytes buffer)) => unwrapDataItem codec fuel buffer
    | item => item

def cborDecode (codec : Codec) (b : Bytes) : Except CoseError Item :=
  match unwrapDataItem codec (b.length + 1) b with
  | some item => .ok item
  | none => .error .cborDecode

theorem cborDecode_eq {codec : Codec} {b : Bytes} {item : Item} (h : codec.decode b = some item)
    (hitem : ∀ buffer, item ≠ .tag 24 (.bytes buffer)) : cborDecode codec b = .ok item := by
  have hunwrap : unwrapDataItem codec (b.length + 1) b = some item := by
    rw [unwrapDataItem, h]
    split
    · next buffer hbuffer => exact absurd (Option.some.inj hbuffer) (hitem buffer)
    · rfl
  rw [cborDecode, hunwrap]

def ofInt : ℤ → Item
  | .ofNat n => .unsigned n
  | .negSucc n => .negative n

def isNumber : Item → Bool
  | .unsigned _ | .negative _ => true
  | _ => false

/-! ## Header maps -/

/-- The header map: a label can be any item. -/
abbrev TypedMap := OrderedMap Item Item

namespace TypedMap

/-- `TypedMap.fromMap` of a decoded map, whose later entries replace the earlier ones. -/
def fromEntries (entries : List (Item × Item)) : TypedMap :=
  entries.foldl (fun m e => m.set e.1 e.2) OrderedMap.empty

def toItem (m : TypedMap) : Item := .map m.entries

theorem entries_fromEntries (entries : List (Item × Item)) :
    (fromEntries entries).entries =
      entries.foldl (fun acc e => AssocList.insert e.1 e.2 acc) [] := by
  have h : ∀ m : TypedMap, (entries.foldl (fun m e => m.set e.1 e.2) m).entries =
      entries.foldl (fun acc e => AssocList.insert e.1 e.2 acc) m.entries := by
    induction entries with
    | nil => exact fun _ => rfl
    | cons e entries ih => exact fun m => ih (m.set e.1 e.2)
  exact h OrderedMap.empty

/-- A map that is not decoded from a key twice is the map that it was encoded from. -/
theorem fromEntries_entries (m : TypedMap) : fromEntries m.entries = m := by
  refine OrderedMap.ext ?_
  have hnodup : (AssocList.keys ([] ++ m.entries)).Nodup := m.nodup
  rw [entries_fromEntries, AssocList.foldl_insert hnodup]
  rfl

end TypedMap

/-- A class of headers, by the maps that its schema accepts. -/
structure HeaderClass where
  name : String
  check : TypedMap → Bool

/-! ## Protected headers -/

structure ProtectedHeaders where
  schema : HeaderClass
  headers : TypedMap
  originalEncodedStructure : Option Bytes

namespace ProtectedHeaders

/-- The header map as it goes on the wire, where it is not the one that was received. -/
def encodeHeaders (codec : Codec) (schema : HeaderClass) (headers : TypedMap) :
    Except CoseError Bytes :=
  if schema.check headers then .ok (codec.encode headers.toItem)
  else .error (.validation ("Error encoding " ++ schema.name))

def encodedStructure (codec : Codec) (h : ProtectedHeaders) : Except CoseError Bytes :=
  match h.originalEncodedStructure with
  | some original => .ok original
  | none => encodeHeaders codec h.schema h.headers

/-- The header map in the bytes of the protected headers. -/
def decodeHeaders (codec : Codec) (schema : HeaderClass) (encoded : Bytes) :
    Except CoseError TypedMap := do
  match ← cborDecode codec encoded with
  | .map entries =>
    if schema.check (TypedMap.fromEntries entries) then .ok (TypedMap.fromEntries entries)
    else .error (.validation ("Error decoding " ++ schema.name))
  | _ => .error (.error "map.entries is not a function")

def fromEncodedStructure (codec : Codec) (schema : HeaderClass) (encoded : Bytes) :
    Except CoseError ProtectedHeaders := do
  let headers ← decodeHeaders codec schema encoded
  .ok { schema, headers, originalEncodedStructure := some encoded }

def markModified (h : ProtectedHeaders) : ProtectedHeaders :=
  { h with originalEncodedStructure := none }

def create (schema : HeaderClass) (headers : TypedMap) : Except CoseError ProtectedHeaders :=
  if schema.check headers then .ok { schema, headers, originalEncodedStructure := none }
  else .error (.validation ("Error decoding " ++ schema.name))

end ProtectedHeaders

/-! ## Unprotected headers -/

structure UnprotectedHeaders where
  schema : HeaderClass
  headers : TypedMap

namespace UnprotectedHeaders

def encodedStructure (h : UnprotectedHeaders) : Except CoseError Item :=
  if h.schema.check h.headers then .ok h.headers.toItem
  else .error (.validation ("Error encoding " ++ h.schema.name))

def fromEncodedStructure (schema : HeaderClass) (entries : List (Item × Item)) :
    Except CoseError UnprotectedHeaders :=
  if schema.check (TypedMap.fromEntries entries) then
    .ok { schema, headers := TypedMap.fromEntries entries }
  else .error (.validation ("Error decoding " ++ schema.name))

end UnprotectedHeaders

/-! ## Keys and algorithms -/

namespace RegisteredCwtHeaderClaimKey

def algorithm : Item := .unsigned 1

end RegisteredCwtHeaderClaimKey

inductive KeyType
  | okp | ec | oct | reserved
  deriving DecidableEq

def KeyType.value : KeyType → ℤ
  | okp => 1
  | ec => 2
  | oct => 4
  | reserved => 0

inductive Curve
  | p256 | p384 | p521 | x25519 | x448 | ed25519 | ed448
  deriving DecidableEq

def Curve.value : Curve → ℤ
  | p256 => 1
  | p384 => 2
  | p521 => 3
  | x25519 => 4
  | x448 => 5
  | ed25519 => 6
  | ed448 => 7

def Curve.name : Curve → String
  | p256 => "P-256"
  | p384 => "P-384"
  | p521 => "P-521"
  | x25519 => "X25519"
  | x448 => "X448"
  | ed25519 => "Ed25519"
  | ed448 => "Ed448"

/-- The members of a key that the structures read. -/
structure CoseKey where
  keyType : Item
  algorithm : Option Item
  curveOrK : Option Item

def CoseKey.curve (key : CoseKey) : Option Item :=
  if key.keyType = ofInt KeyType.ec.value ∨
    key.keyType = ofInt KeyType.okp.value then key.curveOrK else none

/-- The members of `SignatureAlgorithm`. -/
def SignatureAlgorithm : List (String × ℤ) :=
  [("EdDSA", -8), ("ES256", -7), ("ES384", -35), ("ES512", -36), ("ESP256", -9), ("ESP384", -51),
    ("ESP512", -52), ("Ed25519", -19), ("Ed448", -53), ("PS256", -37), ("PS384", -38),
    ("PS512", -39), ("RS256", -257), ("RS384", -258), ("RS512", -259)]

def MacAlgorithm : List (String × ℤ) := [("HS256", 5), ("HS384", 6), ("HS512", 7)]

/-- `Object.values` of an enum of numbers: its names, and its numbers. -/
def enumValues (members : List (String × ℤ)) : List Item :=
  members.map (fun m => .text m.1) ++ members.map fun m => ofInt m.2

/-- A value that a condition in the source takes for true. -/
def truthy : Item → Bool
  | .unsigned 0 => false
  | .text "" => false
  | .simple n => n ≠ 20 ∧ n ≠ 22 ∧ n ≠ 23
  | _ => true

/-- The algorithm in the headers, which has to be a member of the enum. -/
def algorithmOf (members : List (String × ℤ)) (headers : TypedMap) :
    Except CoseError (Option Item) :=
  match headers.get RegisteredCwtHeaderClaimKey.algorithm with
  | none => .ok none
  | some algorithm =>
    if truthy algorithm ∧ algorithm ∉ enumValues members then
      .error (.invalidAlgorithm "CoseInvalidAlgorithmError")
    else .ok (some algorithm)

end IdentityCommon.Cose
