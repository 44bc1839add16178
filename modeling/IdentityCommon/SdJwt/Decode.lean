import IdentityCommon.SdJwt.Disclosure

/-!
# Processing disclosures

The claims of an SD-JWT: every digest in the payload that a disclosure has is replaced by the
claim that the disclosure reveals, in which digests are replaced again.

## Main definitions

- `disclosed` — what reading the map of disclosures at a digest gives
- `unpackObjInternal`, `unpackArray`, `unpackMembers`, `unpackDigests` — one pass over a value
- `unpackN` — passes over the value and the values it discloses, up to a depth
- `unpackObj`, `unpack` — the claims of a payload, together with the path of each disclosure

## Design notes

The source recurses into the value of a disclosure. That value is no part of the one at hand, so
that a pass takes the function for disclosed values as an argument and `unpackN` ties the knot
with a bound on the depth. Every bound from `depthBound` on gives the same result.

Values are JSON values and their copies through JSON text are the values themselves
(`Json.parse_stringify`). The members of an object are in the order of their enumeration.
-/

namespace IdentityCommon.SdJwt

open Ecma Value AssocList

/-- The disclosures by their digests. -/
abbrev DisclosureMap := List (String × Disclosure)

/-- The digests of the disclosures that were used, by the paths of the claims they reveal. -/
abbrev DisclosureKeymap := List (String × String)

/-- `Object.assign(keys, ks)`. -/
def assign (keys ks : DisclosureKeymap) : DisclosureKeymap :=
  ks.foldl (fun acc m => insert m.1 m.2 acc) keys

@[simp] theorem assign_nil (keys : DisclosureKeymap) : assign keys [] = keys := rfl

@[simp] theorem assign_cons (keys ks : DisclosureKeymap) (m : String × String) :
    assign keys (m :: ks) = assign (insert m.1 m.2 keys) ks := rfl

theorem assign_append (keys ks ks' : DisclosureKeymap) :
    assign keys (ks ++ ks') = assign (assign keys ks) ks' :=
  List.foldl_append

theorem nodup_keys_assign {l : DisclosureKeymap} (ks : DisclosureKeymap)
    (h : (keys l).Nodup) : (keys (assign l ks)).Nodup := by
  induction ks generalizing l with
  | nil => exact h
  | cons m ks ih => exact ih (nodup_insert m.2 h)

/-- Later assignments to other keys leave a key in its place. -/
theorem assign_insert {key : String} (val : String) {keymap ks : DisclosureKeymap}
    (hk : key ∉ keys ks) (h : key ∈ keys keymap) :
    assign (insert key val keymap) ks = insert key val (assign keymap ks) := by
  induction ks generalizing keymap with
  | nil => rfl
  | cons m ks ih =>
    obtain ⟨hm, hk⟩ := not_or.mp (List.mem_cons.not.mp hk)
    rw [assign_cons, assign_cons, ← insert_comm _ _ (Ne.symm hm) h, ih hk]
    rw [keys_insert]
    split
    case isTrue => exact h
    case isFalse => exact List.mem_append_left _ h

/-- An assignment within what is assigned can be made at the end. -/
theorem assign_insert_right (keymap : DisclosureKeymap) {ks : DisclosureKeymap} (key val : String)
    (hn : (keys ks).Nodup) :
    assign keymap (insert key val ks) = insert key val (assign keymap ks) := by
  induction ks generalizing keymap with
  | nil => rfl
  | cons m ks ih =>
    obtain ⟨hm, hn⟩ := List.nodup_cons.mp hn
    rw [AssocList.insert]
    split
    case isTrue h =>
      have hmem : key ∈ keys (insert key m.2 keymap) := by
        rw [keys_insert]
        split
        case isTrue h' => exact h'
        case isFalse => simp
      rw [assign_cons, assign_cons, h, ← assign_insert val (h ▸ hm) hmem, insert_insert_self]
    case isFalse => rw [assign_cons, assign_cons, ih _ hn]

/-- Assigning what was assigned to nothing assigns the same in turn. -/
theorem assign_assign (keymap ks : DisclosureKeymap) :
    assign keymap (assign [] ks) = assign keymap ks := by
  induction ks using List.reverseRecOn with
  | nil => rfl
  | append_singleton ks m ih =>
    rw [assign_append, assign_append, assign_cons, assign_cons, assign_nil, assign_nil,
      assign_insert_right _ _ _ (nodup_keys_assign ks (l := []) List.nodup_nil), ih]

/-- The names that every object inherits. -/
def inheritedNames : List String := "__proto__" :: prototypeNames

/-- `key in object`. -/
def hasName (key : String) (members : List (String × Value)) : Bool :=
  (members.lookup key).isSome || key ∈ inheritedNames

/-! ## Paths -/

def encodePathSegment (segment : String) : String :=
  String.ofList (segment.toList.flatMap fun c =>
    if c = '~' then ['~', '0'] else if c = '.' then ['~', '1'] else [c])

def encodePath (segments : List String) : String :=
  ".".intercalate (segments.map encodePathSegment)

/-- The path of a member or an element; the empty path is left out. -/
def joinPath (path segment : String) : String :=
  if path = "" then segment else path ++ "." ++ segment

/-! ## One pass -/

/-- Why processing fails. -/
inductive UnpackError
  | thrown (error : SdJwtError)
  | outOfFuel

def throwSdJwt {α : Type} (message : String) : Except UnpackError α := .error (.thrown { message })

structure Unpacked where
  unpackedObj : Value
  disclosureKeymap : DisclosureKeymap

/-- Processing the value of a disclosure at a path, after some digests were seen. -/
abbrev Processor := String → Value → List String → Except UnpackError (Unpacked × List String)

/-- The name and the value that `map[hash]` has, if it is not `undefined`. A member that every
object inherits has neither. -/
def disclosed (map : DisclosureMap) (hash : String) : Option (Option String × Value) :=
  match map.lookup hash with
  | some disclosure => some (disclosure.key, disclosure.value)
  | none => if hash ∈ inheritedNames then some (none, undefined) else none

def addDigest (hash : String) (seenDigests : List String) : Except UnpackError (List String) :=
  if hash ∈ seenDigests then throwSdJwt "Duplicate digest found in SD-JWT payload"
  else .ok (seenDigests ++ [hash])

/-- The digest of an array element with a member `...`, if it is well formed. -/
def placeholder : Value → Option (Option String)
  | .obj members => (members.lookup SD_LIST_KEY).map fun hash =>
    match members, hash with
    | [_], .str hash => some hash
    | _, _ => none
  | _ => none

/-- The digests of an `_sd` member, if all of them are strings. -/
def digestList : Value → Option (List String)
  | .arr items => items.mapM fun item => match item with
    | .str hash => some hash
    | _ => none
  | _ => none

/-- The claims that the digests of an object disclose. -/
def unpackDigests (map : DisclosureMap) (process : Processor) (path : String)
    (payload : List (String × Value)) : List String → List (String × Value) → DisclosureKeymap →
    List String → Except UnpackError (List (String × Value) × DisclosureKeymap × List String)
  | [], claims, keys, seenDigests => .ok (claims, keys, seenDigests)
  | hash :: _sd, claims, keys, seenDigests => do
    let seenDigests ← addDigest hash seenDigests
    match disclosed map hash with
    | none => unpackDigests map process path payload _sd claims keys seenDigests
    | some (none, _) => throwSdJwt "Array disclosure cannot be used as an object property"
    | some (some key, value) =>
      if hasName key payload then
        throwSdJwt ("Disclosed claim name \"" ++ key ++ "\" conflicts with existing payload key")
      else if hasName key claims then
        throwSdJwt ("Disclosed claim name \"" ++ key ++ "\" conflicts with another disclosure")
      else
        let presentKey := joinPath path (encodePathSegment key)
        let (r, seenDigests) ← process presentKey value seenDigests
        unpackDigests map process path payload _sd (claims ++ [(key, r.unpackedObj)])
          (assign (insert presentKey hash keys) r.disclosureKeymap) seenDigests

mutual

def unpackObjInternal (map : DisclosureMap) (process : Processor) (path : String) :
    Value → List String → Except UnpackError (Unpacked × List String)
  | .leaf l, seenDigests => .ok (⟨.leaf l, []⟩, seenDigests)
  | .arr items, seenDigests => do
    let (items, keys, seenDigests) ← unpackArray map process path 0 items [] seenDigests
    .ok (⟨.arr items, keys⟩, seenDigests)
  | .obj members, seenDigests => do
    let (record, keys, seenDigests) ← unpackMembers map process path members [] seenDigests
    let payload := record.filter (·.1 ≠ SD_DIGEST)
    match record.lookup SD_DIGEST with
    | none => .ok (⟨.obj payload, keys⟩, seenDigests)
    | some _sd => match digestList _sd with
      | none => throwSdJwt "Invalid _sd claim: expected array of strings"
      | some _sd =>
        let (claims, keys, seenDigests) ← unpackDigests map process path payload _sd []
          keys seenDigests
        .ok (⟨.obj (payload ++ claims), keys⟩, seenDigests)

/-- The elements from index `idx` on. -/
def unpackArray (map : DisclosureMap) (process : Processor) (path : String) (idx : ℕ) :
    List Value → DisclosureKeymap → List String →
    Except UnpackError (List Value × DisclosureKeymap × List String)
  | [], keys, seenDigests => .ok ([], keys, seenDigests)
  | item :: items, keys, seenDigests =>
    let newKey := joinPath path (Nat.repr idx)
    match placeholder item with
    | some none => throwSdJwt "Invalid array disclosure placeholder"
    | some (some hash) => do
      let seenDigests ← addDigest hash seenDigests
      match disclosed map hash with
      | none => unpackArray map process path (idx + 1) items keys seenDigests
      | some (some _, _) =>
        throwSdJwt "Object-property disclosure cannot be used as an array element"
      | some (none, value) => do
        let (r, seenDigests) ← process newKey value seenDigests
        let (items, keys, seenDigests) ← unpackArray map process path (idx + 1) items
          (assign (insert newKey hash keys) r.disclosureKeymap) seenDigests
        .ok (r.unpackedObj :: items, keys, seenDigests)
    -- an element that is no object or array is its own result
    | none => do
      let (r, seenDigests) ← unpackObjInternal map process newKey item seenDigests
      let (items, keys, seenDigests) ← unpackArray map process path (idx + 1) items
        (assign keys r.disclosureKeymap) seenDigests
      .ok (r.unpackedObj :: items, keys, seenDigests)

/-- The members of an object besides `_sd` and `...`, which are left as they are. -/
def unpackMembers (map : DisclosureMap) (process : Processor) (path : String) :
    List (String × Value) → DisclosureKeymap → List String →
    Except UnpackError (List (String × Value) × DisclosureKeymap × List String)
  | [], keys, seenDigests => .ok ([], keys, seenDigests)
  | (key, value) :: record, keys, seenDigests =>
    if path ≠ "" ∧ key = "_sd_alg" then throwSdJwt "Nested _sd_alg is not allowed"
    else if key = SD_DIGEST ∨ key = SD_LIST_KEY then do
      let (record, keys, seenDigests) ← unpackMembers map process path record keys seenDigests
      .ok ((key, value) :: record, keys, seenDigests)
    else do
      let newKey := joinPath path (encodePathSegment key)
      let (r, seenDigests) ← unpackObjInternal map process newKey value seenDigests
      let (record, keys, seenDigests) ← unpackMembers map process path record
        (assign keys r.disclosureKeymap) seenDigests
      .ok ((key, r.unpackedObj) :: record, keys, seenDigests)

end

/-! ## Processing -/

/-- Processing with at most `n` passes into disclosures in one another. -/
def unpackN (map : DisclosureMap) : ℕ → Processor
  | 0 => fun _ _ _ => .error .outOfFuel
  | n + 1 => fun path value seenDigests =>
    unpackObjInternal map (unpackN map n) path value seenDigests

/-- A depth that processing does not exceed: every disclosure is used once, and a name that every
object inherits has no digests. -/
def depthBound (map : DisclosureMap) : ℕ := map.length + 2

/-- `unpackObj` with a bound on the depth. -/
def unpackObjN (n : ℕ) (obj : Value) (map : DisclosureMap) : Except UnpackError Unpacked := do
  let (result, seenDigests) ← unpackN map n "" obj []
  if (keys map).all (· ∈ seenDigests) then .ok result
  else throwSdJwt "Unreferenced disclosure(s) detected in SD-JWT"

def unpackObj (obj : Value) (map : DisclosureMap) : Except UnpackError Unpacked :=
  unpackObjN (depthBound map) obj map

/-- The disclosures by their digests; two with one digest are rejected. -/
def createHashMapping (disclosures : List Disclosure) (hash : HasherAndAlg) :
    Except UnpackError DisclosureMap :=
  disclosures.foldlM (fun map disclosure =>
    let digest := disclosure.digest hash
    if digest ∈ keys map ∨ digest ∈ inheritedNames then
      throwSdJwt "Duplicate disclosure digest detected"
    else .ok (map ++ [(digest, disclosure)])) []

/-- The hash algorithm of a payload, and the payload without it. -/
def getSdAlgAndPayload (sdJwtPayload : List (String × Value))
    (allowedAlgorithms : List String := DEFAULT_SECURE_HASH_ALGORITHMS) :
    Except UnpackError (String × List (String × Value)) :=
  let payload := sdJwtPayload.filter (·.1 ≠ "_sd_alg")
  match sdJwtPayload.lookup "_sd_alg" with
  | none => .ok ("sha-256", payload)
  | some (.str _sd_alg) =>
    if _sd_alg ∉ IANA_HASH_ALGORITHMS then throwSdJwt ("Invalid _sd_alg: " ++ _sd_alg)
    else if _sd_alg ∉ allowedAlgorithms then throwSdJwt ("Disallowed _sd_alg: " ++ _sd_alg)
    else .ok (_sd_alg, payload)
  | some _ => throwSdJwt "Invalid _sd_alg: expected string"

/-- The claims of a payload with disclosures. -/
def unpack (sdJwtPayload : List (String × Value)) (disclosures : List Disclosure)
    (hasher : Hasher) : Except UnpackError Unpacked := do
  let (_sd_alg, payload) ← getSdAlgAndPayload sdJwtPayload
  let map ← createHashMapping disclosures { hasher, alg := _sd_alg }
  unpackObj (.obj payload) map

end IdentityCommon.SdJwt
