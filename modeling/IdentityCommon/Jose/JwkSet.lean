import IdentityCommon.Ecma.Double
import IdentityCommon.Jose.SignJws

/-!
# JWK Sets

A set of keys, and the key of it that a token is verified with.

## Main definitions

- `zJwkSet`, `keysOf` — sets of keys
- `isSameJsonValue` — values that are the same JSON value
- `extractJwkFromJwkSet` — the key with an identifier, or the only key

## Main results

- `mem_of_extractJwkFromJwkSet` — the key is one of the set, with the identifier and for the use
-/

namespace IdentityCommon.Jose

open Ecma AssocList Value Common

def zJwkSet : Schema := looseObject [("keys", array zJwk)]

def keysOf (jwks : Value) : List Value :=
  match jwks.get "keys" with
  | arr items => items
  | _ => []

/-! ## The same value -/

def sameLeaf : Leaf → Leaf → Bool
  | .num n, .num n' =>
      (Double.ofNumber n).le (Double.ofNumber n') && (Double.ofNumber n').le (Double.ofNumber n)
  | l, l' => l = l'

/-- How many members have a value. -/
def definedCount (members : List (String × Value)) : ℕ :=
  (members.filter fun m => (definedOf m.2).isSome).length

mutual

def isSameJsonValue : Value → Value → Bool
  | arr items, arr items' => sameItems items items'
  | obj members, obj members' =>
      definedCount members = definedCount members' && sameMembers members members'
  | .leaf l, .leaf l' => sameLeaf l l'
  | _, _ => false

def sameItems : List Value → List Value → Bool
  | [], [] => true
  | item :: items, item' :: items' => isSameJsonValue item item' && sameItems items items'
  | _, _ => false

def sameMembers : List (String × Value) → List (String × Value) → Bool
  | [], _ => true
  | (key, value) :: members, members' =>
    ((definedOf value).isNone || (match members'.lookup key with
      | some value' => isSameJsonValue value value'
      | none => false)) && sameMembers members members'

end

/-! ## The key of a token -/

/-- The key, where all keys are the same. -/
def onlyJwk : List Value → Option Value
  | [] => none
  | first :: rest => if rest.all (isSameJsonValue · first) then some first else none

def isForUse (use : String) (jwk : Value) : Bool :=
  (textOf (jwk.get "use")).all fun u => u = "" || u = use

/-- The key, or the message of the error where none or more than one applies. -/
def extractJwkFromJwkSet (jwks : Value) (kid : Option String) (use : String) :
    Except String Value :=
  let jwksForUse := (keysOf jwks).filter (isForUse use)
  match kid.filter (· ≠ "") with
  | some kid =>
    let jwksForKid := jwksForUse.filter fun jwk => textOf (jwk.get "kid") = some kid
    match jwksForKid, onlyJwk jwksForKid with
    | _, some jwk => .ok jwk
    | [], none => .error ("Unable to extract jwk from jwks for use '" ++ use ++
        "'. No key with kid '" ++ kid ++ "' found.")
    | _, none =>
        .error (s!"Unable to extract jwk from jwks for use '{use}'. The jwks contains " ++
          s!"{jwksForKid.length} keys with kid '{kid}' that differ, and it is ambiguous which " ++
          "one applies.")
  | none =>
    match onlyJwk jwksForUse with
    | some jwk => .ok jwk
    | none => .error
        (s!"Unable to extract jwk from jwks for use '{use}'. No kid provided and the jwks " ++
         s!"contains {jwksForUse.length} keys for this use.")

theorem mem_of_onlyJwk {jwks : List Value} {jwk : Value} (h : onlyJwk jwks = some jwk) :
    jwk ∈ jwks := by
  cases jwks with
  | nil => cases h
  | cons first rest =>
    rw [onlyJwk] at h
    split_ifs at h
    cases h
    exact List.mem_cons_self

/-- The key is one of the set, for the use, and has the identifier if there is one. -/
theorem mem_of_extractJwkFromJwkSet {jwks jwk : Value} {kid : Option String} {use : String}
    (h : extractJwkFromJwkSet jwks kid use = .ok jwk) :
    jwk ∈ keysOf jwks ∧ isForUse use jwk = true ∧ ∀ id, kid = some id → id ≠ "" →
    textOf (jwk.get "kid") = some id := by
  unfold extractJwkFromJwkSet at h
  dsimp only at h
  split at h
  · next id hkid =>
    split at h
    · next honly =>
      cases h
      obtain ⟨hmem, hid⟩ := List.mem_filter.mp (mem_of_onlyJwk honly)
      obtain ⟨hkeys, huse⟩ := List.mem_filter.mp hmem
      refine ⟨hkeys, huse, fun id' hid' hne => ?_⟩
      rw [hid', Option.filter_some, if_pos (decide_eq_true hne)] at hkid
      cases hkid
      exact of_decide_eq_true hid
    · cases h
    · cases h
  · next hkid =>
    split at h
    · next honly =>
      cases h
      obtain ⟨hkeys, huse⟩ := List.mem_filter.mp (mem_of_onlyJwk honly)
      refine ⟨hkeys, huse, fun id' hid' hne => ?_⟩
      rw [hid', Option.filter_some, if_pos (decide_eq_true hne)] at hkid
      cases hkid
    · cases h

end IdentityCommon.Jose
