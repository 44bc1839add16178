import IdentityCommon.Common.Validation
import IdentityCommon.Ecma.Text

/-!
# Headers and keys

The schema of a protected header, and the schemas of the keys and certificates in it.

## Main definitions

- `zX5cCertificate`, `zX5c` — certificates, as texts of one DER sequence each
- `zJwk`, `zPublicJwk` — keys, and keys without private members
- `zJwsProtectedHeader` — the protected header of a JWS

## Main results

- `stable_zJwsProtectedHeader` — what is read back of a header is a header
-/

namespace IdentityCommon.Jose

open Ecma AssocList Value Json Common

/-! ## Certificates -/

/-- The characters of base64, as those of base64url. -/
def toBase64UrlChar (c : Char) : Char := if c = '+' then '-' else if c = '/' then '_' else c

/-- The characters without the padding at the end. -/
def unpadded (cs : List Char) : List Char := (cs.reverse.dropWhile (· = '=')).reverse

/-- `z.core.regexes.base64`. -/
def isBase64 (s : String) : Bool :=
  s.toList.length % 4 = 0 ∧ s.toList.length ≤ (unpadded s.toList).length + 2 ∧
    (unpadded s.toList).all fun c => c ≠ '-' ∧ c ≠ '_' ∧
    Base64url.chars.contains (toBase64UrlChar c)

/-- `base64.decode`, of a text that is base64. -/
def decodeBase64 (s : String) : List UInt8 :=
  Base64url.decodeChars ((unpadded s.toList).map toBase64UrlChar)

/-- Why bytes are not one DER sequence whose length is definite and minimal. -/
def derSequenceIssue : List UInt8 → Option String
  | 0x30 :: first :: rest =>
    if first.toNat < 0x80 then lengthIssue first.toNat rest.length
    else
      let lengthSize := first.toNat % 0x80
      if lengthSize = 0 then some "the length is indefinite (0x80), which DER does not allow"
      else if 4 < lengthSize then some "the length is encoded in more than 4 bytes"
      else if rest.length < lengthSize then some "they end inside the length"
      else
        let length := (rest.take lengthSize).foldl (fun (n : ℕ) b => n * 256 + b.toNat) 0
        if rest.head? = some 0 ∨
          length < 0x80 then some "the length is not minimally encoded, as DER requires"
        else lengthIssue length (rest.length - lengthSize)
  | [0x30] => some "they end after the tag, without a length"
  | _ => some "they do not start with the SEQUENCE tag (0x30)"
where
  lengthIssue (length available : ℕ) : Option String :=
    if available < length then
      some (s!"the SEQUENCE is truncated: its length is {length} byte(s), but only {available} " ++
        "byte(s) follow")
    else if length < available then some s!"{available - length} byte(s) follow the SEQUENCE"
    else none

def zX5cCertificate : Schema
  | str s => if isBase64 s ∧ derSequenceIssue (decodeBase64 s) = none then some (str s) else none
  | _ => none

def zX5c : Schema := nonEmptyArray zX5cCertificate

/-! ## Keys -/

def jwkPrivateMembers : List String := ["d", "p", "q", "dp", "dq", "qi", "oth", "k"]

def zOtherPrime : Schema :=
  looseObject [("r", optional zNonEmptyString), ("d", optional zNonEmptyString),
    ("t", optional zNonEmptyString)]

def jwkShape : List (String × Schema) :=
  [("kty", zNonEmptyString), ("use", optional zNonEmptyString),
    ("key_ops", optional (array zNonEmptyString)), ("alg", optional zNonEmptyString),
      ("kid", optional zNonEmptyString), ("x5u", optional zNonEmptyString),
    ("x5c", optional zX5c), ("x5t", optional zNonEmptyString),
      ("x5t#S256", optional zNonEmptyString),
    ("ext", optional zBoolean), ("crv", optional zNonEmptyString), ("x", optional zNonEmptyString),
    ("y", optional zNonEmptyString), ("n", optional zNonEmptyString),
      ("e", optional zNonEmptyString),
    ("d", optional zNonEmptyString), ("p", optional zNonEmptyString),
      ("q", optional zNonEmptyString),
    ("dp", optional zNonEmptyString), ("dq", optional zNonEmptyString),
      ("qi", optional zNonEmptyString),
    ("oth", optional (array zOtherPrime)), ("k", optional zNonEmptyString)]

def zJwk : Schema := looseObject jwkShape

/-- No private member has a value. -/
def isPublic (jwk : Value) : Bool :=
  jwkPrivateMembers.all fun member => match jwk.get member with
    | undefined => true
    | _ => false

def zPublicJwk : Schema := refine zJwk isPublic

/-! ## Protected headers -/

def zJwsAlg : Schema :=
  refine zNonEmptyString fun alg => match alg with
    | str s => toLowerCase s ≠ "none"
    | _ => true

def headerShape : List (String × Schema) :=
  [("alg", zJwsAlg), ("typ", optional zNonEmptyString), ("cty", optional zNonEmptyString),
    ("kid", optional zNonEmptyString), ("jwk", optional zPublicJwk),
      ("jku", optional zNonEmptyString),
    ("x5c", optional zX5c), ("x5u", optional zNonEmptyString), ("x5t", optional zNonEmptyBase64Url),
    ("x5t#S256", optional zNonEmptyBase64Url), ("crit", optional (nonEmptyArray zNonEmptyString)),
    ("b64", optional zBoolean), ("trust_chain", optional (nonEmptyArray zNonEmptyString))]

def zJwsProtectedHeader : Schema := looseObject headerShape

theorem exact_zX5cCertificate : Exact zX5cCertificate := by
  intro v w h
  unfold zX5cCertificate at h
  split at h
  · split_ifs at h
    cases h
    exact ⟨rfl, .leaf rfl⟩
  · cases h

theorem inherited_of_not_mem {key : String} (h : key ≠ "__proto__" ∧ key ∉ prototypeNames) :
    inherited key = undefined := by
  rw [inherited, if_neg h.1, if_neg h.2]

/-- A public key is one whose private members, if there are any, have no value. -/
theorem isPublic_iff {members : List (String × Value)} :
    isPublic (obj members) = true ↔
      ∀ member ∈ jwkPrivateMembers, members.lookup member = none ∨
      members.lookup member = some undefined := by
  have hnames : ∀ member ∈ jwkPrivateMembers, member ≠ "__proto__" ∧
      member ∉ prototypeNames := by decide
  rw [isPublic, List.all_eq_true]
  refine forall₂_congr fun member hmember => ?_
  cases hl : members.lookup member with
  | none => simp [get_obj_of_none hl, inherited_of_not_mem (hnames member hmember)]
  | some value =>
    rw [get_obj_of_some hl]
    constructor
    · intro h
      split at h
      · exact .inr rfl
      · cases h
    · rintro (h | h)
      · cases h
      · cases h
        rfl

theorem stable_zOtherPrime : Stable zOtherPrime := by
  have htext : Stable (optional zNonEmptyString) := exact_zNonEmptyString.stable.optional
  refine .looseObject (by decide) fun s hs => ?_
  fin_cases hs <;> exact htext

theorem stable_zJwk : Stable zJwk := by
  have htext : Stable (optional zNonEmptyString) := exact_zNonEmptyString.stable.optional
  have hx5c : Stable (optional zX5c) := exact_zX5cCertificate.nonEmptyArray.stable.optional
  have hoth : Stable (optional (array zOtherPrime)) :=
    (stable_zOtherPrime.array fun _ _ h => normal_looseObject h).optional
  refine .looseObject (by decide) fun s hs => ?_
  fin_cases hs
  case «0» => exact exact_zNonEmptyString.stable
  case «2» => exact exact_zNonEmptyString.array.stable.optional
  case «6» => exact hx5c
  case «9» => exact exact_zBoolean.stable.optional
  case «21» => exact hoth
  all_goals exact htext

theorem stable_zPublicJwk : Stable zPublicJwk := by
  refine stable_zJwk.refine (fun v w j hw h hpublic hj => ?_) fun v w h => normal_looseObject h
  obtain ⟨_, _, _, _, rfl⟩ := looseObject_eq_some h
  cases hj
  cases hw with
  | obj hn _ =>
    refine isPublic_iff.mpr fun member hmember => .inl ?_
    rw [lookup_normalMembers hn]
    rcases isPublic_iff.mp hpublic member hmember with hnone | hundefined
    · rw [hnone, Option.bind_none]
    · rw [hundefined]
      rfl

theorem stable_zJwsProtectedHeader : Stable zJwsProtectedHeader := by
  have htext : Stable (optional zNonEmptyString) := exact_zNonEmptyString.stable.optional
  refine .looseObject (by decide) fun s hs => ?_
  fin_cases hs
  case «0» => exact (exact_zNonEmptyString.refine _).stable
  case «4» => exact stable_zPublicJwk.optional
  case «6» => exact exact_zX5cCertificate.nonEmptyArray.stable.optional
  case «8» => exact exact_zNonEmptyBase64Url.stable.optional
  case «9» => exact exact_zNonEmptyBase64Url.stable.optional
  case «10» => exact exact_zNonEmptyString.nonEmptyArray.stable.optional
  case «11» => exact exact_zBoolean.stable.optional
  case «12» => exact exact_zNonEmptyString.nonEmptyArray.stable.optional
  all_goals exact htext

end IdentityCommon.Jose
