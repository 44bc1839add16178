import IdentityCommon.Common.LooseObjects
import IdentityCommon.Oauth2.Callbacks

/-!
# Credential offer objects

The schema of a credential offer: that of drafts 13 to 15, or else that of draft 11, whose offers
are converted.

## Main definitions

- `zCredentialOfferObjectDraft14`, `zCredentialOfferObjectDraft11To14`, `zCredentialOfferObject` —
  the schemas
- `toDraft14` — the conversion of an offer of draft 11

## Main results

- `stable_zCredentialOfferObjectDraft14` — what is read back of an offer is accepted as it is
-/

namespace IdentityCommon.Openid4vci

open Ecma AssocList Value Common Oauth2

abbrev Members := List (String × Value)

def preAuthorizedCodeGrantIdentifier : String :=
  "urn:ietf:params:oauth:grant-type:pre-authorized_code"

def authorizationCodeGrantIdentifier : String := "authorization_code"

/-- The length of a text in UTF-16 code units. -/
def utf16Length (s : String) : ℕ := (s.toList.map fun c => if c.toNat < 0x10000 then 1 else 2).sum

def zTxCode : Schema :=
  looseObject [("input_mode", optional (textWhere fun s => s = "numeric" ∨ s = "text")),
    ("length", optional zInteger),
      ("description", optional (textWhere fun s => utf16Length s ≤ 300))]

def zAuthorizationCodeGrant (urls : Urls) : Schema :=
  looseObject [("issuer_state", optional zNonEmptyString),
    ("authorization_server", optional (zHttpsUrl urls))]

def zPreAuthorizedCodeGrant (urls : Urls) : Schema :=
  looseObject [("pre-authorized_code", zNonEmptyString), ("tx_code", optional zTxCode),
    ("authorization_server", optional (zHttpsUrl urls))]

def zCredentialOfferGrants (urls : Urls) : Schema :=
  looseObject [(authorizationCodeGrantIdentifier, optional (zAuthorizationCodeGrant urls)),
    (preAuthorizedCodeGrantIdentifier, optional (zPreAuthorizedCodeGrant urls))]

def credentialOfferShape (urls : Urls) : List (String × Schema) :=
  [("credential_issuer", zHttpsUrl urls), ("credential_configuration_ids", array zNonEmptyString),
    ("grants", optional (zCredentialOfferGrants urls))]

def zCredentialOfferObjectDraft14 (urls : Urls) : Schema := looseObject (credentialOfferShape urls)

/-! ## Draft 11 -/

/-- `z.object(shape)`, that leaves out the members without a schema. -/
def object (shape : List (String × Schema)) : Schema
  | obj members => (parseShape shape members).map obj
  | _ => none

def zGrantsDraft11 (urls : Urls) : Schema :=
  object [(authorizationCodeGrantIdentifier, optional (zAuthorizationCodeGrant urls)),
    (preAuthorizedCodeGrantIdentifier, optional (looseObject
      [("pre-authorized_code", zNonEmptyString), ("user_pin_required", optional zBoolean)]))]

def credentialOfferShapeDraft11 (urls : Urls) : List (String × Schema) :=
  [("credential_issuer", zHttpsUrl urls), ("credentials", array zString),
    ("grants", optional (zGrantsDraft11 urls))]

/-- The grants of draft 14 for those of draft 11. -/
def grantsToDraft14 (grants : Members) : Members :=
  match (obj grants).get preAuthorizedCodeGrantIdentifier with
  | obj preAuthorized =>
    let restGrants := preAuthorized.filter (·.1 ≠ "user_pin_required")
    insert preAuthorizedCodeGrantIdentifier (obj (
      if ((obj preAuthorized).get "user_pin_required").truthy then
        insert "tx_code" (obj [("input_mode", str "text")]) restGrants
      else restGrants)) grants
  | _ => grants

/-- The offer of draft 14 for one of draft 11. -/
def toDraft14 (parsed : Members) : Members :=
  let rest := parsed.filter fun m => m.1 ≠ "credentials" ∧ m.1 ≠ "grants"
  let v14 := insert "credential_configuration_ids" ((obj parsed).get "credentials") rest
  match (obj parsed).get "grants" with
  | obj grants => insert "grants" (obj (grantsToDraft14 grants)) v14
  | _ => v14

def zCredentialOfferObjectDraft11To14 (urls : Urls) : Schema := fun value =>
  match looseObject (credentialOfferShapeDraft11 urls) value with
  | some (obj parsed) => zCredentialOfferObjectDraft14 urls (obj (toDraft14 parsed))
  | _ => none

def zCredentialOfferObject (urls : Urls) : Schema :=
  unionOf [zCredentialOfferObjectDraft14 urls, zCredentialOfferObjectDraft11To14 urls]

/-! ## Offers that are read back -/

/-- What the schema of a URL returns is a URL. -/
def UrlsSettle (urls : Urls) : Prop := ∀ s url, urls.zUrl s = some url → urls.zUrl url = some url

theorem stable_zHttpsUrl {urls : Urls} (h : UrlsSettle urls) : Stable (zHttpsUrl urls) where
  distinct v w _ hw := by
    unfold zHttpsUrl at hw
    split at hw
    · obtain ⟨url, -, rfl⟩ := Option.map_eq_some_iff.mp hw
      exact .leaf _
    · cases hw
  normal v w j _ hw hj := by
    unfold zHttpsUrl at hw
    split at hw
    · obtain ⟨url, hurl, rfl⟩ := Option.map_eq_some_iff.mp hw
      obtain ⟨hurl, haccepts⟩ := Option.filter_eq_some_iff.mp hurl
      cases hj
      rw [zHttpsUrl, h _ _ hurl, Option.filter_some, if_pos haccepts]
      rfl
    · cases hw
  absent v w hw hnone := by
    unfold zHttpsUrl at hw
    split at hw
    · obtain ⟨url, -, rfl⟩ := Option.map_eq_some_iff.mp hw
      cases hnone
    · cases hw

theorem stable_zTxCode : Stable zTxCode := by
  refine Stable.looseObject (by decide) fun s hs => ?_
  simp only [List.mem_cons, List.not_mem_nil, or_false] at hs
  rcases hs with rfl | rfl | rfl
  · exact (exact_textWhere _).stable.optional
  · exact exact_zInteger.stable.optional
  · exact (exact_textWhere _).stable.optional

theorem nodup_credentialOfferShape (urls : Urls) : (keys (credentialOfferShape urls)).Nodup := by
  have hn : ["credential_issuer", "credential_configuration_ids", "grants"].Nodup := by decide
  exact hn

section

variable {urls : Urls} (hurls : UrlsSettle urls)

include hurls

theorem stable_zAuthorizationCodeGrant : Stable (zAuthorizationCodeGrant urls) := by
  have hn : ["issuer_state", "authorization_server"].Nodup := by decide
  refine Stable.looseObject hn fun s hs => ?_
  rcases List.mem_pair.mp hs with rfl | rfl
  · exact exact_zNonEmptyString.stable.optional
  · exact (stable_zHttpsUrl hurls).optional

theorem stable_zPreAuthorizedCodeGrant : Stable (zPreAuthorizedCodeGrant urls) := by
  have hn : ["pre-authorized_code", "tx_code", "authorization_server"].Nodup := by decide
  refine Stable.looseObject hn fun s hs => ?_
  simp only [List.mem_cons, List.not_mem_nil, or_false] at hs
  rcases hs with rfl | rfl | rfl
  · exact exact_zNonEmptyString.stable
  · exact stable_zTxCode.optional
  · exact (stable_zHttpsUrl hurls).optional

theorem stable_zCredentialOfferGrants : Stable (zCredentialOfferGrants urls) := by
  have hn : [authorizationCodeGrantIdentifier, preAuthorizedCodeGrantIdentifier].Nodup := by decide
  refine Stable.looseObject hn fun s hs => ?_
  rcases List.mem_pair.mp hs with rfl | rfl
  · exact (stable_zAuthorizationCodeGrant hurls).optional
  · exact (stable_zPreAuthorizedCodeGrant hurls).optional

theorem stable_zCredentialOfferObjectDraft14 : Stable (zCredentialOfferObjectDraft14 urls) := by
  refine Stable.looseObject (nodup_credentialOfferShape urls) fun s hs => ?_
  simp only [credentialOfferShape, List.mem_cons, List.not_mem_nil, or_false] at hs
  rcases hs with rfl | rfl | rfl
  · exact stable_zHttpsUrl hurls
  · exact exact_zNonEmptyString.array.stable
  · exact (stable_zCredentialOfferGrants hurls).optional

end

end IdentityCommon.Openid4vci
