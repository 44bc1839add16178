import IdentityCommon.Ecma.JsonRoundTrip

/-!
# base64url

The encoding helpers in their layers: bytes, strings and JSON values to and from base64url text
without padding.

## Main definitions

- `encode`, `decode` — bytes to and from text
- `base64urlEncode`, `base64urlDecode` — strings to and from text
- `base64urlDecodeJson` — the JSON value of a text

## Main results

- `decode_encode` — decoding undoes encoding
- `encode_injective`, `length_encode` — texts of different bytes, and their length
- `base64urlDecodeJson_encode` — an encoded JSON value is decoded again
-/

namespace IdentityCommon.Common

open Ecma

/-- The errors of the package, by their message. -/
structure IdentityCommonError where
  message : String
  deriving DecidableEq

namespace Base64url

/-! ## Bytes -/

def chars : List Char := "ABCDEFGHIJKLMNOPQRSTUVWXYZabcdefghijklmnopqrstuvwxyz0123456789-_".toList

/-- `chars[n]`. -/
def char (n : ℕ) : Char := chars.getD n 'A'

/-- `chars.indexOf(c)`. -/
def indexOf (c : Char) : ℕ := chars.idxOf c

def encode : List UInt8 → List Char
  | b₀ :: b₁ :: b₂ :: bytes =>
    let chunk := b₀.toNat <<< 16 ||| b₁.toNat <<< 8 ||| b₂.toNat
    char (chunk >>> 18 &&& 63) :: char (chunk >>> 12 &&& 63) :: char (chunk >>> 6 &&& 63) ::
      char (chunk &&& 63) :: encode bytes
  | [b₀, b₁] =>
    let chunk := b₀.toNat <<< 16 ||| b₁.toNat <<< 8
    [char (chunk >>> 18 &&& 63), char (chunk >>> 12 &&& 63), char (chunk >>> 6 &&& 63)]
  | [b₀] =>
    let chunk := b₀.toNat <<< 16 ||| 0
    [char (chunk >>> 18 &&& 63), char (chunk >>> 12 &&& 63)]
  | [] => []

/-- The bytes of groups of four characters. -/
def decodeChars : List Char → List UInt8
  | a :: b :: c :: d :: cs =>
    .ofNat (indexOf a <<< 2 ||| indexOf b >>> 4) ::
      .ofNat ((indexOf b &&& 15) <<< 4 ||| indexOf c >>> 2) ::
      .ofNat ((indexOf c &&& 3) <<< 6 ||| indexOf d) :: decodeChars cs
  | [a, b, c] =>
    [.ofNat (indexOf a <<< 2 ||| indexOf b >>> 4),
      .ofNat ((indexOf b &&& 15) <<< 4 ||| indexOf c >>> 2)]
  | [a, b] => [.ofNat (indexOf a <<< 2 ||| indexOf b >>> 4)]
  | _ => []

def decode (input : List Char) : Except IdentityCommonError (List UInt8) :=
  if !input.all (chars.contains ·) then
    .error ⟨"Invalid base64url string: contains invalid characters"⟩
  -- a single trailing character can never encode a full byte
  else if input.length % 4 = 1 then .error ⟨"Invalid base64url string: invalid length"⟩
  else .ok (decodeChars input)

theorem indexOf_char : ∀ n < 64, indexOf (char n) = n := by decide

theorem char_mem : ∀ n < 64, char n ∈ chars := by decide

theorem and_eq_mod (n i : ℕ) : n &&& (2 ^ i - 1) = n % 2 ^ i := Nat.and_two_pow_sub_one_eq_mod n i

theorem and_63 (n : ℕ) : n &&& 63 = n % 64 := and_eq_mod n 6

theorem or_eq_add {a b i : ℕ} (h : b < 2 ^ i) : a <<< i ||| b = a * 2 ^ i + b := by
  rw [← Nat.shiftLeft_add_eq_or_of_lt h, Nat.shiftLeft_eq]

/-- A byte that the bits of two characters make up. -/
theorem byte_eq {a b i : ℕ} (byte : UInt8) (h : b < 2 ^ i)
    (hbyte : (a * 2 ^ i + b) % 256 = byte.toNat) :
    UInt8.ofNat (a <<< i ||| b) = byte := by
  rw [or_eq_add h, ← UInt8.toNat_inj, UInt8.toNat_ofNat']
  exact hbyte

theorem chunk_eq {b₀ b₁ b₂ : ℕ} (h₁ : b₁ < 256) (h₂ : b₂ < 256) :
    b₀ <<< 16 ||| b₁ <<< 8 ||| b₂ = (b₀ * 256 + b₁) * 256 + b₂ := by
  have h : b₁ <<< 8 < 2 ^ 16 := by
    rw [Nat.shiftLeft_eq]
    omega
  rw [or_eq_add h, show b₀ * 2 ^ 16 + b₁ <<< 8 = (b₀ * 256 + b₁) <<< 8 by
    rw [Nat.shiftLeft_eq, Nat.shiftLeft_eq]
    ring]
  exact or_eq_add h₂

theorem indexOf_char_and (n : ℕ) : indexOf (char (n &&& 63)) = n % 64 := by
  rw [and_63]
  exact indexOf_char _ (Nat.mod_lt _ (by decide))

theorem decodeChars_encode (bytes : List UInt8) : decodeChars (encode bytes) = bytes := by
  induction bytes using encode.induct with
  | case1 b₀ b₁ b₂ bytes ih =>
    have h₀ := b₀.toNat_lt
    have h₁ := b₁.toNat_lt
    have h₂ := b₂.toNat_lt
    simp only [encode, decodeChars, indexOf_char_and, ih, chunk_eq h₁ h₂, Nat.shiftRight_eq_div_pow,
      show (15 : ℕ) = 2 ^ 4 - 1 from rfl, show (3 : ℕ) = 2 ^ 2 - 1 from rfl, and_eq_mod]
    rw [byte_eq b₀ (by omega) (by omega), byte_eq b₁ (by omega) (by omega),
      byte_eq b₂ (by omega) (by omega)]
  | case2 b₀ b₁ =>
    have h₀ := b₀.toNat_lt
    have h₁ := b₁.toNat_lt
    have hchunk : b₀.toNat <<< 16 ||| b₁.toNat <<< 8 = (b₀.toNat * 256 + b₁.toNat) * 256 + 0 := by
      rw [← chunk_eq h₁ (by decide : 0 < 256), Nat.or_zero]
    simp only [encode, decodeChars, indexOf_char_and, hchunk, Nat.shiftRight_eq_div_pow,
      show (15 : ℕ) = 2 ^ 4 - 1 from rfl, and_eq_mod]
    rw [byte_eq b₀ (by omega) (by omega), byte_eq b₁ (by omega) (by omega)]
  | case3 b₀ =>
    have h₀ := b₀.toNat_lt
    have hchunk : b₀.toNat <<< 16 ||| 0 = b₀.toNat * 65536 := by
      rw [Nat.or_zero, Nat.shiftLeft_eq]
    simp only [encode, decodeChars, indexOf_char_and, hchunk, Nat.shiftRight_eq_div_pow]
    rw [byte_eq b₀ (by omega) (by omega)]
  | case4 => rfl

theorem mem_chars_of_encode (bytes : List UInt8) : ∀ c ∈ encode bytes, c ∈ chars := by
  have hchar : ∀ n, char (n &&& 63) ∈ chars := fun n => by
    rw [and_63]
    exact char_mem _ (Nat.mod_lt _ (by decide))
  induction bytes using encode.induct with
  | case1 b₀ b₁ b₂ bytes ih =>
    simp only [encode, List.forall_mem_cons]
    exact ⟨hchar _, hchar _, hchar _, hchar _, ih⟩
  | case2 b₀ b₁ =>
    simp only [encode, List.forall_mem_cons]
    exact ⟨hchar _, hchar _, hchar _, nofun⟩
  | case3 b₀ =>
    simp only [encode, List.forall_mem_cons]
    exact ⟨hchar _, hchar _, nofun⟩
  | case4 => exact nofun

/-- Four characters for three bytes, and one more than there are bytes left at the end. -/
theorem length_encode (bytes : List UInt8) : (encode bytes).length =
    bytes.length / 3 * 4 + (if bytes.length % 3 = 0 then 0 else bytes.length % 3 + 1) := by
  induction bytes using encode.induct with
  | case1 b₀ b₁ b₂ bytes ih =>
    simp only [encode, List.length_cons, ih]
    split <;> split <;> omega
  | case2 b₀ b₁ => simp [encode]
  | case3 b₀ => simp [encode]
  | case4 => rfl

/-- Decoding undoes encoding. -/
theorem decode_encode (bytes : List UInt8) : decode (encode bytes) = .ok bytes := by
  have hall : (encode bytes).all (chars.contains ·) = true :=
    List.all_eq_true.mpr fun c hc => List.contains_iff_mem.mpr (mem_chars_of_encode bytes c hc)
  have hlen : (encode bytes).length % 4 ≠ 1 := by
    rw [length_encode]
    split
    · omega
    · have := Nat.mod_lt bytes.length (by decide : 0 < 3)
      omega
  rw [decode, hall, if_neg (by decide), if_neg hlen, decodeChars_encode]

theorem encode_injective : Function.Injective encode := by
  intro bytes bytes' h
  have h' := congrArg decode h
  rw [decode_encode, decode_encode] at h'
  exact Except.ok.inj h'

end Base64url

/-! ## Strings and JSON values -/

/-- The UTF-8 bytes of a string. -/
def stringToBytes (input : String) : List UInt8 := input.toUTF8.data.toList

/-- The string with the UTF-8 bytes; bytes that are not UTF-8 are rejected. -/
def bytesToString (bytes : List UInt8) : Except IdentityCommonError String :=
  match String.fromUTF8? ⟨bytes.toArray⟩ with
  | some s => .ok s
  | none => .error ⟨"Invalid UTF-8 byte sequence"⟩

def base64urlEncode (input : String) : String :=
  String.ofList (Base64url.encode (stringToBytes input))

def base64urlDecode (input : String) : Except IdentityCommonError String := do
  bytesToString (← Base64url.decode input.toList)

/-- The JSON value of a base64url text; every failure is the same error. -/
def base64urlDecodeJson (input : String) : Except IdentityCommonError Value :=
  match base64urlDecode input with
  | .ok text => match Json.parse text.toList with
    | some value => .ok value
    | none => .error ⟨"Invalid base64url encoded JSON"⟩
  | .error _ => .error ⟨"Invalid base64url encoded JSON"⟩

theorem bytesToString_stringToBytes (s : String) : bytesToString (stringToBytes s) = .ok s := by
  have h : String.fromUTF8? ⟨(stringToBytes s).toArray⟩ = some s := by
    have hb : (⟨(stringToBytes s).toArray⟩ : ByteArray) = s.toUTF8 := rfl
    rw [hb]
    exact dif_pos s.isValidUTF8
  rw [bytesToString, h]

theorem base64urlDecode_encode (s : String) : base64urlDecode (base64urlEncode s) = .ok s := by
  rw [base64urlDecode, base64urlEncode, String.toList_ofList, Base64url.decode_encode]
  exact bytesToString_stringToBytes s

theorem base64urlEncode_injective : Function.Injective base64urlEncode := by
  intro s t h
  have h' := congrArg base64urlDecode h
  rw [base64urlDecode_encode, base64urlDecode_encode] at h'
  exact Except.ok.inj h'

/-- The text of a JSON value is decoded to the value. -/
theorem base64urlDecodeJson_encode {value : Value} (h : value.IsJson) {text : List Char}
    (ht : Json.stringify value = some text) :
    base64urlDecodeJson (base64urlEncode (String.ofList text)) = .ok value := by
  have hp := Json.parse_stringify h
  rw [ht, Option.bind_some] at hp
  rw [base64urlDecodeJson, base64urlDecode_encode]
  simp only [String.toList_ofList, hp]

theorem isJson_of_decodeJson {input : String} {v : Value} (h : base64urlDecodeJson input = .ok v) :
    v.IsJson := by
  unfold base64urlDecodeJson at h
  split at h
  case h_1 =>
    split at h
    case h_1 hparse =>
      cases h
      exact Json.isJson_of_parse hparse
    case h_2 => cases h
  case h_2 => cases h

end IdentityCommon.Common
