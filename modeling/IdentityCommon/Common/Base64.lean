import IdentityCommon.Common.Base64url
import IdentityCommon.Lib.BitString
import Mathlib.Tactic.IntervalCases

/-!
# base64 and base64url

The codec as it is written for both alphabets, with the array that is filled and the indices that
are read and written, and what it is for: the bits of the bytes, regrouped.

## Main definitions

- `encodeBase64`, `decodeBase64` — bytes to and from text
- `IsEncoding` — the encoding of bytes, by their bits
- `Accepted`, `SameButUnusedBits` — which strings are decoded, and which of them to the same bytes
- `Fits` — the strings for which the length of the array is computed without an overflow

## Main results

- `isEncoding_encodeBase64` — the text is the encoding of the bytes
- `codec_holds_iff` — when the codec does what it is for
-/

namespace IdentityCommon.Common

open BitString

/-! ## The codec -/

inductive Base64Alphabet
  | base64
  | base64url
  deriving DecidableEq

/-- What is thrown: an error of the package, or by the engine for the length of an array. -/
inductive CodecError
  | identityCommon (error : IdentityCommonError)
  | rangeError (message : String)
  deriving DecidableEq

namespace Base64Alphabet

def name : Base64Alphabet → String
  | base64 => "base64"
  | base64url => "base64url"

/-- `ALPHABETS[alphabet]`. -/
def chars : Base64Alphabet → List Char
  | base64 => "ABCDEFGHIJKLMNOPQRSTUVWXYZabcdefghijklmnopqrstuvwxyz0123456789+/".toList
  | base64url => "ABCDEFGHIJKLMNOPQRSTUVWXYZabcdefghijklmnopqrstuvwxyz0123456789-_".toList

/-- `chars[n]`. -/
def char (α : Base64Alphabet) (n : ℕ) : Char := α.chars.getD n 'A'

/-- `chars.indexOf(c)`. -/
def indexOf (α : Base64Alphabet) (c : Char) : ℕ := α.chars.idxOf c

/-- The character class of the alphabet's expression: `[A-Za-z0-9+/]` and `[A-Za-z0-9_-]`. -/
def inClass (α : Base64Alphabet) (c : Char) : Bool :=
  'A' ≤ c && c ≤ 'Z' || 'a' ≤ c && c ≤ 'z' || '0' ≤ c && c ≤ '9' ||
    match α with
    | base64 => c == '+' || c == '/'
    | base64url => c == '_' || c == '-'

/-- `VALID_INPUT[alphabet].test(input)`: characters of the class, and for base64 at most two `=`
after them. -/
def validInput (α : Base64Alphabet) (input : List Char) : Bool :=
  let rest := input.dropWhile α.inClass
  match α with
  | base64 => rest.all (· == '=') && rest.length ≤ 2
  | base64url => rest.isEmpty

end Base64Alphabet

def encodeBase64 (α : Base64Alphabet) : List UInt8 → List Char
  | b₀ :: b₁ :: b₂ :: bytes =>
    let chunk := b₀.toNat <<< 16 ||| b₁.toNat <<< 8 ||| b₂.toNat
    α.char (chunk >>> 18 &&& 63) :: α.char (chunk >>> 12 &&& 63) :: α.char (chunk >>> 6 &&& 63) ::
      α.char (chunk &&& 63) :: encodeBase64 α bytes
  | [b₀, b₁] =>
    let chunk := b₀.toNat <<< 16 ||| b₁.toNat <<< 8
    [α.char (chunk >>> 18 &&& 63), α.char (chunk >>> 12 &&& 63), α.char (chunk >>> 6 &&& 63)] ++
      if α = .base64 then ['='] else []
  | [b₀] =>
    let chunk := b₀.toNat <<< 16 ||| 0
    [α.char (chunk >>> 18 &&& 63), α.char (chunk >>> 12 &&& 63)] ++
      if α = .base64 then ['=', '='] else []
  | [] => []

/-- The text without the padding at its end. -/
def unpadded (input : List Char) : List Char :=
  if ['=', '='] <:+ input then input.take (input.length - 2)
  else if ['='] <:+ input then input.take (input.length - 1)
  else input

/-- A number as a signed integer of 32 bits, which the operands of a shift are. -/
def toInt32 (n : ℕ) : ℤ := if n % 2 ^ 32 < 2 ^ 31 then n % 2 ^ 32 else n % 2 ^ 32 - 2 ^ 32

/-- The array that is filled, with the indices that were read from the input and written to the
array. -/
structure DecodeState where
  bytes : List UInt8
  byteIndex : ℕ
  reads : List ℕ
  writes : List ℕ
  deriving DecidableEq

namespace DecodeState

/-- `bytes[byteIndex++] = byte`: an index after the array's end is ignored. -/
def write (st : DecodeState) (byte : ℕ) : DecodeState :=
  { st with
    bytes := st.bytes.set st.byteIndex (.ofNat byte)
    byteIndex := st.byteIndex + 1
    writes := st.writes ++ [st.byteIndex] }

def read (st : DecodeState) (i : ℕ) : DecodeState := { st with reads := st.reads ++ [i] }

end DecodeState

/-- The body of the loop, for the group of characters at `i`. -/
def decodeGroup (α : Base64Alphabet) (text : List Char) (st : DecodeState) (i : ℕ) : DecodeState :=
  let a := α.indexOf (text.getD i 'A')
  let b := α.indexOf (text.getD (i + 1) 'A')
  let c := if i + 2 < text.length then α.indexOf (text.getD (i + 2) 'A') else 0
  let d := if i + 3 < text.length then α.indexOf (text.getD (i + 3) 'A') else 0
  let st := (st.read i).read (i + 1)
  let st := if i + 2 < text.length then st.read (i + 2) else st
  let st := if i + 3 < text.length then st.read (i + 3) else st
  let st := st.write (a <<< 2 ||| b >>> 4)
  let st := if i + 2 < text.length then st.write ((b &&& 15) <<< 4 ||| c >>> 2) else st
  if i + 3 < text.length then st.write ((c &&& 3) <<< 6 ||| d) else st

/-- The loop from a state on, over the groups at `i`, `i + 4` and so on. -/
def decodeGroups (α : Base64Alphabet) (text : List Char) (i n : ℕ)
    (st : DecodeState) : DecodeState :=
  (List.range' i n 4).foldl (decodeGroup α text) st

def decodeRun (α : Base64Alphabet) (input : List Char) : Except CodecError DecodeState :=
  if !α.validInput input then
    .error (.identityCommon ⟨"Invalid " ++ α.name ++ " string: contains invalid characters"⟩)
  else
    let text := unpadded input
    -- a single trailing character can never encode a full byte
    if text.length % 4 = 1 then
      .error (.identityCommon ⟨"Invalid " ++ α.name ++ " string: invalid length"⟩)
    else
      let length := toInt32 (text.length * 3) >>> (2 : ℕ)
      if length < 0 then .error (.rangeError ("Invalid typed array length: " ++ toString length))
      else .ok (decodeGroups α text 0 ((text.length + 3) / 4)
        ⟨List.replicate length.toNat 0, 0, [], []⟩)

def decodeBase64 (α : Base64Alphabet) (input : List Char) : Except CodecError (List UInt8) :=
  (decodeRun α input).map (·.bytes)

/-! ## What the codec is for -/

/-- The text that encodes bytes: their bits, filled with zeros to groups of six, each as the
character of the alphabet at its value; in base64 with `=` up to a multiple of four characters. -/
def IsEncoding (α : Base64Alphabet) (bytes : List UInt8) (text : List Char) : Prop :=
  ∃ (sextets : List ℕ) (zeros pad : ℕ), (∀ x ∈ sextets, x < 64) ∧ zeros < 6 ∧
    bitsOf 6 sextets = bitsOf 8 (bytes.map UInt8.toNat) ++ List.replicate zeros false ∧
    text = sextets.map α.char ++ List.replicate pad '=' ∧ pad < 4 ∧
    match α with
    | .base64 => text.length % 4 = 0
    | .base64url => pad = 0

/-- How much padding a string to be decoded may have. -/
def PaddedWith (α : Base64Alphabet) (pad : ℕ) : Prop :=
  match α with
  | .base64 => pad ≤ 2
  | .base64url => pad = 0

/-- The strings that are to be decoded. -/
def Accepted (α : Base64Alphabet) (input : List Char) : Prop :=
  ∃ (text : List Char) (pad : ℕ), input = text ++ List.replicate pad '=' ∧
  (∀ c ∈ text, c ∈ α.chars) ∧
    PaddedWith α pad ∧ text.length % 4 ≠ 1

/-- Two strings that differ at most in their padding and in the last bits of the last character that
no byte has. -/
def SameButUnusedBits (α : Base64Alphabet) (input input' : List Char) : Prop :=
  unpadded input = unpadded input' ∨ ∃ (text : List Char) (c c' : Char),
    unpadded input = text ++ [c] ∧ unpadded input' = text ++ [c'] ∧
    α.indexOf c / 2 ^ (6 * (text.length + 1) % 8) = α.indexOf c' / 2 ^ (6 * (text.length + 1) % 8)

/-- The strings for which the shift that computes the array's length does not overflow. -/
def Fits (input : List Char) : Prop := (unpadded input).length * 3 < 2 ^ 31

/-- Decoding accepts what it is to accept, and touches nothing outside the input and the array. -/
def DecodesWithin (α : Base64Alphabet) (input : List Char) : Prop :=
  ((∃ st, decodeRun α input = .ok st) ↔ Accepted α input) ∧
    ∀ st, decodeRun α input = .ok st → (∀ i ∈ st.reads, i < input.length) ∧
    ∀ i ∈ st.writes, i < st.bytes.length

/-- The codec as it is to be: bytes are encoded as in the standard and decoded again, decoding
accepts what it is to accept and touches nothing outside, and strings with the same bytes are the
same but for what no byte has. -/
structure CodecHolds (α : Base64Alphabet) (bytes : List UInt8)
    (input input' : List Char) : Prop where
  encoding : IsEncoding α bytes (encodeBase64 α bytes)
  roundTrip : decodeBase64 α (encodeBase64 α bytes) = .ok bytes
  within : DecodesWithin α input
  within' : DecodesWithin α input'
  same : ∀ decoded, decodeBase64 α input = .ok decoded → decodeBase64 α input' = .ok decoded →
    SameButUnusedBits α input input'

/-! ## The bits of a group -/

theorem bits_add_six (k n : ℕ) : bits (k + 6) n = bits k (n >>> 6) ++ bits 6 (n &&& 63) := by
  rw [bits_add, Base64url.and_63, Nat.shiftRight_eq_div_pow, show (64 : ℕ) = 2 ^ 6 from rfl,
    bits_mod le_rfl]

/-- Four characters for three bytes. -/
theorem bits_sextets_four (n : ℕ) :
    bits 24 n = bitsOf 6 [n >>> 18 &&& 63, n >>> 12 &&& 63, n >>> 6 &&& 63, n &&& 63] := by
  have h₁ : n >>> 6 >>> 6 = n >>> 12 := (Nat.shiftRight_add n 6 6).symm
  have h₂ : n >>> 12 >>> 6 = n >>> 18 := (Nat.shiftRight_add n 12 6).symm
  have h₃ := bits_add_six 0 (n >>> 18)
  rw [bits_add_six 18, bits_add_six 12, bits_add_six 6, h₁, h₂]
  rw [zero_add] at h₃
  rw [h₃]
  simp [bitsOf, bits]

/-- The bits of a number that is put together from two, written with the operators of the source. -/
theorem bits_shift_or (k : ℕ) {l b : ℕ} (h : b < 2 ^ l) (a : ℕ) :
    bits (k + l) (a <<< l ||| b) = bits k a ++ bits l b := by
  rw [Base64url.or_eq_add h, bits_mul_add k h]

theorem bits_chunk (b₀ : ℕ) {b₁ b₂ : ℕ} (h₁ : b₁ < 256) (h₂ : b₂ < 256) :
    bits 24 (b₀ <<< 16 ||| b₁ <<< 8 ||| b₂) = bitsOf 8 [b₀, b₁, b₂] := by
  have hfirst := bits_mul_add 8 (l := 8) h₁ b₀
  have hall := bits_mul_add 16 (l := 8) h₂ (b₀ * 2 ^ 8 + b₁)
  rw [Base64url.chunk_eq h₁ h₂]
  rw [hfirst] at hall
  refine hall.trans ?_
  simp [bitsOf]

/-! ## Encoding -/

/-- The values of the characters that encode bytes. -/
def sextets : List UInt8 → List ℕ
  | b₀ :: b₁ :: b₂ :: bytes =>
    let chunk := b₀.toNat <<< 16 ||| b₁.toNat <<< 8 ||| b₂.toNat
    (chunk >>> 18 &&& 63) :: (chunk >>> 12 &&& 63) :: (chunk >>> 6 &&& 63) ::
    (chunk &&& 63) :: sextets bytes
  | [b₀, b₁] =>
    let chunk := b₀.toNat <<< 16 ||| b₁.toNat <<< 8
    [chunk >>> 18 &&& 63, chunk >>> 12 &&& 63, chunk >>> 6 &&& 63]
  | [b₀] =>
    let chunk := b₀.toNat <<< 16 ||| 0
    [chunk >>> 18 &&& 63, chunk >>> 12 &&& 63]
  | [] => []

def padding (α : Base64Alphabet) (length : ℕ) : ℕ := if α = .base64 then (3 - length % 3) % 3 else 0

theorem encodeBase64_eq (α : Base64Alphabet) (bytes : List UInt8) :
    encodeBase64 α bytes = (sextets bytes).map α.char ++
    List.replicate (padding α bytes.length) '=' := by
  induction bytes using sextets.induct with
  | case1 b₀ b₁ b₂ bytes ih =>
    have hpad : padding α (bytes.length + 3) = padding α bytes.length := by simp [padding]
    simp only [encodeBase64, sextets, ih, List.map_cons, List.length_cons, List.cons_append, hpad]
  | case2 b₀ b₁ => cases α <;> rfl
  | case3 b₀ => cases α <;> rfl
  | case4 => cases α <;> rfl

theorem sextets_lt (bytes : List UInt8) : ∀ x ∈ sextets bytes, x < 64 := by
  have hand : ∀ n : ℕ, n &&& 63 < 64 := fun n => by
    rw [Base64url.and_63]
    exact Nat.mod_lt _ (by decide)
  induction bytes using sextets.induct with
  | case1 b₀ b₁ b₂ bytes ih =>
    simp only [sextets, List.forall_mem_cons]
    exact ⟨hand _, hand _, hand _, hand _, ih⟩
  | case2 b₀ b₁ =>
    simp only [sextets, List.forall_mem_cons]
    exact ⟨hand _, hand _, hand _, nofun⟩
  | case3 b₀ =>
    simp only [sextets, List.forall_mem_cons]
    exact ⟨hand _, hand _, nofun⟩
  | case4 => exact nofun

/-- The zeros after the bits of the bytes. -/
def zerosAfter (length : ℕ) : ℕ := length % 3 * 4 % 6

theorem bitsOf_sextets (bytes : List UInt8) :
    bitsOf 6 (sextets bytes) = bitsOf 8 (bytes.map UInt8.toNat) ++
    List.replicate (zerosAfter bytes.length) false := by
  induction bytes using sextets.induct with
  | case1 b₀ b₁ b₂ bytes ih =>
    have hzeros : zerosAfter (bytes.length + 3) = zerosAfter bytes.length := by simp [zerosAfter]
    have hgroup := (bits_sextets_four _).symm.trans (bits_chunk b₀.toNat b₁.toNat_lt b₂.toNat_lt)
    simp only [sextets, List.map_cons, List.length_cons, hzeros]
    have hsextets := fun a b c d => bitsOf_append 6 [a, b, c, d] (sextets bytes)
    have hbytes := bitsOf_append 8 [b₀.toNat, b₁.toNat, b₂.toNat] (bytes.map UInt8.toNat)
    simp only [List.cons_append, List.nil_append] at hsextets hbytes
    rw [hsextets, hbytes, ih, hgroup, List.append_assoc]
  | case2 b₀ b₁ =>
    -- the group with a third byte that is zero, without its last character
    have hgroup := (bits_sextets_four _).symm.trans
      (bits_chunk b₀.toNat b₁.toNat_lt (by decide : 0 < 256))
    rw [Nat.or_zero] at hgroup
    have htake := congrArg (List.take (6 * 3)) hgroup
    rw [take_bitsOf] at htake
    refine htake.trans ?_
    simp [bitsOf, bits, zerosAfter]
  | case3 b₀ =>
    have hgroup := (bits_sextets_four _).symm.trans
      (bits_chunk b₀.toNat (by decide : 0 < 256) (by decide : 0 < 256))
    rw [Nat.or_zero, Nat.zero_shiftLeft] at hgroup
    have htake := congrArg (List.take (6 * 2)) hgroup
    rw [take_bitsOf] at htake
    refine htake.trans ?_
    simp [bitsOf, bits, zerosAfter]
  | case4 => rfl

theorem length_sextets (bytes : List UInt8) :
    6 * (sextets bytes).length = 8 * bytes.length + zerosAfter bytes.length := by
  have h := congrArg List.length (bitsOf_sextets bytes)
  rwa [length_bitsOf, List.length_append, length_bitsOf, List.length_map,
    List.length_replicate] at h

/-- The text is the encoding of the bytes. -/
theorem isEncoding_encodeBase64 (α : Base64Alphabet) (bytes : List UInt8) :
    IsEncoding α bytes (encodeBase64 α bytes) := by
  have hlength := length_sextets bytes
  have hzeros : zerosAfter bytes.length = bytes.length % 3 * 4 % 6 := rfl
  refine ⟨sextets bytes, zerosAfter bytes.length, padding α bytes.length,
    sextets_lt bytes, by omega, bitsOf_sextets bytes, encodeBase64_eq α bytes, ?_, ?_⟩
  · unfold padding
    split <;> omega
  · cases α
    case base64 =>
      have hpad : padding .base64 bytes.length = (3 - bytes.length % 3) % 3 := rfl
      rw [encodeBase64_eq, List.length_append, List.length_map, List.length_replicate, hpad]
      have hmod := Nat.mod_lt bytes.length (by decide : 0 < 3)
      interval_cases hr : bytes.length % 3 <;> omega
    case base64url => rfl

/-! ## Decoding -/

/-- The bytes that groups of four sextets make up. -/
def regroup : List ℕ → List ℕ
  | a :: b :: c :: d :: l =>
    (a <<< 2 ||| b >>> 4) :: ((b &&& 15) <<< 4 ||| c >>> 2) :: ((c &&& 3) <<< 6 ||| d) :: regroup l
  | [a, b, c] => [a <<< 2 ||| b >>> 4, (b &&& 15) <<< 4 ||| c >>> 2]
  | [a, b] => [a <<< 2 ||| b >>> 4]
  | _ => []

theorem length_regroup (l : List ℕ) : (regroup l).length = l.length * 3 / 4 := by
  induction l using regroup.induct with
  | case1 a b c d l ih =>
    simp only [regroup, List.length_cons, ih]
    omega
  | case2 a b c => simp [regroup]
  | case3 a b => simp [regroup]
  | case4 l h₁ h₂ h₃ =>
    match l with
    | [] => rfl
    | [a] => simp [regroup]
    | [a, b] => exact absurd rfl (h₃ a b)
    | [a, b, c] => exact absurd rfl (h₂ a b c)
    | a :: b :: c :: d :: l => exact absurd rfl (h₁ a b c d l)

theorem bits_first (a : ℕ) {b : ℕ} (h : b < 64) :
    bits 8 (a <<< 2 ||| b >>> 4) = bits 6 a ++ bits 2 (b >>> 4) := by
  refine bits_shift_or 6 (l := 2) ?_ a
  rw [Nat.shiftRight_eq_div_pow]
  omega

theorem bits_second (b : ℕ) {c : ℕ} (h : c < 64) :
    bits 8 ((b &&& 15) <<< 4 ||| c >>> 2) = bits 4 b ++ bits 4 (c >>> 2) := by
  have hc : c >>> 2 < 2 ^ 4 := by
    rw [Nat.shiftRight_eq_div_pow]
    omega
  have hb : bits 4 (b &&& 15) = bits 4 b := by
    rw [show (15 : ℕ) = 2 ^ 4 - 1 from rfl, Base64url.and_eq_mod, bits_mod le_rfl]
  exact (bits_shift_or 4 hc _).trans (by rw [hb])

theorem bits_third (c : ℕ) {d : ℕ} (h : d < 64) :
    bits 8 ((c &&& 3) <<< 6 ||| d) = bits 2 c ++ bits 6 d := by
  have hc : bits 2 (c &&& 3) = bits 2 c := by
    rw [show (3 : ℕ) = 2 ^ 2 - 1 from rfl, Base64url.and_eq_mod, bits_mod le_rfl]
  exact (bits_shift_or 2 (l := 6) h _).trans (by rw [hc])

/-- The bits of the bytes are those of the sextets, as far as they make up bytes. -/
theorem bitsOf_regroup {l : List ℕ} (h : ∀ x ∈ l, x < 64) :
    bitsOf 8 (regroup l) = (bitsOf 6 l).take (8 * (l.length * 3 / 4)) := by
  have hsplit : ∀ (k m n : ℕ), bits (k + m) n = bits k (n >>> m) ++ bits m n := fun k m n => by
    rw [bits_add, Nat.shiftRight_eq_div_pow]
  induction l using regroup.induct with
  | case1 a b c d l ih =>
    simp only [List.forall_mem_cons] at h
    obtain ⟨ha, hb, hc, hd, hl⟩ := h
    have hlen : 8 * ((a :: b :: c :: d :: l).length * 3 / 4) = 6 * 4 + 8 * (l.length * 3 / 4) := by
      simp only [List.length_cons]
      omega
    have happend := bitsOf_append 6 [a, b, c, d] l
    have hgroup : bitsOf 8 [a <<< 2 ||| b >>> 4, (b &&& 15) <<< 4 ||| c >>> 2,
        (c &&& 3) <<< 6 ||| d] =
        bitsOf 6 [a, b, c, d] := by
      have hb' := hsplit 2 4 b
      have hc' := hsplit 4 2 c
      simp only [Nat.reduceAdd] at hb' hc'
      simp only [bitsOf_cons, bitsOf_nil, bits_first a hb, bits_second b hc,
        bits_third c hd, hb', hc', List.append_assoc]
    have hbytes := bitsOf_append 8
      [a <<< 2 ||| b >>> 4, (b &&& 15) <<< 4 ||| c >>> 2, (c &&& 3) <<< 6 ||| d] (regroup l)
    simp only [List.cons_append, List.nil_append] at happend hbytes
    have hfour : (bitsOf 6 [a, b, c, d]).length = 6 * 4 := length_bitsOf 6 _
    rw [regroup, hbytes, hgroup, ih hl, happend, hlen, List.take_append, hfour,
      Nat.add_sub_cancel_left, List.take_of_length_le (l := bitsOf 6 [a, b, c, d])
        (by rw [hfour]; exact Nat.le_add_right _ _)]
  | case2 a b c =>
    simp only [List.forall_mem_cons] at h
    obtain ⟨ha, hb, hc, -⟩ := h
    have hb' := hsplit 2 4 b
    have hc' := hsplit 4 2 c
    simp only [Nat.reduceAdd] at hb' hc'
    simp only [regroup, bitsOf_cons, bitsOf_nil, bits_first a hb, bits_second b hc, hb', hc']
    simp [bits]
  | case3 a b =>
    simp only [List.forall_mem_cons] at h
    obtain ⟨ha, hb, -⟩ := h
    have hb' := hsplit 2 4 b
    simp only [Nat.reduceAdd] at hb'
    simp only [regroup, bitsOf_cons, bitsOf_nil, bits_first a hb, hb']
    simp [bits]
  | case4 l h₁ h₂ h₃ =>
    rcases l with - | ⟨a, - | ⟨b, - | ⟨c, - | ⟨d, l⟩⟩⟩⟩
    · rfl
    · simp [regroup]
    · exact absurd rfl (h₃ a b)
    · exact absurd rfl (h₂ a b c)
    · exact absurd rfl (h₁ a b c d l)

namespace DecodeState

@[simp] theorem write_bytes_length (st : DecodeState) (byte : ℕ) :
    (st.write byte).bytes.length = st.bytes.length :=
  List.length_set

/-- The bytes that are written one after the other. -/
def writeAll (st : DecodeState) (bytes : List ℕ) : DecodeState := bytes.foldl write st

theorem writeAll_cons (st : DecodeState) (byte : ℕ) (bytes : List ℕ) :
    st.writeAll (byte :: bytes) = (st.write byte).writeAll bytes := rfl

theorem writeAll_reads (st : DecodeState) (bytes : List ℕ) :
    (st.writeAll bytes).reads = st.reads := by
  induction bytes generalizing st with
  | nil => rfl
  | cons byte bytes ih => rw [writeAll_cons, ih, write]

theorem writeAll_writes (st : DecodeState) (bytes : List ℕ) :
    (st.writeAll bytes).writes = st.writes ++ List.range' st.byteIndex bytes.length := by
  induction bytes generalizing st with
  | nil => exact (List.append_nil _).symm
  | cons byte bytes ih =>
      rw [writeAll_cons, ih, List.length_cons, List.range'_succ, write, List.append_assoc,
      List.singleton_append]

theorem length_writeAll (st : DecodeState) (bytes : List ℕ) :
    (st.writeAll bytes).bytes.length = st.bytes.length := by
  induction bytes generalizing st with
  | nil => rfl
  | cons byte bytes ih => rw [writeAll_cons, ih, write_bytes_length]

/-- Bytes that are written over as many that are left in the array. -/
theorem writeAll_bytes {st : DecodeState} (done : List UInt8) {left : List UInt8} (bytes : List ℕ)
    (hbytes : st.bytes = done ++ left) (hindex : st.byteIndex = done.length)
    (hleft : left.length = bytes.length) :
    (st.writeAll bytes).bytes = done ++ bytes.map UInt8.ofNat := by
  induction bytes generalizing st done left with
  | nil =>
    rw [List.length_eq_zero_iff.mp hleft] at hbytes
    exact hbytes
  | cons byte bytes ih =>
    obtain ⟨old, left, rfl⟩ := List.exists_cons_of_length_eq_add_one hleft
    have hset : (st.write byte).bytes = (done ++ [.ofNat byte]) ++ left := by
      rw [write, hbytes, hindex, List.set_append_right _ _ le_rfl, Nat.sub_self, List.set_cons_zero,
        List.append_assoc, List.singleton_append]
    have hnext : (st.write byte).byteIndex = (done ++ [UInt8.ofNat byte]).length := by
      rw [write, hindex, List.length_append, List.length_singleton]
    rw [writeAll_cons, ih _ hset hnext (Nat.succ.inj hleft), List.map_cons, List.append_assoc,
      List.singleton_append]

/-- The characters that are read one after the other. -/
def readAll (st : DecodeState) (start n : ℕ) : DecodeState :=
  { st with reads := st.reads ++ List.range' start n }

theorem readAll_readAll (st : DecodeState) (start n m : ℕ) :
    (st.readAll start n).readAll (start + n) m = st.readAll start (m + n) := by
  rw [readAll, readAll, readAll, List.append_assoc, List.range'_append_1, add_comm n m]

theorem readAll_writeAll (st : DecodeState) (bytes : List ℕ) (start n : ℕ) :
    (st.writeAll bytes).readAll start n = (st.readAll start n).writeAll bytes := by
  induction bytes generalizing st with
  | nil => rfl
  | cons byte bytes ih => exact ih (st.write byte)

theorem writeAll_append (st : DecodeState) (bytes bytes' : List ℕ) :
    (st.writeAll bytes).writeAll bytes' = st.writeAll (bytes ++ bytes') := (List.foldl_append).symm

end DecodeState

/-- A whole group: three bytes of four characters. -/
theorem decodeGroup_four (α : Base64Alphabet) (pre : List Char) (a b c d : Char) (rest : List Char)
    (st : DecodeState) :
    decodeGroup α (pre ++ a :: b :: c :: d :: rest) st pre.length =
      (st.readAll pre.length 4).writeAll
      (regroup [α.indexOf a, α.indexOf b, α.indexOf c, α.indexOf d]) := by
  simp [decodeGroup, DecodeState.readAll, DecodeState.writeAll, DecodeState.read,
    DecodeState.write, regroup, List.range'_succ]

theorem decodeGroup_three (α : Base64Alphabet) (pre : List Char) (a b c : Char) (st : DecodeState) :
    decodeGroup α (pre ++ [a, b, c]) st pre.length = (st.readAll pre.length 3).writeAll
      (regroup [α.indexOf a, α.indexOf b, α.indexOf c]) := by
  simp [decodeGroup, DecodeState.readAll, DecodeState.writeAll, DecodeState.read,
    DecodeState.write, regroup, List.range'_succ]

theorem decodeGroup_two (α : Base64Alphabet) (pre : List Char) (a b : Char) (st : DecodeState) :
    decodeGroup α (pre ++ [a, b]) st pre.length = (st.readAll pre.length 2).writeAll
      (regroup [α.indexOf a, α.indexOf b]) := by
  simp [decodeGroup, DecodeState.readAll, DecodeState.writeAll, DecodeState.read,
    DecodeState.write, regroup, List.range'_succ]

/-- The loop reads the rest of the text and writes the bytes that it makes up. -/
theorem decodeGroups_append (α : Base64Alphabet) :
    ∀ (pre rest : List Char) (st : DecodeState), rest.length % 4 ≠ 1 →
    decodeGroups α (pre ++ rest) pre.length ((rest.length + 3) / 4) st =
      (st.readAll pre.length rest.length).writeAll (regroup (rest.map α.indexOf))
  | pre, a :: b :: c :: d :: rest, st, h => by
    have hnext : rest.length % 4 ≠ 1 := by
      simp only [List.length_cons] at h
      omega
    have ih := decodeGroups_append α (pre ++ [a, b, c, d]) rest
      (decodeGroup α (pre ++ a :: b :: c :: d :: rest) st pre.length) hnext
    have hn : ((a :: b :: c :: d :: rest).length + 3) / 4 = (rest.length + 3) / 4 + 1 := by
      simp only [List.length_cons]
      omega
    rw [List.append_assoc, List.length_append] at ih
    rw [hn, decodeGroups, List.range'_succ, List.foldl_cons]
    refine ih.trans ?_
    rw [decodeGroup_four, DecodeState.readAll_writeAll, DecodeState.writeAll_append,
      List.length_cons, List.length_cons]
    exact congrArg₂ DecodeState.writeAll (st.readAll_readAll pre.length 4 rest.length) rfl
  | pre, [a, b, c], st, _ => by
    have hn : ([a, b, c].length + 3) / 4 = 1 := by simp
    rw [hn]
    exact decodeGroup_three α pre a b c st
  | pre, [a, b], st, _ => by
    have hn : ([a, b].length + 3) / 4 = 1 := by simp
    rw [hn]
    exact decodeGroup_two α pre a b st
  | pre, [a], st, h => absurd rfl h
  | pre, [], st, _ => by
    rw [List.append_nil]
    simp [decodeGroups, DecodeState.readAll, DecodeState.writeAll, regroup]

namespace Base64Alphabet

theorem length_chars (α : Base64Alphabet) : α.chars.length = 64 := by cases α <;> rfl

theorem nodup_chars (α : Base64Alphabet) : α.chars.Nodup := by cases α <;> decide +kernel

theorem char_eq (α : Base64Alphabet) {n : ℕ} (h : n < 64) :
    α.char n = α.chars.get ⟨n, α.length_chars.symm ▸ h⟩ :=
  List.getD_eq_getElem _ _ _

theorem indexOf_char (α : Base64Alphabet) (n : ℕ) (h : n < 64) : α.indexOf (α.char n) = n := by
  rw [α.char_eq h]
  exact List.Nodup.idxOf_getElem α.nodup_chars n _

theorem char_mem (α : Base64Alphabet) (n : ℕ) (h : n < 64) : α.char n ∈ α.chars := by
  rw [α.char_eq h]
  exact List.get_mem _ _

theorem indexOf_lt {α : Base64Alphabet} {c : Char} (h : c ∈ α.chars) : α.indexOf c < 64 := by
  have := List.idxOf_lt_length_of_mem h
  rwa [length_chars] at this

theorem char_indexOf {α : Base64Alphabet} {c : Char} (h : c ∈ α.chars) :
    α.char (α.indexOf c) = c := by
  rw [char, indexOf, List.getD_eq_getElem _ _ (List.idxOf_lt_length_of_mem h)]
  exact List.getElem_idxOf _

theorem eq_not_mem (α : Base64Alphabet) : '=' ∉ α.chars := by cases α <;> decide +kernel

/-- The class of the expression has the characters of the alphabet. -/
theorem inClass_iff (α : Base64Alphabet) (c : Char) : α.inClass c = true ↔ c ∈ α.chars := by
  have hsmall : ∀ n < 128, α.inClass (Char.ofNat n) = decide (Char.ofNat n ∈ α.chars) := by
    cases α <;> decide +kernel
  by_cases h : c.toNat < 128
  · have hc := hsmall c.toNat h
    rw [Char.ofNat_toNat] at hc
    rw [hc, decide_eq_true_iff]
  · have hall : α.chars.all (fun d => d.toNat < 128) = true := by
      cases α <;> decide +kernel
    have hchars : ∀ d ∈ α.chars, d.toNat < 128 := fun d hd =>
      of_decide_eq_true (List.all_eq_true.mp hall d hd)
    have hle : ∀ d : Char, d.toNat < 128 → c ≤ d → False := fun d hd hcd =>
      h (lt_of_le_of_lt (UInt32.le_iff_toNat_le.mp hcd) hd)
    have heq : ∀ d : Char, d.toNat < 128 → c = d → False := fun d hd hcd => h (hcd ▸ hd)
    refine ⟨fun hc => ?_, fun hc => absurd (hchars c hc) h⟩
    cases α <;> simp only [inClass, Bool.or_eq_true, Bool.and_eq_true,
      decide_eq_true_eq, beq_iff_eq] at hc
    case base64 =>
      rcases hc with ((⟨-, hc⟩ | ⟨-, hc⟩) | ⟨-, hc⟩) | hc | hc
      · exact (hle 'Z' (by decide) hc).elim
      · exact (hle 'z' (by decide) hc).elim
      · exact (hle '9' (by decide) hc).elim
      · exact (heq '+' (by decide) hc).elim
      · exact (heq '/' (by decide) hc).elim
    case base64url =>
      rcases hc with ((⟨-, hc⟩ | ⟨-, hc⟩) | ⟨-, hc⟩) | hc | hc
      · exact (hle 'Z' (by decide) hc).elim
      · exact (hle 'z' (by decide) hc).elim
      · exact (hle '9' (by decide) hc).elim
      · exact (heq '_' (by decide) hc).elim
      · exact (heq '-' (by decide) hc).elim

end Base64Alphabet

theorem PaddedWith.le_two {α : Base64Alphabet} {pad : ℕ} (h : PaddedWith α pad) : pad ≤ 2 := by
  cases α
  case base64 => exact h
  case base64url => exact h.le.trans (by decide)

theorem validInput_iff (α : Base64Alphabet) (input : List Char) : α.validInput input = true ↔
    ∃ (text : List Char) (pad : ℕ), input = text ++ List.replicate pad '=' ∧
    (∀ c ∈ text, c ∈ α.chars) ∧
      PaddedWith α pad := by
  constructor
  · intro h
    have htext : ∀ c ∈ input.takeWhile α.inClass, c ∈ α.chars := fun c hc =>
      (α.inClass_iff c).mp (List.all_eq_true.mp List.all_takeWhile c hc)
    have hsplit := (List.takeWhile_append_dropWhile (p := α.inClass) (l := input)).symm
    cases α
    case base64 =>
      simp only [Base64Alphabet.validInput, Bool.and_eq_true, List.all_eq_true, beq_iff_eq,
        decide_eq_true_eq] at h
      refine ⟨_, _, ?_, htext, h.2⟩
      rwa [← List.eq_replicate_iff.mpr ⟨rfl, h.1⟩]
    case base64url =>
      simp only [Base64Alphabet.validInput, List.isEmpty_iff] at h
      refine ⟨_, 0, ?_, htext, rfl⟩
      rwa [h] at hsplit
  · rintro ⟨text, pad, rfl, htext, hpad⟩
    have hdrop : (text ++ List.replicate pad '=').dropWhile α.inClass = List.replicate pad '=' := by
      rw [List.dropWhile_append_of_pos fun c hc => (α.inClass_iff c).mpr (htext c hc)]
      cases pad with
      | zero => rfl
      | succ pad =>
        have heq : ¬ α.inClass '=' = true := fun h => α.eq_not_mem ((α.inClass_iff '=').mp h)
        rw [List.replicate_succ, List.dropWhile_cons_of_neg heq]
    cases α
    case base64 =>
      simp only [Base64Alphabet.validInput, hdrop, List.length_replicate, Bool.and_eq_true,
        decide_eq_true_eq]
      exact ⟨by simp, hpad⟩
    case base64url =>
      obtain rfl : pad = 0 := hpad
      simp only [Base64Alphabet.validInput]
      rw [hdrop]
      rfl

/-- What is left without the padding. -/
theorem unpadded_append {text : List Char} {pad : ℕ} (h : '=' ∉ text) (hpad : pad ≤ 2) :
    unpadded (text ++ List.replicate pad '=') = text := by
  have hone : ¬ ['='] <:+ text := fun ⟨t, ht⟩ => h (ht ▸ by simp)
  have htwo : ¬ ['=', '='] <:+ text := fun ⟨t, ht⟩ => h (ht ▸ by simp)
  match pad, hpad with
  | 0, _ => rw [List.replicate_zero, List.append_nil, unpadded, if_neg htwo, if_neg hone]
  | 1, _ =>
    have hsuffix : ¬ ['=', '='] <:+ text ++ ['='] := fun hs =>
      hone (List.suffix_append_self_iff.mp (show ['='] ++ ['='] <:+ text ++ ['='] from hs))
    rw [List.replicate_one, unpadded, if_neg hsuffix, if_pos (List.suffix_append _ _),
      List.length_append, List.length_singleton, Nat.add_sub_cancel, List.take_left' rfl]
  | 2, _ =>
    rw [show List.replicate 2 '=' = ['=', '='] from rfl, unpadded, if_pos (List.suffix_append _ _),
      List.length_append]
    exact List.take_left' (by simp)

theorem shift_toInt32_lt (n : ℕ) : toInt32 n >>> (2 : ℕ) < 2 ^ 29 := by
  unfold toInt32
  rw [Int.shiftRight_eq_div_pow]
  split <;> omega

theorem shift_toInt32 {n : ℕ} (h : n < 2 ^ 31) : toInt32 n >>> (2 : ℕ) = ((n / 4 : ℕ) : ℤ) := by
  unfold toInt32
  rw [Int.shiftRight_eq_div_pow]
  split <;> omega

/-- The state in which a text is decoded to the end, from an array of a length. -/
def decodedState (α : Base64Alphabet) (text : List Char) (length : ℕ) : DecodeState :=
  ((⟨List.replicate length 0, 0, [], []⟩ : DecodeState).readAll 0 text.length).writeAll
    (regroup (text.map α.indexOf))

theorem decodeGroups_unpadded (α : Base64Alphabet) {input : List Char}
    (h : (unpadded input).length % 4 ≠ 1) (length : ℕ) :
    decodeGroups α (unpadded input) 0 (((unpadded input).length + 3) / 4)
      ⟨List.replicate length 0, 0, [], []⟩ =
      decodedState α (unpadded input) length :=
  decodeGroups_append α [] (unpadded input) _ h

theorem decodeRun_of_accepted {α : Base64Alphabet} {input : List Char} (h : Accepted α input) :
    decodeRun α input =
      let length := toInt32 ((unpadded input).length * 3) >>> (2 : ℕ)
      if length < 0 then .error (.rangeError ("Invalid typed array length: " ++ toString length))
      else .ok (decodedState α (unpadded input) length.toNat) := by
  obtain ⟨text, pad, hinput, htext, hpad, hlen⟩ := h
  have htext' : unpadded input = text := by
    rw [hinput, unpadded_append (fun hmem => α.eq_not_mem (htext _ hmem)) hpad.le_two]
  have hvalid := (validInput_iff α input).mpr ⟨text, pad, hinput, htext, hpad⟩
  have hlen' : (unpadded input).length % 4 ≠ 1 := htext' ▸ hlen
  unfold decodeRun
  dsimp only
  rw [hvalid, if_neg (by decide), if_neg hlen', decodeGroups_unpadded α hlen']

theorem accepted_of_decodeRun {α : Base64Alphabet} {input : List Char} {st : DecodeState}
    (h : decodeRun α input = .ok st) : Accepted α input := by
  unfold decodeRun at h
  dsimp only at h
  split_ifs at h with hvalid hlen
  rw [Bool.not_eq_true, Bool.not_eq_false'] at hvalid
  obtain ⟨text, pad, rfl, htext, hpad⟩ := (validInput_iff α input).mp hvalid
  rw [unpadded_append (fun hmem => α.eq_not_mem (htext _ hmem)) hpad.le_two] at hlen
  exact ⟨text, pad, rfl, htext, hpad, hlen⟩

theorem decodeRun_eq_ok {α : Base64Alphabet} {input : List Char} {st : DecodeState} :
    decodeRun α input = .ok st ↔ Accepted α input ∧
    (0 : ℤ) ≤ toInt32 ((unpadded input).length * 3) >>> (2 : ℕ) ∧
      st = decodedState α (unpadded input)
        (toInt32 ((unpadded input).length * 3) >>> (2 : ℕ)).toNat := by
  constructor
  · intro h
    have haccepted := accepted_of_decodeRun h
    rw [decodeRun_of_accepted haccepted] at h
    dsimp only at h
    split_ifs at h with hneg
    cases h
    exact ⟨haccepted, Int.not_lt.mp hneg, rfl⟩
  · rintro ⟨haccepted, hneg, rfl⟩
    rw [decodeRun_of_accepted haccepted]
    exact if_neg (Int.not_lt.mpr hneg)

theorem Accepted.text {α : Base64Alphabet} {input : List Char} (h : Accepted α input) :
    (∀ c ∈ unpadded input, c ∈ α.chars) ∧ (unpadded input).length % 4 ≠ 1 ∧
    (unpadded input).length ≤ input.length := by
  obtain ⟨text, pad, rfl, htext, hpad, hlen⟩ := h
  rw [unpadded_append (fun hmem => α.eq_not_mem (htext _ hmem)) hpad.le_two, List.length_append]
  exact ⟨htext, hlen, Nat.le_add_right _ _⟩

section decodedState

variable {α : Base64Alphabet} (text : List Char) (length : ℕ)

theorem length_bytes_decodedState : (decodedState α text length).bytes.length = length := by
  rw [decodedState, DecodeState.length_writeAll]
  exact List.length_replicate

theorem reads_decodedState : (decodedState α text length).reads = List.range' 0 text.length := by
  rw [decodedState, DecodeState.writeAll_reads]
  rfl

theorem writes_decodedState :
    (decodedState α text length).writes = List.range' 0 (text.length * 3 / 4) := by
  rw [decodedState, DecodeState.writeAll_writes, length_regroup, List.length_map]
  rfl

theorem bytes_decodedState : (decodedState α text (text.length * 3 / 4)).bytes =
    (regroup (text.map α.indexOf)).map UInt8.ofNat := by
  refine DecodeState.writeAll_bytes [] _ rfl rfl ?_
  rw [List.length_replicate, length_regroup, List.length_map]

end decodedState

/-- Decoding, for the strings for which the array's length does not overflow. -/
theorem decodeRun_eq_ok_of_fits {α : Base64Alphabet} {input : List Char} (hfits : Fits input)
    {st : DecodeState} :
    decodeRun α input = .ok st ↔ Accepted α input ∧
      st = decodedState α (unpadded input) ((unpadded input).length * 3 / 4) := by
  rw [decodeRun_eq_ok, shift_toInt32 hfits, Int.toNat_natCast]
  exact and_congr_right fun _ => ⟨fun h => h.2, fun h => ⟨Int.natCast_nonneg _, h⟩⟩

/-- Where the length overflows, the array is too short for the bytes. -/
theorem length_lt_of_not_fits {α : Base64Alphabet} {input : List Char} (hfits : ¬ Fits input)
    {st : DecodeState} (h : decodeRun α input = .ok st) :
    st.bytes.length < (unpadded input).length * 3 / 4 := by
  obtain ⟨-, hneg, rfl⟩ := decodeRun_eq_ok.mp h
  have hlt := shift_toInt32_lt ((unpadded input).length * 3)
  rw [length_bytes_decodedState]
  unfold Fits at hfits
  omega

theorem decodesWithin_iff (α : Base64Alphabet) (input : List Char) :
    DecodesWithin α input ↔ (Accepted α input → Fits input) := by
  constructor
  · rintro ⟨haccepts, hwithin⟩ haccepted
    by_contra hfits
    obtain ⟨st, hst⟩ := haccepts.mpr haccepted
    have hshort := length_lt_of_not_fits hfits hst
    obtain ⟨-, -, rfl⟩ := decodeRun_eq_ok.mp hst
    -- the last byte is written outside the array
    have hwrite := (hwithin _ hst).2 ((unpadded input).length * 3 / 4 - 1) (by
      rw [writes_decodedState, List.mem_range'_1]
      omega)
    omega
  · intro h
    refine ⟨⟨fun ⟨st, hst⟩ => accepted_of_decodeRun hst, fun haccepted =>
      ⟨_, (decodeRun_eq_ok_of_fits (h haccepted)).mpr ⟨haccepted, rfl⟩⟩⟩, fun st hst => ?_⟩
    have haccepted := accepted_of_decodeRun hst
    obtain ⟨-, rfl⟩ := (decodeRun_eq_ok_of_fits (h haccepted)).mp hst
    rw [reads_decodedState, writes_decodedState, length_bytes_decodedState]
    refine ⟨fun i hi => ?_, fun i hi => ?_⟩
    · have := haccepted.text.2.2
      rw [List.mem_range'_1] at hi
      omega
    · rw [List.mem_range'_1] at hi
      omega

theorem decodeBase64_eq_ok {α : Base64Alphabet} {input : List Char} {bytes : List UInt8} :
    decodeBase64 α input = .ok bytes ↔ ∃ st, decodeRun α input = .ok st ∧ st.bytes = bytes := by
  unfold decodeBase64
  cases decodeRun α input with
  | error e => simp [Except.map]
  | ok st => simp [Except.map]

/-- The bits of the bytes that a text is decoded to. -/
theorem bitsOf_decodedState {α : Base64Alphabet} {text : List Char} (h : ∀ c ∈ text, c ∈ α.chars) :
    bitsOf 8 ((decodedState α text (text.length * 3 / 4)).bytes.map UInt8.toNat) =
      (bitsOf 6 (text.map α.indexOf)).take (8 * (text.length * 3 / 4)) := by
  have hlt : ∀ x ∈ text.map α.indexOf, x < 64 := by
    intro x hx
    obtain ⟨c, hc, rfl⟩ := List.mem_map.mp hx
    exact Base64Alphabet.indexOf_lt (h c hc)
  have hbyte : ∀ l : List ℕ, bitsOf 8 ((l.map UInt8.ofNat).map UInt8.toNat) = bitsOf 8 l := by
    intro l
    induction l with
    | nil => rfl
    | cons x l ih =>
      rw [List.map_cons, List.map_cons, bitsOf_cons, bitsOf_cons, ih, UInt8.toNat_ofNat',
        bits_mod le_rfl]
  have hregroup := bitsOf_regroup hlt
  rw [List.length_map] at hregroup
  rw [bytes_decodedState, hbyte, hregroup]

theorem bytes_eq_of_bits {bytes bytes' : List UInt8} (hlen : bytes.length = bytes'.length)
    (h : bitsOf 8 (bytes.map UInt8.toNat) = bitsOf 8 (bytes'.map UInt8.toNat)) :
    bytes = bytes' := by
  have hlt : ∀ (l : List UInt8), ∀ x ∈ l.map UInt8.toNat, x < 2 ^ 8 := by
    intro l x hx
    obtain ⟨byte, -, rfl⟩ := List.mem_map.mp hx
    exact byte.toNat_lt
  have hmap := eq_of_bitsOf (hlt bytes) (hlt bytes')
    (by rw [List.length_map, List.length_map, hlen]) h
  exact List.map_injective_iff.mpr (fun x y => UInt8.toNat_inj.mp) hmap

/-! ## The round trip -/

theorem unpadded_encodeBase64 (α : Base64Alphabet) (bytes : List UInt8) :
    Accepted α (encodeBase64 α bytes) ∧ unpadded (encodeBase64 α bytes) =
      (sextets bytes).map α.char := by
  have hchars : ∀ c ∈ (sextets bytes).map α.char, c ∈ α.chars := by
    intro c hc
    obtain ⟨x, hx, rfl⟩ := List.mem_map.mp hc
    exact α.char_mem x (sextets_lt bytes x hx)
  have hpad : PaddedWith α (padding α bytes.length) := by
    cases α
    case base64 =>
      show (3 - bytes.length % 3) % 3 ≤ 2
      omega
    case base64url => rfl
  have hlen := length_sextets bytes
  have hzeros : zerosAfter bytes.length = bytes.length % 3 * 4 % 6 := rfl
  rw [encodeBase64_eq]
  refine ⟨⟨_, _, rfl, hchars, hpad, ?_⟩,
    unpadded_append (fun h => α.eq_not_mem (hchars _ h)) hpad.le_two⟩
  rw [List.length_map]
  omega

/-- As many bytes as were encoded. -/
theorem length_unpadded_encodeBase64 (α : Base64Alphabet) (bytes : List UInt8) :
    (unpadded (encodeBase64 α bytes)).length * 3 / 4 = bytes.length := by
  have hlen := length_sextets bytes
  have hzeros : zerosAfter bytes.length = bytes.length % 3 * 4 % 6 := rfl
  rw [(unpadded_encodeBase64 α bytes).2, List.length_map]
  omega

/-- Decoding undoes encoding where the array's length does not overflow, and nowhere else. -/
theorem decodeBase64_encodeBase64_iff (α : Base64Alphabet) (bytes : List UInt8) :
    decodeBase64 α (encodeBase64 α bytes) = .ok bytes ↔ Fits (encodeBase64 α bytes) := by
  obtain ⟨haccepted, htext⟩ := unpadded_encodeBase64 α bytes
  have hlength := length_unpadded_encodeBase64 α bytes
  rw [decodeBase64_eq_ok]
  constructor
  · rintro ⟨st, hst, hbytes⟩
    by_contra hfits
    have hshort := length_lt_of_not_fits hfits hst
    rw [hlength, hbytes] at hshort
    exact lt_irrefl _ hshort
  · intro hfits
    refine ⟨_, (decodeRun_eq_ok_of_fits hfits).mpr ⟨haccepted, rfl⟩, ?_⟩
    have hbits := bitsOf_decodedState haccepted.text.1
    have hindex : (unpadded (encodeBase64 α bytes)).map α.indexOf = sextets bytes := by
      rw [htext, List.map_map]
      exact (List.map_congr_left fun x hx => α.indexOf_char x (sextets_lt bytes x hx)).trans
        (List.map_id _)
    refine bytes_eq_of_bits (by rw [length_bytes_decodedState, hlength]) ?_
    rw [hbits, hindex, hlength, bitsOf_sextets,
      List.take_left' (by rw [length_bitsOf, List.length_map])]

/-! ## Strings that are decoded to the same bytes -/

/-- The number of bytes gives the number of characters. -/
theorem length_eq_of_bytes {m n : ℕ} (hm : m % 4 ≠ 1) (hn : n % 4 ≠ 1)
    (h : m * 3 / 4 = n * 3 / 4) : m = n := by
  have hbytes : ∀ k : ℕ, k * 3 / 4 = k / 4 * 3 + k % 4 * 3 / 4 := fun k => by omega
  have hlast : ∀ r : ℕ, r < 4 → r ≠ 1 → r * 3 / 4 = r - 1 := by decide
  have hm' := hlast (m % 4) (Nat.mod_lt _ (by decide)) hm
  have hn' := hlast (n % 4) (Nat.mod_lt _ (by decide)) hn
  rw [hbytes m, hbytes n] at h
  omega

theorem map_indexOf_injective {α : Base64Alphabet} {text text' : List Char}
    (h : ∀ c ∈ text, c ∈ α.chars) (h' : ∀ c ∈ text', c ∈ α.chars)
    (hmap : text.map α.indexOf = text'.map α.indexOf) : text = text' := by
  have hback : ∀ t : List Char, (∀ c ∈ t, c ∈ α.chars) →
      (t.map α.indexOf).map α.char = t := fun t ht => by
    rw [List.map_map]
    exact (List.map_congr_left fun c hc => Base64Alphabet.char_indexOf (ht c hc)).trans
      (List.map_id _)
  rw [← hback text h, hmap, hback text' h']

theorem sameButUnusedBits_of_decodeBase64 {α : Base64Alphabet} {input input' : List Char}
    (hfits : Fits input) (hfits' : Fits input') {bytes : List UInt8}
    (h : decodeBase64 α input = .ok bytes) (h' : decodeBase64 α input' = .ok bytes) :
    SameButUnusedBits α input input' := by
  obtain ⟨st, hst, rfl⟩ := decodeBase64_eq_ok.mp h
  obtain ⟨st', hst', hbytes⟩ := decodeBase64_eq_ok.mp h'
  obtain ⟨haccepted, rfl⟩ := (decodeRun_eq_ok_of_fits hfits).mp hst
  obtain ⟨haccepted', rfl⟩ := (decodeRun_eq_ok_of_fits hfits').mp hst'
  obtain ⟨hchars, hmod, -⟩ := haccepted.text
  obtain ⟨hchars', hmod', -⟩ := haccepted'.text
  have hlength := congrArg List.length hbytes
  rw [length_bytes_decodedState, length_bytes_decodedState] at hlength
  have hlen := length_eq_of_bytes hmod hmod' hlength.symm
  have hbits := congrArg (fun l => bitsOf 8 (l.map UInt8.toNat)) hbytes
  rw [bitsOf_decodedState hchars, bitsOf_decodedState hchars', ← hlen] at hbits
  rcases List.eq_nil_or_concat (unpadded input) with hnil | ⟨text, c, htext⟩
  · left
    rw [hnil] at hlen ⊢
    exact (List.length_eq_zero_iff.mp hlen.symm).symm
  rcases List.eq_nil_or_concat (unpadded input') with hnil | ⟨text', c', htext'⟩
  · rw [hnil, htext] at hlen
    simp at hlen
  rw [List.concat_eq_append] at htext htext'
  rw [htext] at hchars hmod
  rw [htext'] at hchars'
  rw [htext, htext', List.length_append, List.length_append, List.length_singleton,
    List.length_singleton, Nat.add_right_cancel_iff] at hlen
  rw [htext, htext', List.map_append, List.map_append, List.length_append,
    List.length_singleton] at hbits
  rw [List.length_append, List.length_singleton] at hmod
  have hindex : ∀ t : List Char, (∀ d ∈ t, d ∈ α.chars) → ∀ x ∈ t.map α.indexOf, x < 64 := by
    intro t ht x hx
    obtain ⟨d, hd, rfl⟩ := List.mem_map.mp hx
    exact Base64Alphabet.indexOf_lt (ht d hd)
  -- the bits that make up bytes are all but the unused ones of the last character
  have hused : 8 * ((text.length + 1) * 3 / 4) =
      6 * (text.map α.indexOf).length + (6 - 6 * (text.length + 1) % 8) := by
    rw [List.length_map]
    omega
  rw [hused] at hbits
  have hlt := hindex _ hchars
  have hlt' := hindex _ hchars'
  rw [List.map_append] at hlt hlt'
  have hunused : 6 * (text.length + 1) % 8 ≤ 6 := by omega
  have hmaps : (text.map α.indexOf).length = (text'.map α.indexOf).length := by
    rw [List.length_map, List.length_map, hlen]
  obtain ⟨hfirst, hlast⟩ := last_of_take_bitsOf hunused hlt hlt' hmaps hbits.symm
  have htexts := map_indexOf_injective (fun d hd => hchars d (by simp [hd]))
    (fun d hd => hchars' d (by simp [hd])) hfirst
  exact .inr ⟨text, c, c', htext, htexts ▸ htext', hlast⟩

/-! ## The codec as a whole -/

/-- The text of half a gibibyte is the first that is too long. -/
theorem fits_encodeBase64_iff (α : Base64Alphabet) (bytes : List UInt8) :
    Fits (encodeBase64 α bytes) ↔ bytes.length < 2 ^ 29 := by
  have hlen := length_sextets bytes
  have hzeros : zerosAfter bytes.length = bytes.length % 3 * 4 % 6 := rfl
  rw [Fits, (unpadded_encodeBase64 α bytes).2, List.length_map]
  omega

/-- The codec does what it is for exactly where the shift that computes the array's length does not
overflow. -/
theorem codec_holds_iff (α : Base64Alphabet) (bytes : List UInt8) (input input' : List Char) :
    CodecHolds α bytes input input' ↔
      bytes.length < 2 ^ 29 ∧ (Accepted α input → Fits input) ∧
      (Accepted α input' → Fits input') := by
  rw [← fits_encodeBase64_iff α bytes]
  constructor
  · intro h
    exact ⟨(decodeBase64_encodeBase64_iff α bytes).mp h.roundTrip,
      (decodesWithin_iff α input).mp h.within, (decodesWithin_iff α input').mp h.within'⟩
  · rintro ⟨hbytes, hinput, hinput'⟩
    refine ⟨isEncoding_encodeBase64 α bytes, (decodeBase64_encodeBase64_iff α bytes).mpr hbytes,
      (decodesWithin_iff α input).mpr hinput, (decodesWithin_iff α input').mpr hinput',
        fun decoded h h' => ?_⟩
    have haccepted : ∀ {text : List Char}, decodeBase64 α text = .ok decoded → Accepted α text :=
        fun htext => by
      obtain ⟨st, hst, -⟩ := decodeBase64_eq_ok.mp htext
      exact accepted_of_decodeRun hst
    exact sameButUnusedBits_of_decodeBase64 (hinput (haccepted h)) (hinput' (haccepted h')) h h'

/-- The text of half a gibibyte of zeros is not decoded. -/
theorem decodeBase64_long_rejected : ∃ bytes : List UInt8, bytes = List.replicate (2 ^ 29) 0 ∧
    decodeBase64 .base64 (encodeBase64 .base64 bytes) =
      .error (.rangeError "Invalid typed array length: -536870912") ∧
    ¬ CodecHolds .base64 bytes [] [] := by
  refine ⟨_, rfl, ?_, fun h => ?_⟩
  · have hlength : (unpadded (encodeBase64 .base64 (List.replicate (2 ^ 29) 0))).length * 3 =
        2 ^ 31 + 1 := by
      have hsextets := length_sextets (List.replicate (2 ^ 29) 0)
      rw [List.length_replicate] at hsextets
      rw [(unpadded_encodeBase64 .base64 _).2, List.length_map]
      simp only [zerosAfter] at hsextets
      omega
    rw [decodeBase64, decodeRun_of_accepted (unpadded_encodeBase64 .base64 _).1, hlength]
    rfl
  · have hlt := (fits_encodeBase64_iff .base64 _).mp
      ((decodeBase64_encodeBase64_iff .base64 _).mp h.roundTrip)
    rw [List.length_replicate] at hlt
    exact lt_irrefl _ hlt

end IdentityCommon.Common
