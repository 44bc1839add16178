import IdentityCommon.Lib.Except
import IdentityCommon.TokenStatusList.ByteFormat

/-!
# Compressed status lists

Status lists that can be changed, and their compression: `StatusList` of `token-status-list` with
the calls of `pako`.

## Main definitions

- `Pako` — the compression library
- `InflatedStatusList` — a status list with its aggregation uri that knows whether it was changed
- `compressStatusListToBytes`, `decompressStatusListFromBytes` — to compressed bytes and back

## Main results

- `decompress_compress` — what was decompressed, and changed since, is what its compression
  decompresses to
-/

namespace IdentityCommon.TokenStatusList

open IdentityCommon.Except

/-- Deflation at level 9, and what an inflation puts out: chunks, and its error message. -/
structure Pako where
  deflate : List UInt8 → List UInt8
  inflate : List UInt8 → List (List UInt8) × Option String

/-- What is deflated is inflated again. -/
def Pako.Lawful (pako : Pako) : Prop :=
  ∀ bytes, (pako.inflate (pako.deflate bytes)).1.flatten = bytes ∧
  (pako.inflate (pako.deflate bytes)).2 = none

/-- An issue of a validation error. -/
structure ValidationIssue where
  code : String
  message : String
  deriving DecidableEq, Repr

inductive TokenError
  | statusList (error : StatusListError)
  | validation (message : String) (issues : List ValidationIssue)
  | cose (message : String)
  deriving DecidableEq, Repr

/-- A status list whose statuses can be set. `isModified` says that one was set. -/
structure InflatedStatusList extends StatusList where
  aggregationUri : Option String := none
  isModified : Bool := false
  deriving DecidableEq, Repr

namespace InflatedStatusList

def assertIndex (l : InflatedStatusList) (index : ℕ) : Except StatusListError Unit :=
  if index < l.totalStatuses then .ok ()
  else .error ⟨s!"Index out of bounds: {index} is not an index of a list of {l.totalStatuses} " ++
    "statuses"⟩

def setStatus (l : InflatedStatusList) (index value : ℕ) :
    Except StatusListError InflatedStatusList := do
  l.assertIndex index
  assertStatusValue value l.bitsPerStatus index
  return { l with statusList := l.statusList.set index value, isModified := true }

end InflatedStatusList

/-! ## Compression -/

def defaultMaxStatuses : ℕ := 2 ^ 24

/-- The chunks of an inflation, which stops when there is more than a number of bytes. -/
def readChunks (maxBytes : ℕ) : ℕ → List (List UInt8) → Except StatusListError (List UInt8)
  | _, [] => .ok []
  | length, chunk :: chunks => do
    if length + chunk.length > maxBytes then
      .error ⟨s!"The status list is larger than the maximum of {maxBytes} bytes"⟩
    else
      return chunk ++ (← readChunks maxBytes (length + chunk.length) chunks)

section Pako

variable (pako : Pako)

def inflateAtMost (compressed : List UInt8) (maxBytes : ℕ) :
    Except StatusListError (List UInt8) := do
  let bytes ← readChunks maxBytes 0 (pako.inflate compressed).1
  match (pako.inflate compressed).2 with
  | some msg => .error ⟨"The status list could not be inflated: " ++ msg⟩
  | none => return bytes

def compressStatusListToBytes (l : StatusList) : Except StatusListError (List UInt8) :=
  pako.deflate <$> l.encodeStatusListIntoByteArray

/-- The statuses of inflated bytes, checked by the constructor. -/
def inflated (bytes : List UInt8) (bitsPerStatus : BitsPerStatus) (aggregationUri : Option String) :
    Except StatusListError InflatedStatusList :=
  match decodeStatusListFromByteArray bytes bitsPerStatus with
  | some statuses => do
    let l ← StatusList.new statuses bitsPerStatus.val
    return { l with aggregationUri }
  | none => .error ⟨"Status value out of range"⟩

def decompressStatusListFromBytes (compressed : List UInt8) (bitsPerStatus : BitsPerStatus)
    (aggregationUri : Option String) : Except TokenError InflatedStatusList :=
  match inflateAtMost pako compressed (numBytes bitsPerStatus defaultMaxStatuses) >>= fun bytes =>
      inflated bytes bitsPerStatus aggregationUri with
  | .ok l => .ok l
  | .error e => .error
      (.validation "The status list cannot be decompressed" [⟨"invalid_status_list", e.message⟩])

end Pako

/-! ## Decompressed lists -/

variable {bits : BitsPerStatus}

/-- What bytes that are not too many decompress to: statuses in range that fill the bytes. -/
structure FillsBytes (l : StatusList) : Prop where
  inRange : ∀ s ∈ l.statusList, s < 2 ^ l.bitsPerStatus.val
  length : ∃ n ≤ numBytes l.bitsPerStatus defaultMaxStatuses, l.statusList.length =
    n * l.bitsPerStatus.perByte

theorem readChunks_ok {maxBytes : ℕ} {chunks : List (List UInt8)} : ∀ {length : ℕ},
    length + chunks.flatten.length ≤ maxBytes →
    readChunks maxBytes length chunks = .ok chunks.flatten := by
  induction chunks with
  | nil => exact fun _ => rfl
  | cons chunk chunks ih =>
    intro length h
    rw [List.flatten_cons, List.length_append] at h
    rw [readChunks, if_neg (by omega), ih (by omega)]
    rfl

theorem readChunks_eq_ok {maxBytes : ℕ} {chunks : List (List UInt8)} :
    ∀ {length : ℕ} {bytes : List UInt8},
    length ≤ maxBytes → readChunks maxBytes length chunks = .ok bytes →
    length + bytes.length ≤ maxBytes := by
  induction chunks with
  | nil =>
    intro length bytes hlength h
    cases h
    exact hlength
  | cons chunk chunks ih =>
    intro length bytes hlength h
    rw [readChunks] at h
    split at h
    case isTrue => cases h
    case isFalse hle =>
      obtain ⟨rest, hrest, hbytes⟩ := bind_eq_ok.mp h
      cases hbytes
      have := ih (Nat.le_of_not_lt hle) hrest
      rw [List.length_append]
      omega

theorem length_of_inflateAtMost {pako : Pako} {compressed bytes : List UInt8} {maxBytes : ℕ}
    (h : inflateAtMost pako compressed maxBytes = .ok bytes) : bytes.length ≤ maxBytes := by
  obtain ⟨read, hread, h⟩ := bind_eq_ok.mp h
  split at h
  case h_1 => cases h
  case h_2 =>
    cases h
    have := readChunks_eq_ok (Nat.zero_le _) hread
    omega

theorem inflateAtMost_deflate {pako : Pako} (hpako : pako.Lawful)
    {bytes : List UInt8} {maxBytes : ℕ} (h : bytes.length ≤ maxBytes) :
    inflateAtMost pako (pako.deflate bytes) maxBytes = .ok bytes := by
  obtain ⟨hflatten, hnone⟩ := hpako bytes
  unfold inflateAtMost
  rw [readChunks_ok (by rw [hflatten]; omega), hflatten, hnone]
  rfl

theorem lt_of_decode {bytes : List UInt8} {statuses : List ℕ}
    (h : decodeStatusListFromByteArray bytes bits = some statuses) :
    ∀ s ∈ statuses, s < 2 ^ bits.val := by
  rw [decode_eq] at h
  cases h
  intro s hs
  obtain ⟨p, -, rfl⟩ := List.mem_map.mp hs
  exact fieldAt_lt bytes p

theorem inflated_eq_ok {bytes : List UInt8} {aggregationUri : Option String} {statuses : List ℕ}
    (h : decodeStatusListFromByteArray bytes bits = some statuses) :
    inflated bytes bits aggregationUri =
      .ok { statusList := statuses, bitsPerStatus := bits, aggregationUri } := by
  have hnew : StatusList.new statuses bits.val = .ok ⟨statuses, bits⟩ := by
    rw [StatusList.new, dif_pos bits.isWidth, assertStatusValues_ok _ 0 (lt_of_decode h)]
    rfl
  unfold inflated
  rw [h]
  dsimp only
  rw [hnew]
  rfl

/-- What a decompression returns. -/
theorem decompress_eq_ok {pako : Pako} {compressed : List UInt8} {aggregationUri : Option String}
    {l : InflatedStatusList}
    (h : decompressStatusListFromBytes pako compressed bits aggregationUri = .ok l) :
    l.bitsPerStatus = bits ∧ l.aggregationUri = aggregationUri ∧ l.isModified = false ∧
    FillsBytes l.toStatusList := by
  unfold decompressStatusListFromBytes at h
  split at h
  case h_2 => cases h
  case h_1 l' hl =>
    cases h
    obtain ⟨bytes, hbytes, hl⟩ := bind_eq_ok.mp hl
    have hdecode : decodeStatusListFromByteArray bytes bits = some _ := decode_eq bytes
    rw [inflated_eq_ok hdecode] at hl
    cases hl
    exact ⟨rfl, rfl, rfl, lt_of_decode hdecode, bytes.length,
      length_of_inflateAtMost hbytes, by simp⟩

theorem FillsBytes.encode {l : StatusList} (h : FillsBytes l) :
    ∃ bytes, l.encodeStatusListIntoByteArray = .ok bytes ∧
      bytes.length ≤ numBytes l.bitsPerStatus defaultMaxStatuses ∧
      decodeStatusListFromByteArray bytes l.bitsPerStatus = some l.statusList := by
  obtain ⟨n, hn, hlength⟩ := h.length
  have hbytes : numBytes l.bitsPerStatus l.statusList.length = n := by
    have := l.bitsPerStatus.perByte_mul
    rw [numBytes, hlength, Nat.mul_assoc, this]
    omega
  refine ⟨packed l.bitsPerStatus l.statusList, encode_eq h.inRange, ?_, ?_⟩
  · rwa [length_packed, hbytes]
  · rw [decode_packed h.inRange, hbytes, hlength, Nat.sub_self, List.replicate_zero,
      List.append_nil]

/-- What was decompressed, and changed since, is what its compression decompresses to. -/
theorem decompress_compress {pako : Pako} (hpako : pako.Lawful) {l : StatusList} (h : FillsBytes l)
    (aggregationUri : Option String) :
    ∃ compressed, compressStatusListToBytes pako l = .ok compressed ∧
      decompressStatusListFromBytes pako compressed l.bitsPerStatus aggregationUri =
        .ok { l with aggregationUri } := by
  obtain ⟨bytes, hencode, hlength, hdecode⟩ := h.encode
  refine ⟨pako.deflate bytes, ?_, ?_⟩
  · rw [compressStatusListToBytes, hencode]
    rfl
  · unfold decompressStatusListFromBytes
    rw [inflateAtMost_deflate hpako hlength, ok_bind, inflated_eq_ok hdecode]

/-- Setting a status leaves a list that fills bytes. -/
theorem setStatus_eq_ok {l l' : InflatedStatusList} {index value : ℕ}
    (h : l.setStatus index value = .ok l') :
    index < l.totalStatuses ∧ value < 2 ^ l.bitsPerStatus.val ∧
      l' = { l with statusList := l.statusList.set index value, isModified := true } := by
  obtain ⟨⟨⟩, hindex, h⟩ := bind_eq_ok.mp h
  obtain ⟨⟨⟩, hvalue, h⟩ := bind_eq_ok.mp h
  cases h
  unfold InflatedStatusList.assertIndex at hindex
  unfold assertStatusValue at hvalue
  split at hindex
  case isFalse => cases hindex
  case isTrue hlt =>
    dsimp only at hvalue
    split at hvalue
    case isTrue => cases hvalue
    case isFalse hle =>
      have := Nat.two_pow_pos l.bitsPerStatus.val
      exact ⟨hlt, by omega, rfl⟩

theorem setStatus_of_lt {l : InflatedStatusList} {index value : ℕ}
    (hindex : index < l.totalStatuses) (hvalue : value < 2 ^ l.bitsPerStatus.val) :
    l.setStatus index value =
      .ok { l with statusList := l.statusList.set index value, isModified := true } := by
  unfold InflatedStatusList.setStatus InflatedStatusList.assertIndex
  rw [if_pos hindex, ok_bind, assertStatusValue_ok index hvalue]
  rfl

theorem FillsBytes.set {l : StatusList} (h : FillsBytes l) (index : ℕ) {value : ℕ}
    (hvalue : value < 2 ^ l.bitsPerStatus.val) :
    FillsBytes { l with statusList := l.statusList.set index value } := by
  refine ⟨fun s hs => ?_, ?_⟩
  · obtain hs | rfl := List.mem_or_eq_of_mem_set hs
    · exact h.inRange s hs
    · exact hvalue
  · obtain ⟨n, hn, hlength⟩ := h.length
    exact ⟨n, hn, by rwa [List.length_set]⟩

end IdentityCommon.TokenStatusList
