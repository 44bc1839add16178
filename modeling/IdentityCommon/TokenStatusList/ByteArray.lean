import Mathlib.Data.List.GetD
import IdentityCommon.Lib.DigitString

/-!
# Status lists and their byte format

`StatusList` of `token-status-list`: the checks on statuses, and the conversion between a
list of statuses and the byte array that is compressed into a status list token.

## Main definitions

- `StatusList` — a list of statuses with its number of bits per status
- `StatusList.encodeStatusListIntoByteArray` — the encoder, a loop over the statuses that
  prepends binary strings and flushes a byte when eight bits are there
- `decodeStatusListFromByteArray` — the decoder, which reads each byte as a string of eight
  bits and reverses the statuses of a byte

## Design notes

A status is a natural number, so the checks that a status is an integer and not negative
have no counterpart; the check against the maximum has.
-/

namespace IdentityCommon.TokenStatusList

open DigitString

/-- The error the status list functions throw. -/
structure StatusListError where
  message : String
  deriving DecidableEq, Repr

/-- `BitsPerStatus`: 1, 2, 4 or 8. -/
structure BitsPerStatus where
  val : ℕ
  isWidth : val ∈ [1, 2, 4, 8]
  deriving DecidableEq, Repr

/-- The number of statuses a byte holds. -/
def BitsPerStatus.perByte (bits : BitsPerStatus) : ℕ := 8 / bits.val

theorem BitsPerStatus.cases (bits : BitsPerStatus) :
    bits.val = 1 ∧ bits.perByte = 8 ∨ bits.val = 2 ∧ bits.perByte = 4 ∨
      bits.val = 4 ∧ bits.perByte = 2 ∨ bits.val = 8 ∧ bits.perByte = 1 := by
  obtain ⟨n, hn⟩ := bits
  simp only [List.mem_cons, List.not_mem_nil, or_false] at hn
  rcases hn with rfl | rfl | rfl | rfl <;> simp [perByte]

theorem BitsPerStatus.perByte_mul (bits : BitsPerStatus) : bits.perByte * bits.val = 8 := by
  rcases bits.cases with ⟨h, h'⟩ | ⟨h, h'⟩ | ⟨h, h'⟩ | ⟨h, h'⟩ <;> rw [h, h']

theorem BitsPerStatus.pos (bits : BitsPerStatus) : 0 < bits.val := by
  have := bits.cases
  omega

theorem BitsPerStatus.perByte_pos (bits : BitsPerStatus) : 0 < bits.perByte := by
  have := bits.cases
  omega

/-- A status takes exactly `bitsPerStatus` bits. -/
def assertStatusValue (value : ℕ) (bitsPerStatus : BitsPerStatus) (index : ℕ) :
    Except StatusListError Unit :=
  let max := 2 ^ bitsPerStatus.val - 1
  let bits := bitsPerStatus.val
  if value > max then
    .error ⟨s!"Status value out of range at index {index} with value {value}, expected an " ++
      s!"integer from 0 to {max} for {bits} bits per status"⟩
  else
    .ok ()

theorem assertStatusValue_ok {value : ℕ} {bits : BitsPerStatus} (index : ℕ)
    (h : value < 2 ^ bits.val) : assertStatusValue value bits index = .ok () := by
  rw [assertStatusValue, if_neg (by omega)]

/-- A list of statuses with its number of bits per status. The statuses are only checked when the
list is created and when it is encoded, as they are exposed in between. -/
structure StatusList where
  statusList : List ℕ
  bitsPerStatus : BitsPerStatus
  deriving DecidableEq, Repr

/-- The checks of the statuses of a list from index `i` on. -/
def assertStatusValues (bits : BitsPerStatus) : ℕ → List ℕ → Except StatusListError Unit
  | _, [] => .ok ()
  | i, value :: rest => do
    assertStatusValue value bits i
    assertStatusValues bits (i + 1) rest

/-- The constructor. -/
def StatusList.new (statusList : List ℕ) (bitsPerStatus : ℕ) : Except StatusListError StatusList :=
  if h : bitsPerStatus ∈ [1, 2, 4, 8] then do
    assertStatusValues ⟨bitsPerStatus, h⟩ 0 statusList
    return ⟨statusList, ⟨bitsPerStatus, h⟩⟩
  else
    .error ⟨"bitsPerStatus must be 1, 2, 4, or 8"⟩

def StatusList.totalStatuses (l : StatusList) : ℕ := l.statusList.length

/-! ## Encoding -/

/-- The variables of the encoding loop. -/
structure EncodeState where
  byteArray : List UInt8
  byteIndex : ℕ
  bitIndex : ℕ
  currentByte : List Char

/-- The body of the encoding loop for the status at index `i`. -/
def encodeStep (numBits totalStatuses : ℕ) (st : EncodeState) (i status : ℕ) : EncodeState :=
  let currentByte := padStart (Nat.toDigits 2 status) numBits '0' ++ st.currentByte
  let bitIndex := st.bitIndex + numBits
  if bitIndex ≥ 8 ∨ i = totalStatuses - 1 then
    let currentByte :=
      if i = totalStatuses - 1 ∧ bitIndex % 8 ≠ 0 then padStart currentByte 8 '0' else currentByte
    { byteArray := st.byteArray.set st.byteIndex (UInt8.ofNat (parseDigits 2 currentByte))
      byteIndex := st.byteIndex + 1
      bitIndex := 0
      currentByte := [] }
  else
    { st with bitIndex, currentByte }

/-- The encoding loop from index `i` on. -/
def encodeLoop (numBits : BitsPerStatus) (totalStatuses : ℕ) :
    ℕ → List ℕ → EncodeState → Except StatusListError EncodeState
  | _, [], st => .ok st
  | i, status :: rest, st => do
    -- The list is exposed, so its values may have changed since construction
    assertStatusValue status numBits i
    encodeLoop numBits totalStatuses (i + 1) rest
      (encodeStep numBits.val totalStatuses st i status)

/-- The number of bytes that hold `n` statuses. -/
def numBytes (bits : BitsPerStatus) (n : ℕ) : ℕ := (n * bits.val + 7) / 8

def StatusList.encodeStatusListIntoByteArray (l : StatusList) :
    Except StatusListError (List UInt8) := do
  let st ← encodeLoop l.bitsPerStatus l.totalStatuses 0 l.statusList
    { byteArray := List.replicate (numBytes l.bitsPerStatus l.totalStatuses) 0
      byteIndex := 0, bitIndex := 0, currentByte := [] }
  return st.byteArray

/-! ## Decoding -/

/-- The index a status read at loop index `i` is written to: the statuses of a byte are read from
its highest bits on. -/
def decodePosition (bits : BitsPerStatus) (i : ℕ) : ℕ :=
  i / bits.perByte * bits.perByte + (bits.perByte - 1 - i % bits.perByte)

/-- The status read at loop index `i`, with `bitIndex` the loop's bit index. -/
def decodeStatus (byteArray : List UInt8) (bits : BitsPerStatus) (bitIndex i : ℕ) : ℕ :=
  let byte := byteArray.getD (i * bits.val / 8) 0
  let byteString := padStart (Nat.toDigits 2 byte.toNat) 8 '0'
  parseDigits 2 ((byteString.drop bitIndex).take bits.val)

/-- `n` iterations of the decoding loop; slots that were not written hold `none`. -/
def decodeLoop (byteArray : List UInt8) (bits : BitsPerStatus) (total : ℕ) :
    ℕ → ℕ × List (Option ℕ)
  | 0 => (0, List.replicate total none)
  | i + 1 =>
    let (bitIndex, statusList) := decodeLoop byteArray bits total i
    ((bitIndex + bits.val) % 8,
      statusList.set (decodePosition bits i) (some (decodeStatus byteArray bits bitIndex i)))

/-- The statuses of a byte array. `none` would be an array with a slot never written. -/
def decodeStatusListFromByteArray (byteArray : List UInt8) (bits : BitsPerStatus) :
    Option (List ℕ) :=
  let total := byteArray.length * 8 / bits.val
  (decodeLoop byteArray bits total total).2.mapM id

/-! ## What the encoder computes -/

variable {bits : BitsPerStatus} {l : List ℕ}

/-- Byte `j` of the encoding: the statuses of the byte, the first one in the lowest bits. -/
def packedByte (bits : BitsPerStatus) (l : List ℕ) (j : ℕ) : ℕ :=
  Nat.ofDigits (2 ^ bits.val) ((l.drop (j * bits.perByte)).take bits.perByte)

/-- The statuses of the byte being filled before loop index `i`. -/
def pending (bits : BitsPerStatus) (l : List ℕ) (st : EncodeState) (i : ℕ) : List ℕ :=
  (l.take i).drop (st.byteIndex * bits.perByte)

/-- The bytes before `n` are written. -/
def Written (bits : BitsPerStatus) (l : List ℕ) (byteArray : List UInt8) (n : ℕ) : Prop :=
  byteArray.length = numBytes bits l.length ∧
    ∀ j < n, byteArray[j]? = some (UInt8.ofNat (packedByte bits l j))

/-- The invariant of the encoding loop before index `i`. -/
structure Encoding (bits : BitsPerStatus) (l : List ℕ) (st : EncodeState) (i : ℕ) : Prop where
  written : Written bits l st.byteArray st.byteIndex
  lower : st.byteIndex * bits.perByte ≤ i
  upper : i < (st.byteIndex + 1) * bits.perByte
  bitIndex : st.bitIndex = (i - st.byteIndex * bits.perByte) * bits.val
  length : st.currentByte.length = st.bitIndex
  value : parseDigits 2 st.currentByte = Nat.ofDigits (2 ^ bits.val) (pending bits l st i)

theorem length_pending {st : EncodeState} {i : ℕ} (hi : i ≤ l.length) :
    (pending bits l st i).length = i - st.byteIndex * bits.perByte := by
  simp [pending, Nat.min_eq_left hi]

/-- Prepending the string of a status adds it as the highest field. -/
theorem Encoding.value_succ {st : EncodeState} {i status : ℕ} (h : Encoding bits l st i)
    (hi : i < l.length) (hs : l[i] = status) :
    parseDigits 2 (padStart (Nat.toDigits 2 status) bits.val '0' ++ st.currentByte) =
      Nat.ofDigits (2 ^ bits.val) (pending bits l st (i + 1)) := by
  have hp : pending bits l st (i + 1) = pending bits l st i ++ [status] := by
    rw [pending, List.take_succ_eq_append_getElem hi, hs,
      List.drop_append_of_le_length (by simp; have := h.lower; omega)]
    rfl
  rw [parseDigits_append, parseDigits_padStart, parseDigits_toDigits (by omega) (by omega),
    h.value, h.length, h.bitIndex, hp, Nat.ofDigits_append, length_pending hi.le,
    Nat.ofDigits_singleton, ← pow_mul, Nat.mul_comm bits.val, Nat.add_comm]

/-- Flushing a byte writes it. -/
theorem Written.set {byteArray : List UInt8} {n b : ℕ} (h : Written bits l byteArray n)
    (hn : n < numBytes bits l.length) (hb : b = packedByte bits l n) :
    Written bits l (byteArray.set n (UInt8.ofNat b)) (n + 1) := by
  refine ⟨by rw [List.length_set]; exact h.1, fun j hj => ?_⟩
  by_cases hjn : j = n
  · subst hjn
    rw [List.getElem?_set_self (by rw [h.1]; exact hn), hb]
  · rw [List.getElem?_set_ne (Ne.symm hjn)]
    exact h.2 j (by omega)

theorem numBytes_eq {i n : ℕ} (hlow : n * bits.perByte ≤ i) (hup : i < (n + 1) * bits.perByte) :
    numBytes bits (i + 1) = n + 1 := by
  unfold numBytes
  rcases bits.cases with ⟨h, h'⟩ | ⟨h, h'⟩ | ⟨h, h'⟩ | ⟨h, h'⟩ <;>
    (rw [h'] at hlow hup; rw [h]; omega)

theorem lt_numBytes {i n t : ℕ} (hlow : n * bits.perByte ≤ i) (hi : i < t) :
    n < numBytes bits t := by
  unfold numBytes
  rcases bits.cases with ⟨h, h'⟩ | ⟨h, h'⟩ | ⟨h, h'⟩ | ⟨h, h'⟩ <;>
    (rw [h'] at hlow; rw [h]; omega)

/-- The string of a byte after the status at the loop index: full if it has eight bits. -/
theorem Encoding.eight_le_iff {st : EncodeState} {i : ℕ} (h : Encoding bits l st i) :
    8 ≤ st.bitIndex + bits.val ↔ i + 1 = (st.byteIndex + 1) * bits.perByte := by
  have h1 := h.lower
  have h2 := h.upper
  rw [h.bitIndex]
  rcases bits.cases with ⟨hb, hp⟩ | ⟨hb, hp⟩ | ⟨hb, hp⟩ | ⟨hb, hp⟩ <;>
    (rw [hp] at h1 h2 ⊢; rw [hb]; omega)

/-- The statuses pending when a byte is flushed are those of the byte. -/
theorem pending_eq {st : EncodeState} {i : ℕ}
    (h : i + 1 = (st.byteIndex + 1) * bits.perByte ∨
      i + 1 = l.length ∧ i < (st.byteIndex + 1) * bits.perByte) :
    Nat.ofDigits (2 ^ bits.val) (pending bits l st (i + 1)) = packedByte bits l st.byteIndex := by
  rw [pending, packedByte, List.drop_take]
  rcases h with h | ⟨h, hlt⟩
  · rw [h, Nat.add_mul, Nat.one_mul, Nat.add_sub_cancel_left]
  · rw [Nat.add_mul, Nat.one_mul] at hlt
    rw [List.take_of_length_le (by simp; omega), List.take_of_length_le (by simp; omega)]

theorem encodeStep_flush {numBits : ℕ} {st : EncodeState} (total i status : ℕ)
    (h : st.bitIndex + numBits ≥ 8 ∨ i = total - 1) :
    ∃ cur, encodeStep numBits total st i status =
        { byteArray := st.byteArray.set st.byteIndex (UInt8.ofNat (parseDigits 2 cur))
          byteIndex := st.byteIndex + 1, bitIndex := 0, currentByte := [] } ∧
      parseDigits 2 cur =
        parseDigits 2 (padStart (Nat.toDigits 2 status) numBits '0' ++ st.currentByte) := by
  simp only [encodeStep, if_pos h]
  refine ⟨_, rfl, ?_⟩
  split
  · rw [parseDigits_padStart]
  · rfl

/-- One iteration keeps the invariant while statuses remain. -/
theorem Encoding.step {st : EncodeState} {i status : ℕ} (h : Encoding bits l st i)
    (hi : i + 1 < l.length) (hs : l[i] = status) (hlt : status < 2 ^ bits.val) :
    Encoding bits l (encodeStep bits.val l.length st i status) (i + 1) := by
  have hval := h.value_succ (by omega) hs
  by_cases hfull : 8 ≤ st.bitIndex + bits.val
  · obtain ⟨cur, heq, hcur⟩ := encodeStep_flush l.length i status (Or.inl hfull)
    have hend := h.eight_le_iff.mp hfull
    have hper := bits.perByte_pos
    rw [heq]
    refine ⟨h.written.set (lt_numBytes h.lower (by omega)) ?_, hend.ge, ?_, ?_, rfl, ?_⟩
    · rw [hcur, hval, pending_eq (Or.inl hend)]
    · simp only [Nat.add_mul, Nat.one_mul] at hend ⊢
      omega
    · simp [hend]
    · simp [pending, hend, List.drop_of_length_le]
  · have hstep : encodeStep bits.val l.length st i status =
        { st with
          bitIndex := st.bitIndex + bits.val
          currentByte := padStart (Nat.toDigits 2 status) bits.val '0' ++ st.currentByte } := by
      rw [encodeStep, if_neg (by omega)]
    have hne := mt h.eight_le_iff.mpr hfull
    have hlow := h.lower
    have hup := h.upper
    rw [hstep]
    refine ⟨h.written, by simp only; omega, by simp only; omega, ?_, ?_, hval⟩
    · simp only [h.bitIndex, Nat.sub_add_comm hlow, Nat.add_mul, Nat.one_mul]
    · simp only [List.length_append, h.length]
      rw [length_padStart_toDigits (by omega) bits.pos hlt, Nat.add_comm]

/-- The iteration for the last status writes the last byte. -/
theorem Encoding.last {st : EncodeState} {i status : ℕ} (h : Encoding bits l st i)
    (hi : i + 1 = l.length) (hs : l[i] = status) :
    Written bits l (encodeStep bits.val l.length st i status).byteArray
      (numBytes bits l.length) := by
  obtain ⟨cur, heq, hcur⟩ := encodeStep_flush l.length i status
    (show st.bitIndex + bits.val ≥ 8 ∨ i = l.length - 1 by omega)
  have hn : numBytes bits l.length = st.byteIndex + 1 := by
    rw [← hi, numBytes_eq h.lower h.upper]
  rw [heq, hn]
  refine h.written.set (by omega) ?_
  rw [hcur, h.value_succ (by omega) hs, pending_eq (Or.inr ⟨hi, h.upper⟩)]

theorem encodeLoop_written (hl : ∀ s ∈ l, s < 2 ^ bits.val) :
    ∀ (rest : List ℕ) (i : ℕ) (st : EncodeState), l.drop i = rest → i < l.length →
      Encoding bits l st i → ∃ st', encodeLoop bits l.length i rest st = .ok st' ∧
        Written bits l st'.byteArray (numBytes bits l.length)
  | [], i, _, hrest, hi, _ => by
    have := List.drop_eq_nil_iff.mp hrest
    omega
  | status :: rest, i, st, hrest, hi, hst => by
    have hs : l[i] = status := by
      have := List.getElem_cons_drop hi
      rw [hrest] at this
      exact (List.cons.inj this).1
    have hrest' : l.drop (i + 1) = rest := by
      rw [← List.drop_drop, hrest]
      rfl
    have hlt := hl status (hs ▸ List.getElem_mem hi)
    rw [encodeLoop, assertStatusValue_ok i hlt]
    change ∃ st', encodeLoop bits l.length (i + 1) rest _ = _ ∧ _
    by_cases hlast : i + 1 = l.length
    · obtain rfl : rest = [] := by rw [← hrest', hlast, List.drop_length]
      exact ⟨_, rfl, hst.last hlast hs⟩
    · exact encodeLoop_written hl rest (i + 1) _ hrest' (by omega)
        (hst.step (by omega) hs hlt)

/-- Encoding a list of in-range statuses succeeds and packs them byte by byte. -/
theorem encode_eq (hl : ∀ s ∈ l, s < 2 ^ bits.val) :
    (StatusList.mk l bits).encodeStatusListIntoByteArray =
      .ok ((List.range (numBytes bits l.length)).map fun j => UInt8.ofNat
        (packedByte bits l j)) := by
  have hfin : ∀ bs : List UInt8, Written bits l bs (numBytes bits l.length) →
      bs = (List.range (numBytes bits l.length)).map fun j =>
        UInt8.ofNat (packedByte bits l j) := by
    intro bs hbs
    apply List.ext_getElem?
    intro j
    by_cases hj : j < numBytes bits l.length
    · rw [hbs.2 j hj, List.getElem?_map, List.getElem?_range hj]
      rfl
    · rw [List.getElem?_eq_none (by rw [hbs.1]; omega), List.getElem?_eq_none (by simp; omega)]
  let st₀ : EncodeState :=
    { byteArray := List.replicate (numBytes bits l.length) 0
      byteIndex := 0, bitIndex := 0, currentByte := [] }
  have hst₀ : Written bits l st₀.byteArray 0 := ⟨by simp [st₀], fun j hj => by omega⟩
  change (encodeLoop bits l.length 0 l st₀).bind (fun st => .ok st.byteArray) = _
  rcases Nat.eq_zero_or_pos l.length with h0 | hpos
  · obtain rfl := List.length_eq_zero_iff.mp h0
    have : numBytes bits ([] : List ℕ).length = 0 := by simp [numBytes]
    rw [← hfin _ (by rw [this]; exact hst₀)]
    rfl
  · have hst : Encoding bits l st₀ 0 :=
      ⟨hst₀, by simp [st₀], by simpa [st₀] using bits.perByte_pos, by simp [st₀], rfl,
        by simp [st₀, pending]⟩
    obtain ⟨st', heq, hst'⟩ := encodeLoop_written hl l 0 st₀ rfl hpos hst
    rw [heq, ← hfin _ hst']
    rfl

end IdentityCommon.TokenStatusList
