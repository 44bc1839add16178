import IdentityCommon.TokenStatusList.ByteArray

/-!
# The byte format of a status list

What the decoder computes, and the format both functions agree on: status `i` takes the
bits from `i * bits % 8` on of byte `i * bits / 8`, least significant bit first.

## Main results

- `decode_eq` — the decoder reads every field of every byte
- `byteFormat` — the position of every bit, and the two round trips
-/

namespace IdentityCommon.TokenStatusList

open DigitString

variable {bits : BitsPerStatus} {l : List ℕ}

/-- The field at index `p` of the statuses of a byte array. -/
def fieldAt (bits : BitsPerStatus) (bytes : List UInt8) (p : ℕ) : ℕ :=
  (bytes.getD (p / bits.perByte) 0).toNat / 2 ^ (p % bits.perByte * bits.val) % 2 ^ bits.val

theorem decodePosition_div (i : ℕ) : decodePosition bits i / bits.perByte = i / bits.perByte := by
  unfold decodePosition
  rcases bits.cases with ⟨-, h⟩ | ⟨-, h⟩ | ⟨-, h⟩ | ⟨-, h⟩ <;> (rw [h]; omega)

theorem decodePosition_mod (i : ℕ) :
    decodePosition bits i % bits.perByte = bits.perByte - 1 - i % bits.perByte := by
  unfold decodePosition
  rcases bits.cases with ⟨-, h⟩ | ⟨-, h⟩ | ⟨-, h⟩ | ⟨-, h⟩ <;> (rw [h]; omega)

/-- Reversing the statuses of every byte twice gives them back. -/
theorem decodePosition_decodePosition (i : ℕ) :
    decodePosition bits (decodePosition bits i) = i := by
  unfold decodePosition
  rcases bits.cases with ⟨-, h⟩ | ⟨-, h⟩ | ⟨-, h⟩ | ⟨-, h⟩ <;> (rw [h]; omega)

theorem decodePosition_lt {i n : ℕ} (h : i < n * bits.perByte) :
    decodePosition bits i < n * bits.perByte := by
  unfold decodePosition
  rcases bits.cases with ⟨-, hp⟩ | ⟨-, hp⟩ | ⟨-, hp⟩ | ⟨-, hp⟩ <;> (rw [hp] at h ⊢; omega)

/-- Eight bits as a string, as the decoder writes a byte. -/
theorem byteString_spec (byte : UInt8) :
    IsDigits 2 (padStart (Nat.toDigits 2 byte.toNat) 8 '0') ∧
      (padStart (Nat.toDigits 2 byte.toNat) 8 '0').length = 8 :=
  ⟨(isDigits_toDigits (by omega) (by omega) _).padStart (by omega) 8,
    length_padStart_toDigits (by omega) (by omega) byte.toNat_lt⟩

/-- The status read at loop index `i` is the field of the position it is written to. -/
theorem decodeStatus_eq (bytes : List UInt8) (i : ℕ) :
    decodeStatus bytes bits (i % bits.perByte * bits.val) i =
      fieldAt bits bytes (decodePosition bits i) := by
  obtain ⟨hdigits, hlen⟩ := byteString_spec (bytes.getD (i / bits.perByte) 0)
  have hbyte : i * bits.val / 8 = i / bits.perByte := by
    rw [← bits.perByte_mul, Nat.mul_div_mul_right _ _ bits.pos]
  have hshift : 8 - i % bits.perByte * bits.val - bits.val =
      (bits.perByte - 1 - i % bits.perByte) * bits.val := by
    rw [Nat.sub_mul, Nat.sub_mul, bits.perByte_mul, Nat.one_mul]
    omega
  have hfit : i % bits.perByte * bits.val + bits.val ≤ 8 := by
    have := Nat.mul_le_mul_right bits.val (Nat.mod_lt i bits.perByte_pos)
    rw [bits.perByte_mul, Nat.succ_mul] at this
    exact this
  rw [decodeStatus, hbyte]
  rw [parseDigits_slice hdigits (by rw [hlen]; exact hfit), hlen, parseDigits_padStart,
    parseDigits_toDigits (by omega) (by omega), hshift, fieldAt, decodePosition_div,
    decodePosition_mod]

/-- After `i` iterations the slots read so far hold their fields, the others nothing. -/
theorem decodeLoop_spec (bytes : List UInt8) (total i : ℕ)
    (htotal : total = bytes.length * bits.perByte) (hi : i ≤ total) :
    (decodeLoop bytes bits total i).1 = i % bits.perByte * bits.val ∧
      (decodeLoop bytes bits total i).2 = (List.range total).map fun p =>
        if decodePosition bits p < i then some (fieldAt bits bytes p) else none := by
  induction i with
  | zero =>
    refine ⟨by simp [decodeLoop], ?_⟩
    simp [decodeLoop, List.map_const']
  | succ i ih =>
    obtain ⟨hbit, hlist⟩ := ih (by omega)
    refine ⟨?_, ?_⟩
    · simp only [decodeLoop, hbit]
      rcases bits.cases with ⟨hb, hp⟩ | ⟨hb, hp⟩ | ⟨hb, hp⟩ | ⟨hb, hp⟩ <;>
        (rw [hb, hp]; omega)
    · simp only [decodeLoop, hbit, hlist, decodeStatus_eq]
      apply List.ext_getElem?
      intro p
      have hlt : decodePosition bits i < total := by
        rw [htotal]
        exact decodePosition_lt (by omega)
      by_cases hp : p = decodePosition bits i
      · subst hp
        rw [List.getElem?_set_self (by simpa using hlt), List.getElem?_map,
          List.getElem?_range hlt]
        simp [decodePosition_decodePosition]
      · rw [List.getElem?_set_ne (Ne.symm hp)]
        simp only [List.getElem?_map]
        rcases hq : (List.range total)[p]? with _ | q
        · rfl
        · obtain ⟨_, rfl⟩ : p < total ∧ p = q := by simpa [List.getElem?_eq_some_iff] using hq
          have hne : decodePosition bits p ≠ i := by
            rintro rfl
            exact hp (decodePosition_decodePosition p).symm
          have : decodePosition bits p < i ↔ decodePosition bits p < i + 1 := by omega
          simp [this]

theorem mapM_id_some (l : List ℕ) : (l.map some).mapM id = some l := by
  induction l with
  | nil => rfl
  | cons n l ih => simp [List.mapM_cons, ih]

/-- Decoding reads every field of every byte. -/
theorem decode_eq (bytes : List UInt8) : decodeStatusListFromByteArray bytes bits =
    some ((List.range (bytes.length * bits.perByte)).map (fieldAt bits bytes)) := by
  have htotal : bytes.length * 8 / bits.val = bytes.length * bits.perByte := by
    rw [← bits.perByte_mul, ← Nat.mul_assoc, Nat.mul_div_cancel _ bits.pos]
  rw [decodeStatusListFromByteArray, htotal]
  simp only [(decodeLoop_spec bytes _ _ rfl le_rfl).2]
  rw [← mapM_id_some, List.map_map]
  congr 1
  apply List.map_congr_left
  intro p hp
  rw [if_pos (decodePosition_lt (List.mem_range.mp hp))]
  rfl

/-! ## The position of every bit -/

theorem packedByte_lt (hl : ∀ s ∈ l, s < 2 ^ bits.val) (j : ℕ) : packedByte bits l j < 256 := by
  have hmem : ∀ s ∈ (l.drop (j * bits.perByte)).take bits.perByte, s < 2 ^ bits.val :=
    fun s hs => hl s (List.mem_of_mem_drop (List.mem_of_mem_take hs))
  have hlen : ((l.drop (j * bits.perByte)).take bits.perByte).length ≤ bits.perByte :=
    List.length_take_le _ _
  have hbase : 1 < 2 ^ bits.val := Nat.one_lt_two_pow bits.pos.ne'
  calc packedByte bits l j
      < (2 ^ bits.val) ^ ((l.drop (j * bits.perByte)).take bits.perByte).length :=
        Nat.ofDigits_lt_base_pow_length hbase hmem
    _ ≤ (2 ^ bits.val) ^ bits.perByte := Nat.pow_le_pow_right (by omega) hlen
    _ = 256 := by rw [← pow_mul, Nat.mul_comm, bits.perByte_mul]; rfl

/-- Bit `k` of byte `j` is bit `k % bits` of status `j * perByte + k / bits`. -/
theorem testBit_packedByte (hl : ∀ s ∈ l, s < 2 ^ bits.val) (j : ℕ) {k : ℕ} (hk : k < 8) :
    (packedByte bits l j).testBit k =
      (l.getD (j * bits.perByte + k / bits.val) 0).testBit (k % bits.val) := by
  have hslot : k / bits.val < bits.perByte := by
    rw [Nat.div_lt_iff_lt_mul bits.pos, bits.perByte_mul]
    exact hk
  rw [packedByte, testBit_ofDigits_two_pow bits.pos fun s hs =>
    hl s (List.mem_of_mem_drop (List.mem_of_mem_take hs))]
  simp only [List.getD_eq_getElem?_getD, List.getElem?_take, if_pos hslot, List.getElem?_drop]

/-- Where status `i` starts: byte `i * bits / 8`, bit `i * bits % 8`. -/
theorem position_eq (bits : BitsPerStatus) (i : ℕ) : i * bits.val / 8 = i / bits.perByte ∧
    i * bits.val % 8 = i % bits.perByte * bits.val := by
  rcases bits.cases with ⟨hb, hp⟩ | ⟨hb, hp⟩ | ⟨hb, hp⟩ | ⟨hb, hp⟩ <;>
    (rw [hb, hp]; omega)

theorem testBit_fieldAt (bytes : List UInt8) (p b : ℕ) : (fieldAt bits bytes p).testBit b =
    (decide (b < bits.val) &&
      (bytes.getD (p / bits.perByte) 0).toNat.testBit (p % bits.perByte * bits.val + b)) := by
  rw [fieldAt, Nat.testBit_mod_two_pow, Nat.testBit_div_two_pow, Nat.add_comm]

theorem fieldAt_lt (bytes : List UInt8) (p : ℕ) : fieldAt bits bytes p < 2 ^ bits.val :=
  Nat.mod_lt _ (by positivity)

/-- The bytes of an encoding. -/
def packed (bits : BitsPerStatus) (l : List ℕ) : List UInt8 :=
  (List.range (numBytes bits l.length)).map fun j => UInt8.ofNat (packedByte bits l j)

theorem length_packed : (packed bits l).length = numBytes bits l.length := by
  simp [packed]

theorem toNat_packed (hl : ∀ s ∈ l, s < 2 ^ bits.val) {j : ℕ}
    (hj : j < numBytes bits l.length) : ((packed bits l).getD j 0).toNat = packedByte bits l j := by
  rw [packed, List.getD_eq_getElem?_getD, List.getElem?_map, List.getElem?_range hj]
  exact UInt8.toNat_ofNat_of_lt' (packedByte_lt hl j)

theorem position_lt_numBytes {i : ℕ} (hi : i < l.length) :
    i / bits.perByte < numBytes bits l.length :=
  lt_numBytes (Nat.div_mul_le_self i bits.perByte) hi

/-- Bit `b` of status `i` is at its position in the encoding. -/
theorem testBit_packed (hl : ∀ s ∈ l, s < 2 ^ bits.val) {i b : ℕ} (hi : i < l.length)
    (hb : b < bits.val) :
    ((packed bits l).getD (i * bits.val / 8) 0).toNat.testBit (i * bits.val % 8 + b) =
      l[i].testBit b := by
  obtain ⟨hbyte, hbit⟩ := position_eq bits i
  have hk : i % bits.perByte * bits.val + b < 8 := by
    have := Nat.mul_le_mul_right bits.val (Nat.mod_lt i bits.perByte_pos)
    rw [bits.perByte_mul, Nat.succ_mul] at this
    omega
  rw [hbyte, hbit, toNat_packed hl (position_lt_numBytes hi), testBit_packedByte hl _ hk,
    Nat.add_comm (_ * _) b, Nat.add_mul_div_right _ _ bits.pos, Nat.div_eq_of_lt hb,
    Nat.zero_add, Nat.div_add_mod', Nat.add_mul_mod_self_right, Nat.mod_eq_of_lt hb,
    List.getD_eq_getElem _ _ hi]

/-- A bit that is set belongs to a status. -/
theorem exists_status_of_testBit_packed (hl : ∀ s ∈ l, s < 2 ^ bits.val) {j k : ℕ}
    (hj : j < (packed bits l).length) (hk : k < 8)
    (h : ((packed bits l).getD j 0).toNat.testBit k = true) :
    ∃ i b, i < l.length ∧ b < bits.val ∧ i * bits.val / 8 = j ∧ i * bits.val % 8 + b = k := by
  rw [length_packed] at hj
  rw [toNat_packed hl hj, testBit_packedByte hl j hk] at h
  refine ⟨j * bits.perByte + k / bits.val, k % bits.val, ?_, Nat.mod_lt _ bits.pos, ?_⟩
  · by_contra hge
    rw [List.getD_eq_default _ _ (Nat.le_of_not_lt hge)] at h
    simp at h
  · rcases bits.cases with ⟨hb, hp⟩ | ⟨hb, hp⟩ | ⟨hb, hp⟩ | ⟨hb, hp⟩ <;>
      (rw [hb, hp]; omega)

/-! ## Round trips -/

theorem fieldAt_packed (hl : ∀ s ∈ l, s < 2 ^ bits.val) {p : ℕ}
    (hp : p < numBytes bits l.length * bits.perByte) :
    fieldAt bits (packed bits l) p = l.getD p 0 := by
  have hj : p / bits.perByte < numBytes bits l.length :=
    (Nat.div_lt_iff_lt_mul bits.perByte_pos).mpr hp
  apply Nat.eq_of_testBit_eq
  intro b
  rw [testBit_fieldAt, toNat_packed hl hj]
  by_cases hb : b < bits.val
  · have hk : p % bits.perByte * bits.val + b < 8 := by
      have := Nat.mul_le_mul_right bits.val (Nat.mod_lt p bits.perByte_pos)
      rw [bits.perByte_mul, Nat.succ_mul] at this
      omega
    rw [testBit_packedByte hl _ hk, Nat.add_comm (_ * _) b, Nat.add_mul_div_right _ _ bits.pos,
      Nat.div_eq_of_lt hb, Nat.zero_add, Nat.div_add_mod', Nat.add_mul_mod_self_right,
      Nat.mod_eq_of_lt hb]
    simp [hb]
  · have hlt : l.getD p 0 < 2 ^ b := by
      refine lt_of_lt_of_le ?_ (Nat.pow_le_pow_right (by omega) (Nat.le_of_not_lt hb))
      rw [List.getD_eq_getElem?_getD]
      rcases h : l[p]? with _ | s
      · exact Nat.two_pow_pos _
      · exact hl s (List.mem_of_getElem? h)
    rw [Nat.testBit_lt_two_pow hlt]
    simp [hb]

/-- Decoding an encoding gives the statuses, then zeros up to the byte boundary. -/
theorem decode_packed (hl : ∀ s ∈ l, s < 2 ^ bits.val) :
    decodeStatusListFromByteArray (packed bits l) bits =
      some (l ++ List.replicate (numBytes bits l.length * bits.perByte - l.length) 0) := by
  have hle : l.length ≤ numBytes bits l.length * bits.perByte := by
    unfold numBytes
    rcases bits.cases with ⟨hb, hp⟩ | ⟨hb, hp⟩ | ⟨hb, hp⟩ | ⟨hb, hp⟩ <;>
      (rw [hb, hp]; omega)
  rw [decode_eq, length_packed]
  congr 1
  apply List.ext_getElem?
  intro p
  rw [List.getElem?_map]
  by_cases hp : p < numBytes bits l.length * bits.perByte
  · rw [List.getElem?_range hp, Option.map_some, fieldAt_packed hl hp]
    by_cases hpl : p < l.length
    · rw [List.getElem?_append_left hpl, List.getD_eq_getElem _ _ hpl,
        List.getElem?_eq_getElem hpl]
    · rw [List.getElem?_append_right (Nat.le_of_not_lt hpl), List.getElem?_replicate,
        if_pos (by omega), List.getD_eq_default _ _ (Nat.le_of_not_lt hpl)]
  · rw [List.getElem?_eq_none (by simp; omega), List.getElem?_eq_none (by simp; omega)]
    rfl

/-- Packing the fields of a byte array gives it back. -/
theorem packed_fields (bytes : List UInt8) :
    packed bits ((List.range (bytes.length * bits.perByte)).map (fieldAt bits bytes)) = bytes := by
  have hl : ∀ s ∈ (List.range (bytes.length * bits.perByte)).map (fieldAt bits bytes),
      s < 2 ^ bits.val := by
    intro s hs
    obtain ⟨p, -, rfl⟩ := List.mem_map.mp hs
    exact fieldAt_lt bytes p
  have hn : numBytes bits (bytes.length * bits.perByte) = bytes.length := by
    unfold numBytes
    rcases bits.cases with ⟨hb, hp⟩ | ⟨hb, hp⟩ | ⟨hb, hp⟩ | ⟨hb, hp⟩ <;>
      (rw [hb, hp]; omega)
  have hlen : (packed bits
      ((List.range (bytes.length * bits.perByte)).map (fieldAt bits bytes))).length =
      bytes.length := by
    rw [length_packed, List.length_map, List.length_range, hn]
  refine List.ext_getElem hlen fun j hj hj' => ?_
  have hbyte := toNat_packed hl (j := j) (by simpa [hn] using hj')
  rw [List.getD_eq_getElem _ _ hj] at hbyte
  apply UInt8.toNat_inj.mp
  rw [hbyte]
  apply Nat.eq_of_testBit_eq
  intro k
  by_cases hk : k < 8
  · have hslot : k / bits.val < bits.perByte := by
      rw [Nat.div_lt_iff_lt_mul bits.pos, bits.perByte_mul]
      exact hk
    have hp : j * bits.perByte + k / bits.val < bytes.length * bits.perByte := by
      have := Nat.mul_le_mul_right bits.perByte (Nat.succ_le_of_lt hj')
      rw [Nat.succ_mul] at this
      omega
    rw [testBit_packedByte hl j hk, List.getD_eq_getElem _ _ (by simpa using hp)]
    simp only [List.getElem_map, List.getElem_range]
    rw [testBit_fieldAt, Nat.add_comm (j * _), Nat.add_mul_div_right _ _ bits.perByte_pos,
      Nat.div_eq_of_lt hslot, Nat.zero_add, Nat.add_mul_mod_self_right, Nat.mod_eq_of_lt hslot,
      Nat.div_add_mod', List.getD_eq_getElem _ _ hj']
    simp [Nat.mod_lt _ bits.pos]
  · have hbig : (2 : ℕ) ^ 8 ≤ 2 ^ k := Nat.pow_le_pow_right (by omega) (Nat.le_of_not_lt hk)
    rw [Nat.testBit_lt_two_pow (lt_of_lt_of_le (packedByte_lt hl j) hbig),
      Nat.testBit_lt_two_pow (lt_of_lt_of_le bytes[j].toNat_lt hbig)]

theorem assertStatusValues_ok : ∀ (l : List ℕ) (i : ℕ), (∀ s ∈ l, s < 2 ^ bits.val) →
    assertStatusValues bits i l = .ok ()
  | [], _, _ => rfl
  | s :: l, i, h => by
    rw [assertStatusValues, assertStatusValue_ok i (h s List.mem_cons_self)]
    exact assertStatusValues_ok l (i + 1) fun s hs => h s (List.mem_cons_of_mem _ hs)

/-- The byte format. Encoding in-range statuses puts status `i` into the bits from `i * bits % 8` on
of byte `i * bits / 8` and leaves every other bit zero; decoding gives the statuses followed by
zeros that do not fill a byte; and every byte array decodes to a status list that encodes to it. -/
theorem byteFormat (bits : BitsPerStatus) :
    (∀ l : List ℕ, (∀ s ∈ l, s < 2 ^ bits.val) →
      ∃ bytes pad, (StatusList.mk l bits).encodeStatusListIntoByteArray = .ok bytes ∧
        (∀ (i : ℕ) (hi : i < l.length) (b : ℕ), b < bits.val →
          (bytes.getD (i * bits.val / 8) 0).toNat.testBit (i * bits.val % 8 + b) =
            l[i].testBit b) ∧
        (∀ j k, j < bytes.length → k < 8 → (bytes.getD j 0).toNat.testBit k = true →
          ∃ i b, i < l.length ∧ b < bits.val ∧ i * bits.val / 8 = j ∧
            i * bits.val % 8 + b = k) ∧
        decodeStatusListFromByteArray bytes bits = some (l ++ List.replicate pad 0) ∧
        (l.length + pad) * bits.val = bytes.length * 8 ∧ pad * bits.val < 8) ∧
    (∀ bytes : List UInt8, ∃ l, decodeStatusListFromByteArray bytes bits = some l ∧
      StatusList.new l bits.val = .ok ⟨l, bits⟩ ∧
      (StatusList.mk l bits).encodeStatusListIntoByteArray = .ok bytes) := by
  constructor
  · intro l hl
    refine ⟨packed bits l, numBytes bits l.length * bits.perByte - l.length, encode_eq hl,
      fun i hi b hb => testBit_packed hl hi hb,
      fun j k hj hk h => exists_status_of_testBit_packed hl hj hk h, decode_packed hl, ?_⟩
    rw [length_packed, numBytes]
    rcases bits.cases with ⟨hb, hp⟩ | ⟨hb, hp⟩ | ⟨hb, hp⟩ | ⟨hb, hp⟩ <;>
      (rw [hb, hp]; omega)
  · intro bytes
    have hlt : ∀ s ∈ (List.range (bytes.length * bits.perByte)).map (fieldAt bits bytes),
        s < 2 ^ bits.val := by
      intro s hs
      obtain ⟨p, -, rfl⟩ := List.mem_map.mp hs
      exact fieldAt_lt bytes p
    refine ⟨_, decode_eq bytes, ?_, ?_⟩
    · rw [StatusList.new, dif_pos bits.isWidth, assertStatusValues_ok _ 0 hlt]
      rfl
    · rw [encode_eq hlt]
      exact congrArg _ (packed_fields bytes)

/-- Three statuses of two bits: `2`, `1` and `3` take the bits `111001` of one byte. -/
theorem byteFormat_two_bits :
    ∃ bytes pad,
      (StatusList.mk [2, 1, 3] ⟨2, by decide⟩).encodeStatusListIntoByteArray = .ok bytes ∧
        decodeStatusListFromByteArray bytes ⟨2, by decide⟩ =
          some ([2, 1, 3] ++ List.replicate pad 0) := by
  obtain ⟨bytes, pad, henc, -, -, hdec, -⟩ :=
    (byteFormat ⟨2, by decide⟩).1 [2, 1, 3] (by decide)
  exact ⟨bytes, pad, henc, hdec⟩

end IdentityCommon.TokenStatusList
