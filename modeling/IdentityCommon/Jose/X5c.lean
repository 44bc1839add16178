import IdentityCommon.Jose.Header
import IdentityCommon.Lib.Der

/-!
# The certificates of `x5c`

What the check of a certificate passes: bytes that are one DER SEQUENCE. The lengths of the check
stay below `2 ^ 32`, where the numbers of the language are exact.

## Main definitions

- `IsSequence` — the tag, the shortest form of a length and as many bytes

## Main results

- `derSequenceIssue_eq_none_iff` — the check passes what it is to pass
- `eq_of_isSequence` — no sequence begins another one
- `derSequenceIssue_exact` — both of them
-/

namespace IdentityCommon.Jose

open Cbor Der

/-- The tag of a SEQUENCE, the shortest definite form of a length below `2 ^ 32`, and as many
bytes. -/
def IsSequence (bytes : List UInt8) : Prop :=
  ∃ n < 2 ^ 32, ∃ content : List UInt8, content.length = n ∧
  bytes = 0x30 :: (lengthOctets n ++ content)

/-! ## The long form -/

/-- The long form is minimal where it is the one of a number that the short form has no place
for. -/
theorem long_form_iff {digits : List UInt8} (hne : digits ≠ []) :
    ¬ (digits.head? = some 0 ∨ ofBigEndian digits < 0x80) ↔
      lengthOctets (ofBigEndian digits) = UInt8.ofNat (128 + digits.length) :: digits := by
  obtain ⟨a, b, rfl⟩ := List.exists_cons_of_ne_nil hne
  have hhead : ¬ (a :: b).head? = some 0 ↔ octets (ofBigEndian (a :: b)) = a :: b := by
    rw [octets_ofBigEndian, List.head?_cons, Option.some_inj]
  rw [not_or, hhead, Nat.not_lt, lengthOctets]
  by_cases hshort : ofBigEndian (a :: b) < 128
  · rw [if_pos hshort]
    refine iff_of_false (fun h => absurd h.2 (Nat.not_le.mpr hshort)) fun h => ?_
    exact absurd (congrArg List.length h) (by simp)
  · rw [if_neg hshort, and_iff_left (Nat.not_lt.mp hshort)]
    exact ⟨fun h => by rw [h], fun h => (List.cons.inj h).2⟩

/-- The number of the long form stays in the range of numbers that are exact. -/
theorem ofBigEndian_lt_of_length {digits : List UInt8} (h : digits.length ≤ 4) :
    ofBigEndian digits < 2 ^ 32 :=
  (ofBigEndian_lt digits).trans_le (Nat.pow_le_pow_right (by decide) h)

/-! ## The check -/

theorem lengthIssue_eq_none {length available : ℕ} :
    derSequenceIssue.lengthIssue length available = none ↔ length = available := by
  unfold derSequenceIssue.lengthIssue
  split_ifs
  · exact iff_of_false nofun (by omega)
  · exact iff_of_false nofun (by omega)
  · exact iff_of_true rfl (by omega)

/-- A sequence begins with its tag and the first byte of its length. -/
theorem isSequence_cons {first : UInt8} {rest : List UInt8} :
    IsSequence (0x30 :: first :: rest) ↔
      ∃ content : List UInt8, content.length < 2 ^ 32 ∧
      first :: rest = lengthOctets content.length ++ content := by
  constructor
  · rintro ⟨n, hn, content, rfl, heq⟩
    exact ⟨content, hn, (List.cons.inj heq).2⟩
  · rintro ⟨content, hlt, heq⟩
    exact ⟨content.length, hlt, content, rfl, congrArg _ heq⟩

theorem short_form {first : UInt8} (h : first.toNat < 0x80) (rest : List UInt8) :
    derSequenceIssue (0x30 :: first :: rest) = none ↔ IsSequence (0x30 :: first :: rest) := by
  have hissue : derSequenceIssue (0x30 :: first :: rest) =
      derSequenceIssue.lengthIssue first.toNat rest.length :=
    if_pos h
  rw [hissue, lengthIssue_eq_none, isSequence_cons]
  constructor
  · intro hlen
    refine ⟨rest, by omega, ?_⟩
    rw [lengthOctets, if_pos (by omega), ← hlen, UInt8.ofNat_toNat]
    rfl
  · rintro ⟨content, hlt, heq⟩
    unfold lengthOctets at heq
    split_ifs at heq with hshort
    · obtain ⟨rfl, rfl⟩ := List.cons.inj heq
      rw [UInt8.toNat_ofNat']
      omega
    · -- the first byte of the long form has its high bit set
      have hcount := length_octets_le (n := content.length) (k := 4) hlt
      have hfirst := congrArg UInt8.toNat (List.cons.inj heq).1
      rw [UInt8.toNat_ofNat'] at hfirst
      omega

theorem long_form {first : UInt8} (h : ¬ first.toNat < 0x80) (rest : List UInt8) :
    derSequenceIssue (0x30 :: first :: rest) = none ↔ IsSequence (0x30 :: first :: rest) := by
  have hbyte := first.toNat_lt
  rw [isSequence_cons]
  constructor
  · intro hissue
    simp only [derSequenceIssue, if_neg h] at hissue
    split_ifs at hissue with hzero hfour hshort hminimal
    have hlen : (rest.take (first.toNat % 0x80)).length = first.toNat % 0x80 :=
      List.length_take_of_le (Nat.not_lt.mp hshort)
    have hne : rest.take (first.toNat % 0x80) ≠ [] :=
      fun hnil => hzero (hlen ▸ congrArg List.length hnil)
    have hhead : (rest.take (first.toNat % 0x80)).head? = rest.head? := by
      rw [List.head?_take, if_neg hzero]
    have hform := (long_form_iff hne).mp (by rwa [hhead])
    have hcontent : ofBigEndian (rest.take (first.toNat % 0x80)) =
        (rest.drop (first.toNat % 0x80)).length := by
      rw [List.length_drop]
      exact lengthIssue_eq_none.mp hissue
    refine ⟨rest.drop (first.toNat % 0x80), ?_, ?_⟩
    · rw [← hcontent]
      exact ofBigEndian_lt_of_length (hlen.trans_le (Nat.not_lt.mp hfour))
    · have hfirst : UInt8.ofNat (128 + first.toNat % 0x80) = first := by
        rw [← UInt8.toNat_inj, UInt8.toNat_ofNat']
        omega
      rw [← hcontent, hform, hlen, hfirst, List.cons_append, List.take_append_drop]
  · rintro ⟨content, hlt, heq⟩
    have hcount := length_octets_le (n := content.length) (k := 4) hlt
    unfold lengthOctets at heq
    split_ifs at heq with hshort
    · have hfirst := congrArg UInt8.toNat (List.cons.inj heq).1
      rw [UInt8.toNat_ofNat'] at hfirst
      omega
    · have hrest : rest = octets content.length ++ content := (List.cons.inj heq).2
      have hpos : octets content.length ≠ [] := by
        rw [octets_eq (by omega)]
        exact List.append_ne_nil_of_right_ne_nil _ (List.cons_ne_nil _ _)
      have hsize := List.length_pos_iff.mpr hpos
      have hfirst : first.toNat % 0x80 = (octets content.length).length := by
        rw [(List.cons.inj heq).1, UInt8.toNat_ofNat']
        omega
      have hvalue : (octets content.length).foldl (fun (n : ℕ) b => n * 256 + b.toNat) 0 =
          content.length :=
        ofBigEndian_octets content.length
      have hminimal : ¬ ((octets content.length ++ content).head? = some 0 ∨
          content.length < 0x80) := by
        have hform := (long_form_iff hpos).mpr
          (by rw [ofBigEndian_octets, lengthOctets, if_neg hshort])
        rwa [ofBigEndian_octets, ← List.head?_append_of_ne_nil _ hpos] at hform
      subst hrest
      simp only [derSequenceIssue, if_neg h, hfirst, List.take_left' rfl, hvalue]
      rw [if_neg hsize.ne', if_neg (Nat.not_lt.mpr hcount), if_neg (by simp), if_neg hminimal,
        lengthIssue_eq_none]
      simp

/-- The check passes the encodings of one SEQUENCE. -/
theorem derSequenceIssue_eq_none_iff (bytes : List UInt8) :
    derSequenceIssue bytes = none ↔ IsSequence bytes := by
  have hshape : ∀ {bytes : List UInt8}, IsSequence bytes →
      ∃ first rest, bytes = 0x30 :: first :: rest := by
    rintro bytes ⟨n, -, content, -, rfl⟩
    unfold lengthOctets
    split_ifs
    · exact ⟨_, _, rfl⟩
    · exact ⟨_, _, rfl⟩
  constructor
  · intro h
    unfold derSequenceIssue at h
    split at h
    case h_1 first rest =>
      by_cases hfirst : first.toNat < 0x80
      · exact (short_form hfirst rest).mp h
      · exact (long_form hfirst rest).mp h
    case h_2 => cases h
    case h_3 => cases h
  · intro h
    obtain ⟨first, rest, rfl⟩ := hshape h
    by_cases hfirst : first.toNat < 0x80
    · exact (short_form hfirst rest).mpr h
    · exact (long_form hfirst rest).mpr h

/-- No encoding begins another one. -/
theorem eq_of_isSequence {bytes other : List UInt8} (h : IsSequence bytes) (h' : IsSequence other)
    (hbegin : bytes <+: other) : bytes = other := by
  obtain ⟨n, hn, content, rfl, rfl⟩ := h
  obtain ⟨n', hn', content', rfl, rfl⟩ := h'
  obtain ⟨rest, hrest⟩ := hbegin
  have htlv : tlv 0x30 content ++ rest = tlv 0x30 content' ++ [] :=
    hrest.trans (List.append_nil _).symm
  have hlength : (tlv 0x30 content ++ rest).length < 256 ^ 126 := by
    have hle := length_tlv_le 0x30 content' (k := 4) hn'
    rw [htlv, List.append_nil]
    calc (tlv 0x30 content').length ≤ content'.length + 4 + 2 := hle
      _ < 2 ^ 33 := by omega
      _ ≤ 256 ^ 126 := by decide
  obtain ⟨-, rfl, -⟩ := tlv_append_inj hlength htlv
  rfl

/-- The check is exact, and what it passes is free of prefixes. -/
theorem derSequenceIssue_exact : (∀ bytes, derSequenceIssue bytes = none ↔ IsSequence bytes) ∧
    ∀ bytes other, derSequenceIssue bytes = none → derSequenceIssue other = none →
      ¬ (bytes <+: other ∧ bytes ≠ other) := by
  refine ⟨derSequenceIssue_eq_none_iff, fun bytes other h h' => ?_⟩
  rw [derSequenceIssue_eq_none_iff] at h h'
  rintro ⟨hbegin, hne⟩
  exact hne (eq_of_isSequence h h' hbegin)

end IdentityCommon.Jose
