import Mathlib.Data.List.Basic

/-!
# Operations on strings

`split` and `join` at a separator of one character, and `toLowerCase`.

## Main results

- `join_split` — joining undoes splitting
- `split_join` — splitting undoes joining parts without the separator
-/

namespace IdentityCommon.Ecma

def splitChars (sep : Char) : List Char → List (List Char)
  | [] => [[]]
  | c :: cs =>
    if c = sep then [] :: splitChars sep cs
    else match splitChars sep cs with
      | [] => [[c]]
      | part :: parts => (c :: part) :: parts

/-- `s.split(sep)`. -/
def split (s : String) (sep : Char) : List String := (splitChars sep s.toList).map String.ofList

/-- `parts.join(sep)`. -/
def join (parts : List String) (sep : Char) : String :=
  String.ofList ([sep].intercalate (parts.map String.toList))

/-- `s.toLowerCase()`, as far as letters of ASCII go: besides their capitals only the Kelvin sign
has one of them as its lower case. -/
def toLowerCase (s : String) : String :=
  String.ofList (s.toList.map fun c => if c = '\u212a' then 'k' else c.toLower)

theorem exists_splitChars (sep : Char) (cs : List Char) :
    ∃ part parts, splitChars sep cs = part :: parts := by
  cases cs with
  | nil => exact ⟨_, _, rfl⟩
  | cons c cs =>
    rw [splitChars]
    split
    · exact ⟨_, _, rfl⟩
    · split
      · exact ⟨_, _, rfl⟩
      · exact ⟨_, _, rfl⟩

theorem intercalate_splitChars (sep : Char) (cs : List Char) :
    [sep].intercalate (splitChars sep cs) = cs := by
  induction cs with
  | nil => rfl
  | cons c cs ih =>
    obtain ⟨part, parts, h⟩ := exists_splitChars sep cs
    rw [splitChars]
    split
    case isTrue hc =>
      rw [h] at ih ⊢
      rw [List.intercalate_cons_cons, ih, hc]
      rfl
    case isFalse hc =>
      rw [h] at ih ⊢
      cases parts with
      | nil =>
        rw [List.intercalate_singleton] at ih ⊢
        rw [ih]
      | cons part' parts =>
        rw [List.intercalate_cons_cons] at ih ⊢
        rw [← ih]
        rfl

theorem join_split (s : String) (sep : Char) : join (split s sep) sep = s := by
  rw [join, split, List.map_map]
  have h : String.toList ∘ String.ofList = id := funext fun _ => String.toList_ofList
  rw [h, List.map_id, intercalate_splitChars, String.ofList_toList]

theorem not_mem_of_mem_splitChars {sep : Char} {cs part : List Char}
    (h : part ∈ splitChars sep cs) : sep ∉ part := by
  induction cs generalizing part with
  | nil =>
    obtain rfl := List.mem_singleton.mp h
    nofun
  | cons c cs ih =>
    obtain ⟨first, rest, hsplit⟩ := exists_splitChars sep cs
    rw [splitChars, hsplit] at h
    split at h
    case isTrue =>
      rcases List.mem_cons.mp h with rfl | h
      · nofun
      · exact ih (hsplit ▸ h)
    case isFalse hc =>
      rcases List.mem_cons.mp h with rfl | h
      · have hfirst : sep ∉ first := ih (hsplit ▸ List.mem_cons_self)
        exact List.not_mem_cons_of_ne_of_not_mem (Ne.symm hc) hfirst
      · exact ih (hsplit ▸ List.mem_cons_of_mem _ h)

/-- No part has the separator in it. -/
theorem not_mem_of_mem_split {s part : String} {sep : Char} (h : part ∈ split s sep) :
    sep ∉ part.toList := by
  obtain ⟨cs, hcs, rfl⟩ := List.mem_map.mp h
  rw [String.toList_ofList]
  exact not_mem_of_mem_splitChars hcs

theorem splitChars_of_not_mem {sep : Char} {cs : List Char} (h : sep ∉ cs) :
    splitChars sep cs = [cs] := by
  induction cs with
  | nil => rfl
  | cons c cs ih =>
    obtain ⟨hc, hcs⟩ := not_or.mp (List.mem_cons.not.mp h)
    rw [splitChars, if_neg (Ne.symm hc), ih hcs]

theorem splitChars_append_cons (sep : Char) (part cs : List Char) :
    splitChars sep (part ++ sep :: cs) = splitChars sep part ++ splitChars sep cs := by
  induction part with
  | nil =>
    rw [List.nil_append, splitChars.eq_2, if_pos rfl]
    rfl
  | cons c part ih =>
    rw [List.cons_append, splitChars.eq_2, splitChars.eq_2, ih]
    split
    case isTrue => rfl
    case isFalse =>
      obtain ⟨first, parts, h⟩ := exists_splitChars sep part
      rw [h, List.cons_append]
      rfl

theorem splitChars_append {sep : Char} {part : List Char} (h : sep ∉ part) (cs : List Char) :
    splitChars sep (part ++ sep :: cs) = part :: splitChars sep cs := by
  rw [splitChars_append_cons, splitChars_of_not_mem h, List.singleton_append]

theorem splitChars_intercalate {sep : Char} {parts : List (List Char)} (hne : parts ≠ [])
    (h : ∀ part ∈ parts, sep ∉ part) : splitChars sep ([sep].intercalate parts) = parts := by
  induction parts with
  | nil => exact absurd rfl hne
  | cons part parts ih =>
    obtain ⟨hpart, hparts⟩ := List.forall_mem_cons.mp h
    cases parts with
    | nil => rw [List.intercalate_singleton, splitChars_of_not_mem hpart]
    | cons part' parts =>
      rw [List.intercalate_cons_cons, List.append_assoc, List.singleton_append,
        splitChars_append hpart, ih (List.cons_ne_nil _ _) hparts]

/-- Splitting undoes joining parts without the separator. -/
theorem split_join {parts : List String} {sep : Char} (hne : parts ≠ [])
    (h : ∀ part ∈ parts, sep ∉ part.toList) :
    split (join parts sep) sep = parts := by
  rw [split, join, String.toList_ofList, splitChars_intercalate, List.map_map]
  · have hid : String.ofList ∘ String.toList = id := funext fun _ => String.ofList_toList
    rw [hid, List.map_id]
  · exact fun h => hne (List.map_eq_nil_iff.mp h)
  · intro part hpart
    obtain ⟨s, hs, rfl⟩ := List.mem_map.mp hpart
    exact h s hs

/-- Parts that are not empty and without the separator are determined by the text that joins
them. -/
theorem join_injective {parts parts' : List String} {sep : Char}
    (h : ∀ part ∈ parts, part ≠ "" ∧ sep ∉ part.toList)
    (h' : ∀ part ∈ parts', part ≠ "" ∧ sep ∉ part.toList) (heq : join parts sep = join parts' sep) :
    parts = parts' := by
  have hnil : ∀ {ps : List String}, (∀ part ∈ ps, part ≠ "" ∧ sep ∉ part.toList) →
      join ps sep = "" → ps = [] := by
    intro ps hps hempty
    by_contra hne
    have hsplit := split_join hne fun part hpart => (hps part hpart).2
    rw [hempty] at hsplit
    exact (hps "" (hsplit ▸ List.mem_singleton_self _)).1 rfl
  cases parts with
  | nil => exact (hnil h' heq.symm).symm
  | cons part parts =>
    have hne : parts' ≠ [] :=
      fun hempty => List.cons_ne_nil part parts (hnil h (by rw [heq, hempty]; rfl))
    rw [← split_join (List.cons_ne_nil part parts) fun p hp => (h p hp).2, heq,
      split_join hne fun p hp => (h' p hp).2]

theorem repr_injective : Function.Injective Nat.repr := by
  intro m n h
  have hdigits := String.ofList_injective h
  rw [← Nat.ofDigitChars_toDigits (b := 10) (n := m) (by decide) (by decide), hdigits,
    Nat.ofDigitChars_toDigits (by decide) (by decide)]

/-- The digits of a number are none of the characters that texts are joined with. -/
theorem isDigit_of_mem_repr {n : ℕ} {c : Char} (h : c ∈ (Nat.repr n).toList) : c.isDigit := by
  rw [Nat.repr, String.toList_ofList] at h
  exact Nat.isDigit_of_mem_toDigits (by decide) (by decide) h

theorem repr_ne_empty (n : ℕ) : Nat.repr n ≠ "" := by
  intro h
  have htoList := congrArg String.toList h
  rw [Nat.repr, String.toList_ofList] at htoList
  exact Nat.toDigits_ne_nil htoList

end IdentityCommon.Ecma
