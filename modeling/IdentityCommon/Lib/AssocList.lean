import Mathlib.Data.List.Basic
import Mathlib.Data.List.Nodup

/-!
# Association lists

Lists of key and value pairs read by `List.lookup`, and written so that a key stays where it
was first put.

## Main definitions

- `keys`, `insert`, `mapVal` — the keys, assignment to a key, a function on every value

## Main results

- `lookup_insert`, `nodup_insert` — what assignment does to the keys and the values
- `lookup_of_mem` — with distinct keys every pair is found
-/

namespace IdentityCommon.AssocList

variable {α β γ : Type*}

def keys (l : List (α × β)) : List α := l.map Prod.fst

/-- A function applied to every value. -/
def mapVal (f : β → γ) (l : List (α × β)) : List (α × γ) := l.map fun m => (m.1, f m.2)

@[simp] theorem keys_nil : keys ([] : List (α × β)) = [] := rfl

@[simp] theorem keys_cons (m : α × β) (l : List (α × β)) : keys (m :: l) = m.1 :: keys l := rfl

@[simp] theorem keys_mapVal (f : β → γ) (l : List (α × β)) : keys (mapVal f l) = keys l := by
  simp [keys, mapVal]

theorem mem_keys_of_mem {m : α × β} {l : List (α × β)} (h : m ∈ l) : m.1 ∈ keys l :=
  List.mem_map_of_mem h

variable [DecidableEq α]

/-- Assignment to `key`: in its place if there is one, else at the end. -/
def insert (key : α) (val : β) : List (α × β) → List (α × β)
  | [] => [(key, val)]
  | m :: l => if m.1 = key then (key, val) :: l else m :: insert key val l

theorem lookup_cons_of_eq (key : α) (val : β) (l : List (α × β)) :
    ((key, val) :: l).lookup key = some val := by
  simp

theorem lookup_cons_of_ne {key : α} {m : α × β} (h : m.1 ≠ key) (l : List (α × β)) :
    (m :: l).lookup key = l.lookup key := by
  obtain ⟨k, v⟩ := m
  rw [List.lookup_cons, beq_false_of_ne (Ne.symm h)]

theorem mem_of_lookup {key : α} {val : β} {l : List (α × β)} (h : l.lookup key = some val) :
    (key, val) ∈ l := by
  obtain ⟨l₁, l₂, rfl, -⟩ := List.lookup_eq_some_iff.mp h
  simp

theorem lookup_eq_none_iff {key : α} {l : List (α × β)} : l.lookup key = none ↔ key ∉ keys l := by
  induction l with
  | nil => simp
  | cons m l ih =>
    by_cases hm : m.1 = key
    · obtain ⟨k, v⟩ := m
      obtain rfl : k = key := hm
      simp
    · rw [lookup_cons_of_ne hm, ih]
      simp [Ne.symm hm]

theorem lookup_isSome_iff {key : α} {l : List (α × β)} :
    (l.lookup key).isSome ↔ key ∈ keys l := by
  rw [← not_iff_not, ← lookup_eq_none_iff, Bool.not_eq_true, Option.isSome_eq_false_iff,
    Option.isNone_iff_eq_none]

/-- With distinct keys every pair is the one that is found. -/
theorem lookup_of_mem {key : α} {val : β} {l : List (α × β)} (hn : (keys l).Nodup)
    (h : (key, val) ∈ l) : l.lookup key = some val := by
  induction l with
  | nil => cases h
  | cons m l ih =>
    obtain ⟨hm, hn⟩ := List.nodup_cons.mp hn
    rcases List.mem_cons.mp h with rfl | h
    · simp
    · rw [lookup_cons_of_ne, ih hn h]
      intro hk
      exact hm (hk ▸ mem_keys_of_mem h)

theorem lookup_insert (key k : α) (val : β) (l : List (α × β)) :
    (insert key val l).lookup k = if k = key then some val else l.lookup k := by
  induction l with
  | nil =>
    by_cases hk : k = key
    · simp [insert, hk]
    · simp [insert, hk]
  | cons m l ih =>
    obtain ⟨k', v⟩ := m
    simp only [insert]
    by_cases hm : k' = key
    · subst hm
      by_cases hk : k = k'
      · simp [hk]
      · rw [if_pos rfl, if_neg hk, lookup_cons_of_ne (Ne.symm hk), lookup_cons_of_ne (Ne.symm hk)]
    · rw [if_neg hm]
      by_cases hk : k = k'
      · subst hk
        simp [hm]
      · rw [lookup_cons_of_ne (Ne.symm hk), lookup_cons_of_ne (Ne.symm hk), ih]

theorem keys_insert (key : α) (val : β) (l : List (α × β)) :
    keys (insert key val l) = if key ∈ keys l then keys l else keys l ++ [key] := by
  induction l with
  | nil => simp [insert]
  | cons m l ih =>
    simp only [insert]
    by_cases hm : m.1 = key
    · simp [hm]
    · rw [if_neg hm, keys_cons, ih, keys_cons]
      by_cases hk : key ∈ keys l
      · simp [hk]
      · simp [hk, Ne.symm hm]

theorem insert_of_not_mem {key : α} {val : β} {l : List (α × β)} (h : key ∉ keys l) :
    insert key val l = l ++ [(key, val)] := by
  induction l with
  | nil => rfl
  | cons m l ih =>
    obtain ⟨hm, hl⟩ := not_or.mp (List.mem_cons.not.mp h)
    rw [insert, if_neg (Ne.symm hm), ih hl]
    rfl

theorem mem_of_mem_insert {key : α} {val : β} {l : List (α × β)} {m : α × β}
    (h : m ∈ insert key val l) :
    m = (key, val) ∨ m ∈ l := by
  induction l with
  | nil => exact Or.inl (List.mem_singleton.mp h)
  | cons m' l ih =>
    rw [insert] at h
    split at h
    case isTrue => exact (List.mem_cons.mp h).imp_right (List.mem_cons_of_mem _)
    case isFalse =>
      obtain rfl | h := List.mem_cons.mp h
      · exact Or.inr List.mem_cons_self
      · exact (ih h).imp_right (List.mem_cons_of_mem _)

theorem nodup_insert {key : α} (val : β) {l : List (α × β)} (h : (keys l).Nodup) :
    (keys (insert key val l)).Nodup := by
  rw [keys_insert]
  split
  case isTrue => exact h
  case isFalse hk => exact h.append (List.nodup_singleton _) (by simpa using hk)

theorem mem_iff_lookup {key : α} {val : β} {l : List (α × β)} (h : (keys l).Nodup) :
    (key, val) ∈ l ↔ l.lookup key = some val :=
  ⟨lookup_of_mem h, mem_of_lookup⟩

/-- Assignments to distinct new keys are put at the end. -/
theorem foldl_insert {l : List (α × β)} : ∀ {start : List (α × β)}, (keys (start ++ l)).Nodup →
    l.foldl (fun acc m => insert m.1 m.2 acc) start = start ++ l := by
  induction l with
  | nil => simp
  | cons m l ih =>
    intro start h
    have hins : insert m.1 m.2 start = start ++ [m] := by
      refine insert_of_not_mem fun hm => ?_
      simp only [keys, List.map_append, List.map_cons, List.nodup_append] at h
      exact h.2.2 m.1 hm m.1 List.mem_cons_self rfl
    rw [List.foldl_cons, hins, ih (by simpa using h)]
    simp

/-- The second of two assignments to a key is the one that counts. -/
theorem insert_insert_self (key : α) (val val' : β) (l : List (α × β)) :
    insert key val (insert key val' l) = insert key val l := by
  induction l with
  | nil => simp [insert]
  | cons m l ih =>
    by_cases hm : m.1 = key
    · simp [insert, hm]
    · simp [insert, hm, ih]

/-- An assignment of the value that a key has changes nothing. -/
theorem insert_of_lookup {key : α} {val : β} {l : List (α × β)} (h : l.lookup key = some val) :
    insert key val l = l := by
  induction l with
  | nil => cases h
  | cons m l ih =>
    obtain ⟨k, v⟩ := m
    rw [insert]
    split
    case isTrue heq =>
      cases heq
      rw [lookup_cons_of_eq] at h
      cases h
      rfl
    case isFalse hne =>
      rw [lookup_cons_of_ne hne] at h
      rw [ih h]

/-- An assignment to a key that is there commutes with one to another key. -/
theorem insert_comm {key k : α} (val val' : β) {l : List (α × β)} (hk : k ≠ key)
    (h : key ∈ keys l) : insert key val (insert k val' l) = insert k val' (insert key val l) := by
  induction l with
  | nil => cases h
  | cons m l ih =>
    by_cases hm : m.1 = key
    · simp [insert, hm, Ne.symm hk]
    · have hl : key ∈ keys l := (List.mem_cons.mp h).resolve_left (Ne.symm hm)
      by_cases hm' : m.1 = k
      · simp [insert, hm', hk]
      · simp [insert, hm, hm', ih hl]

theorem mapVal_insert (f : β → γ) (key : α) (val : β) (l : List (α × β)) :
    mapVal f (insert key val l) = insert key (f val) (mapVal f l) := by
  induction l with
  | nil => rfl
  | cons m l ih =>
    by_cases hm : m.1 = key
    · simp [insert, mapVal, hm]
    · simp only [mapVal] at ih
      simp [insert, mapVal, hm, ih]

theorem lookup_mapVal (f : β → γ) (key : α) (l : List (α × β)) :
    (mapVal f l).lookup key = (l.lookup key).map f := by
  induction l with
  | nil => rfl
  | cons m l ih =>
    by_cases hm : m.1 = key
    · obtain ⟨k, v⟩ := m
      obtain rfl : k = key := hm
      simp [mapVal]
    · rw [lookup_cons_of_ne hm, ← ih]
      exact lookup_cons_of_ne (m := (m.1, f m.2)) hm _

end IdentityCommon.AssocList
