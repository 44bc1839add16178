import IdentityCommon.Lib.AssocList

/-!
# Maps in insertion order

Maps that keep their entries in the order in which their keys were first assigned: association
lists without a key twice.

## Main definitions

- `OrderedMap` — the entries, no key twice
- `get`, `set`, `mapVal` — the value of a key, assignment to a key, a function on every value

## Main results

- `get_set`, `set_set`, `set_of_get` — what an assignment changes
-/

namespace IdentityCommon

open AssocList

universe u v w

structure OrderedMap (α : Type u) (β : Type v) where
  entries : List (α × β)
  nodup : (keys entries).Nodup

namespace OrderedMap

variable {α : Type u} {β : Type v} {γ : Type w}

@[ext] theorem ext {m m' : OrderedMap α β} (h : m.entries = m'.entries) : m = m' := by
  cases m
  cases m'
  cases h
  rfl

instance [DecidableEq α] [DecidableEq β] : DecidableEq (OrderedMap α β) := fun m m' =>
  decidable_of_iff (m.entries = m'.entries) ⟨ext, congrArg entries⟩

def empty : OrderedMap α β := ⟨[], List.nodup_nil⟩

def mapVal (f : β → γ) (m : OrderedMap α β) : OrderedMap α γ :=
  ⟨AssocList.mapVal f m.entries, (keys_mapVal f m.entries).symm ▸ m.nodup⟩

theorem mapVal_mapVal {δ : Type*} (g : γ → δ) (f : β → γ) (m : OrderedMap α β) :
    (m.mapVal f).mapVal g = m.mapVal (g ∘ f) :=
  ext List.map_map

theorem mapVal_id (m : OrderedMap α β) : m.mapVal id = m := ext (List.map_id _)

variable [DecidableEq α]

def get (m : OrderedMap α β) (key : α) : Option β := m.entries.lookup key

/-- Assignment to `key`: in its place if there is one, else at the end. -/
def set (m : OrderedMap α β) (key : α) (val : β) : OrderedMap α β :=
  ⟨insert key val m.entries, nodup_insert val m.nodup⟩

@[simp] theorem get_empty (key : α) : (empty : OrderedMap α β).get key = none := rfl

theorem get_eq_some {m : OrderedMap α β} {key : α} {val : β} :
    m.get key = some val ↔ (key, val) ∈ m.entries :=
  (mem_iff_lookup m.nodup).symm

theorem get_set (m : OrderedMap α β) (key k : α) (val : β) :
    (m.set key val).get k = if k = key then some val else m.get k :=
  lookup_insert key k val m.entries

@[simp] theorem get_set_self (m : OrderedMap α β) (key : α) (val : β) :
    (m.set key val).get key = some val := by
  rw [get_set, if_pos rfl]

theorem get_set_of_ne (m : OrderedMap α β) {key k : α} (h : k ≠ key) (val : β) :
    (m.set key val).get k = m.get k := by
  rw [get_set, if_neg h]

@[simp] theorem set_set (m : OrderedMap α β) (key : α) (val val' : β) :
    (m.set key val').set key val = m.set key val :=
  ext (insert_insert_self key val val' m.entries)

theorem set_of_get {m : OrderedMap α β} {key : α} {val : β} (h : m.get key = some val) :
    m.set key val = m :=
  ext (insert_of_lookup h)

@[simp] theorem get_mapVal (f : β → γ) (m : OrderedMap α β) (key : α) :
    (m.mapVal f).get key = (m.get key).map f :=
  lookup_mapVal f key m.entries

@[simp] theorem mapVal_set (f : β → γ) (m : OrderedMap α β) (key : α) (val : β) :
    (m.set key val).mapVal f = (m.mapVal f).set key (f val) :=
  ext (mapVal_insert f key val m.entries)

end OrderedMap

end IdentityCommon
