import IdentityCommon.Dcql.PathPointer
import IdentityCommon.Lib.DigitString

/-!
# Deep merge

`deepMerge` puts what one claim discloses into what the claims before it disclose.

## Main definitions

- `deepMerge`, `setValue` — the merge
- `entry` — what a value discloses under one name or index
- `mergeValue` — what `deepMerge` does with one entry

## Main results

- `deepMerge_merged` — the entries of a merge
- `deepMerge_total` — when a merge succeeds
-/

namespace IdentityCommon.Dcql

open Ecma AssocList Value

structure DcqlError where
  message : String
  code : String
  deriving DecidableEq

def isMergeableObject : Value → Bool
  | .arr _ | .obj _ => true
  | .leaf _ => false

/-- `Number(key)` for the key of an array, of a name that is not all digits `none`. A name is only
assigned to an array where it is the `status` of `NEVER`. -/
def keyIndex : Key → Option ℕ
  | .index n => some n
  | .name s =>
    if s ≠ "" ∧ s.toList.all Char.isDigit then some (DigitString.parseDigits 10 s.toList) else none

/-- The name that a key is in an object. -/
def keyName : Key → String
  | .name s => s
  | .index n => toString n

/-- The own property of an array or object under the key of an entry. -/
def ownProperty (key : Key) : Value → Option Value
  | .obj members => members.lookup (keyName key)
  | .arr items => match key with
    | .index n => items[n]?
    | .name s =>
      if s = "length" then some (.num (.ofInt items.length))
      else (keyIndex key).bind fun n => if toString n = s then items[n]? else none
  | .leaf _ => none

/-- `newTarget[index] = value` after the array has been extended. -/
def setItem (items : List Value) (index : ℕ) (value : Value) : List Value :=
  (items ++ List.replicate (index + 1 - items.length) Value.notDisclosed).set index value

def setValue (target : Value) (key : Key) (value : Value) : Except DcqlError Value :=
  match target with
  | .arr items => match keyIndex key with
    | some n => .ok (.arr (setItem items n value))
    | none => .ok (.arr [])
  | .obj members => .ok (.obj (insert (keyName key) value members))
  | .leaf _ =>
    .error ⟨"Unsupported type for deep merge. Only primitive types or Array and Object are " ++
      "supported", "INTERNAL_SERVER_ERROR"⟩

def notMergeable (which : String) : DcqlError where
  message := which ++ " value provided to deepMerge is neither an array or object."
  code := "PARSE_ERROR"

/-- One round of the loop of `deepMerge`: an entry of the source, `merge` merges its value. -/
def mergeEntry (newTarget : Value) (key : Key) (val : Value)
    (merge : Value → Except DcqlError Value) : Except DcqlError Value :=
  if isMergeableObject val then
    let targetVal := (ownProperty key newTarget).getD .undefined
    if isPresent targetVal && !isMergeableObject targetVal then .error (notMergeable "target")
    else do
      let validTarget := if isMergeableObject targetVal then targetVal else val.head
      let newValue ← merge validTarget
      setValue newTarget key newValue
  else if isPresent val then setValue newTarget key val
  else .ok newTarget

mutual

def deepMerge : Value → Value → Except DcqlError Value
  | .leaf _, _ => .error (notMergeable "source")
  | .arr items, target =>
    if isMergeableObject target then mergeItems 0 items target else .error (notMergeable "target")
  | .obj members, target =>
    if isMergeableObject target then mergeMembers members target else .error (notMergeable "target")

/-- The loop over the entries of an array, from `index` on. -/
def mergeItems (index : ℕ) : List Value → Value → Except DcqlError Value
  | [], target => .ok target
  | val :: items, target => do
    let newTarget ← mergeEntry target (.index index) val (deepMerge val)
    mergeItems (index + 1) items newTarget

/-- The loop over the entries of an object. -/
def mergeMembers : List (String × Value) → Value → Except DcqlError Value
  | [], target => .ok target
  | (key, val) :: members, target => do
    let newTarget ← mergeEntry target (.name key) val (deepMerge val)
    mergeMembers members newTarget

end

/-! ## Entries -/

/-- What a value discloses under a key. -/
def entry (key : Key) (v : Value) : Option Value := (v.child key).filter isPresent

theorem isPresent_of_entry {key : Key} {v a : Value} (h : entry key v = some a) : isPresent a :=
  (Option.filter_eq_some_iff.mp h).2

theorem child_of_entry {key : Key} {v a : Value} (h : entry key v = some a) :
    v.child key = some a :=
  (Option.filter_eq_some_iff.mp h).1

@[simp] theorem entry_head (key : Key) (v : Value) : entry key v.head = none := by
  cases v <;> cases key <;> rfl

/-- What becomes of the entry `old` of the target when `val` is merged into it. -/
def mergeValue (val : Value) (old : Option Value) : Except DcqlError Value :=
  if isMergeableObject val then
    match old with
    | none => deepMerge val val.head
    | some o => if isMergeableObject o then deepMerge val o else .error (notMergeable "target")
  else .ok val

/-- The keys of the entries of a container. -/
def Fits : Key → Value → Prop
  | .name _, .obj _ => True
  | .index _, .arr _ => True
  | _, _ => False

/-- Assigning to the second key of a container makes room for the first one. -/
def MakesRoom : Key → Key → Prop
  | .name s, .name s' => s = s'
  | .index n, .index n' => n ≤ n'
  | _, _ => False

/-- The names of the members at the top are distinct. -/
def DistinctTop : Value → Prop
  | .obj members => (keys members).Nodup
  | _ => True

theorem entry_setItem {value : Value} (hv : isPresent value) (items : List Value) (index n : ℕ) :
    entry (.index n) (.arr (setItem items index value)) =
      if n = index then some value else entry (.index n) (.arr items) := by
  simp only [entry, child_index_arr, setItem]
  by_cases hn : n = index
  · subst hn
    have hlt : n < (items ++ List.replicate (n + 1 - items.length) Value.notDisclosed).length := by
      simp only [List.length_append, List.length_replicate]
      omega
    simp [List.getElem?_set_self hlt, hv]
  · rw [if_neg hn, List.getElem?_set_ne (Ne.symm hn)]
    by_cases hl : n < items.length
    · rw [List.getElem?_append_left hl]
    · rw [List.getElem?_append_right (by omega), List.getElem?_replicate,
        List.getElem?_eq_none (by omega)]
      split
      · rfl
      · rfl

theorem absent_setItem {items : List Value} {index n : ℕ} {value a : Value} (hv : isPresent value)
    (h : (setItem items index value)[n]? = some a) (ha : isPresent a = false) :
    a = .notDisclosed ∨ items[n]? = some a := by
  by_cases hn : n = index
  · have he := entry_setItem hv items index n
    rw [if_pos hn, entry, child_index_arr, h, Option.filter_some_neg (by simp [ha])] at he
    cases he
  · rw [setItem, List.getElem?_set_ne (Ne.symm hn)] at h
    by_cases hl : n < items.length
    · exact .inr (by rwa [List.getElem?_append_left hl] at h)
    · rw [List.getElem?_append_right (by omega), List.getElem?_replicate] at h
      split at h
      · exact .inl (Option.some.inj h).symm
      · cases h

theorem isSome_setItem {items : List Value} {index n : ℕ} {value : Value}
    (h : (setItem items index value)[n]?.isSome) : n < items.length ∨ n ≤ index := by
  rw [Option.isSome_iff_ne_none, Ne, List.getElem?_eq_none_iff, not_le, setItem, List.length_set,
    List.length_append, List.length_replicate] at h
  omega

/-- `out` is the container `t` after an assignment to `key`. -/
structure Assigned (key : Key) (value t out : Value) : Prop where
  head : out.head = t.head
  distinct : DistinctTop out
  entry_eq : ∀ k, entry k out = if k = key then some value else entry k t
  slot : ∀ k, (out.child k).isSome → (t.child k).isSome ∨ MakesRoom k key
  absent : ∀ k a, out.child k = some a → isPresent a = false → a = .notDisclosed ∨
    t.child k = some a

/-- Assigning an entry to a container of its kind. -/
theorem setValue_entry {t value : Value} {key : Key} (hf : Fits key t) (ht : DistinctTop t)
    (hv : isPresent value) : ∃ out, setValue t key value = .ok out ∧ Assigned key value t out := by
  match key, t, hf with
  | .name s, .obj members, _ =>
    refine ⟨_, rfl, rfl, nodup_insert value ht, fun k => ?_, fun k hk => ?_, fun k a hk ha => ?_⟩
    · match k with
      | .name s' =>
        simp only [entry, child_name_obj, lookup_insert, keyName, Key.name.injEq]
        split
        · simp [hv]
        · rfl
      | .index n => simp [entry]
    · match k with
      | .name s' =>
        simp only [child_name_obj, lookup_insert, keyName] at hk ⊢
        by_cases hs : s' = s
        · exact .inr hs
        · exact .inl (by simpa [hs] using hk)
      | .index n => cases hk
    · match k with
      | .name s' =>
        simp only [child_name_obj, lookup_insert, keyName] at hk ⊢
        by_cases hs : s' = s
        · rw [if_pos hs] at hk
          cases hk
          rw [hv] at ha
          cases ha
        · exact .inr (by simpa [hs] using hk)
      | .index n => cases hk
  | .index n, .arr items, _ =>
    refine ⟨_, rfl, rfl, trivial, fun k => ?_, fun k hk => ?_, fun k a hk ha => ?_⟩
    · match k with
      | .name s => simp [entry]
      | .index n' => simpa using entry_setItem hv items n n'
    · match k with
      | .name s => cases hk
      | .index n' => exact (isSome_setItem hk).imp (fun h => by simpa using h) id
    · match k with
      | .name s => cases hk
      | .index n' => exact absent_setItem hv hk ha

theorem ownProperty_of_fits {t : Value} {key : Key} (hf : Fits key t) :
    ownProperty key t = t.child key := by
  match key, t, hf with
  | .name s, .obj members, _ => rfl
  | .index n, .arr items, _ => rfl

theorem isPresent_of_isMergeableObject {v : Value} (h : isMergeableObject v) : isPresent v := by
  cases v with
  | leaf l => cases h
  | arr items => rfl
  | obj members => rfl

theorem isMergeableObject_undefined : isMergeableObject .undefined = false := rfl

/-- One round of the loop in terms of entries. -/
theorem mergeEntry_eq {t val : Value} {key : Key} (hf : Fits key t) :
    mergeEntry t key val (deepMerge val) =
      if isPresent val then (do
        let m ← mergeValue val (entry key t)
        setValue t key m)
      else .ok t := by
  have hold : ∀ a, t.child key = some a → isPresent a = false → isMergeableObject a = false := by
    intro a _ ha
    by_contra hm
    rw [isPresent_of_isMergeableObject (by simpa using hm)] at ha
    cases ha
  unfold mergeEntry mergeValue
  by_cases hm : isMergeableObject val
  · rw [if_pos hm, if_pos (isPresent_of_isMergeableObject hm), if_pos hm,
      ownProperty_of_fits hf, entry]
    cases hc : t.child key with
    | none => simp [isPresent, isMergeableObject_undefined]
    | some a =>
      by_cases ha : isPresent a
      · rw [Option.filter_some_pos ha]
        by_cases hma : isMergeableObject a
        · simp [hma]
        · simp [ha, hma, bind, Except.bind]
      · have ha : isPresent a = false := by simpa using ha
        rw [Option.filter_some_neg (by simp [ha])]
        simp [ha, hold a hc ha]
  · rw [if_neg hm]
    by_cases hp : isPresent val
    · simp [hp, hm, bind, Except.bind]
    · simp [hp]

/-! ## Loops -/

/-- The entries of an array or object. -/
def entries : Value → List (Key × Value)
  | .leaf _ => []
  | .arr items => items.zipIdx.map fun e => (.index e.2, e.1)
  | .obj members => members.map fun m => (.name m.1, m.2)

/-- A loop over entries, in order. -/
def mergeEntries (l : List (Key × Value)) (t : Value) : Except DcqlError Value :=
  l.foldlM (fun t e => mergeEntry t e.1 e.2 (deepMerge e.2)) t

theorem mergeMembers_eq (members : List (String × Value)) :
    ∀ t, mergeMembers members t = mergeEntries (members.map fun m => (.name m.1, m.2)) t := by
  induction members with
  | nil => exact fun _ => rfl
  | cons m members ih =>
    intro t
    obtain ⟨key, val⟩ := m
    simp only [mergeMembers, mergeEntries, List.map_cons, List.foldlM_cons, ih]

theorem mergeItems_eq (items : List Value) : ∀ index t, mergeItems index items t =
    mergeEntries ((items.zipIdx index).map fun e => (.index e.2, e.1)) t := by
  induction items with
  | nil => exact fun _ _ => rfl
  | cons val items ih =>
    intro index t
    simp only [mergeItems, mergeEntries, List.zipIdx_cons, List.map_cons, List.foldlM_cons, ih]

theorem deepMerge_eq {s t : Value} (hs : isMergeableObject s) (ht : isMergeableObject t) :
    deepMerge s t = mergeEntries (entries s) t := by
  cases s with
  | leaf l => cases hs
  | arr items => rw [deepMerge, if_pos ht, mergeItems_eq]; rfl
  | obj members => rw [deepMerge, if_pos ht, mergeMembers_eq]; rfl

theorem mem_entries {s a : Value} {key : Key} (hs : DistinctTop s) :
    (key, a) ∈ entries s ↔ s.child key = some a := by
  cases s with
  | leaf l => simp [entries]
  | arr items =>
    cases key with
    | name k => simp [entries]
    | index n => simp [entries, List.mem_zipIdx_iff_getElem?]
  | obj members =>
    cases key with
    | name k =>
      simp only [entries, List.mem_map, Prod.mk.injEq, Key.name.injEq, child_name_obj]
      constructor
      · rintro ⟨m, hm, rfl, rfl⟩
        exact lookup_of_mem hs hm
      · exact fun h => ⟨(k, a), mem_of_lookup h, rfl, rfl⟩
    | index n => simp [entries]

theorem nodup_entries {s : Value} (hs : DistinctTop s) : (keys (entries s)).Nodup := by
  cases s with
  | leaf l => exact List.nodup_nil
  | arr items =>
    have hk : keys (entries (arr items)) = (items.zipIdx.map Prod.snd).map Key.index := by
      rw [keys, entries, List.map_map, List.map_map]
      rfl
    rw [hk, List.zipIdx_map_snd]
    exact List.Nodup.map (fun n m h => by cases h; rfl) List.nodup_range'
  | obj members =>
    have hk : keys (entries (obj members)) = (keys members).map Key.name := by
      simp [keys, entries]
    rw [hk]
    exact hs.map fun n m h => by cases h; rfl

theorem lookup_entries {s : Value} (hs : DistinctTop s) (key : Key) :
    (entries s).lookup key = s.child key := by
  cases hc : s.child key with
  | some a => exact lookup_of_mem (nodup_entries hs) ((mem_entries hs).mpr hc)
  | none =>
    rw [lookup_eq_none_iff]
    intro hk
    obtain ⟨⟨k, a⟩, he, rfl⟩ := List.mem_map.mp hk
    rw [(mem_entries hs).mp he] at hc
    cases hc

theorem fits_entries {s t : Value} (h : s.head = t.head) : ∀ e ∈ entries s, Fits e.1 t := by
  intro e he
  match s, t, h with
  | .leaf _, _, _ => cases he
  | .arr items, .arr _, _ =>
    obtain ⟨m, -, rfl⟩ := List.mem_map.mp he
    trivial
  | .obj members, .obj _, _ =>
    obtain ⟨m, -, rfl⟩ := List.mem_map.mp he
    trivial

theorem isMergeableObject_setValue {t value out : Value} {key : Key}
    (h : setValue t key value = .ok out) : isMergeableObject out := by
  unfold setValue at h
  split at h
  · split at h
    · cases h; rfl
    · cases h; rfl
  · cases h; rfl
  · cases h

theorem isMergeableObject_mergeEntry {t val out : Value} {key : Key}
    {merge : Value → Except DcqlError Value} (ht : isMergeableObject t)
    (h : mergeEntry t key val merge = .ok out) : isMergeableObject out := by
  unfold mergeEntry at h
  split at h
  · simp only at h
    split at h
    · cases h
    · obtain ⟨m, -, h⟩ := Except.bind_eq_ok.mp h
      exact isMergeableObject_setValue h
  · split at h
    · exact isMergeableObject_setValue h
    · cases h
      exact ht

theorem isMergeableObject_mergeEntries {l : List (Key × Value)} :
    ∀ {t out : Value}, isMergeableObject t → mergeEntries l t = .ok out →
    isMergeableObject out := by
  induction l with
  | nil =>
    rintro t out ht h
    cases h
    exact ht
  | cons e l ih =>
    intro t out ht h
    rw [mergeEntries, List.foldlM_cons] at h
    obtain ⟨t', ht', h⟩ := Except.bind_eq_ok.mp h
    exact ih (isMergeableObject_mergeEntry ht ht') h

theorem isMergeableObject_deepMerge {s t out : Value} (h : deepMerge s t = .ok out) :
    isMergeableObject s ∧ isMergeableObject t ∧ isMergeableObject out := by
  have hs : isMergeableObject s := by
    cases s with
    | leaf l => cases h
    | arr items => rfl
    | obj members => rfl
  have ht : isMergeableObject t := by
    by_contra ht
    cases s with
    | leaf l => cases hs
    | arr items => rw [deepMerge, if_neg ht] at h; cases h
    | obj members => rw [deepMerge, if_neg ht] at h; cases h
  rw [deepMerge_eq hs ht] at h
  exact ⟨hs, ht, isMergeableObject_mergeEntries ht h⟩

theorem isPresent_mergeValue {val m : Value} {old : Option Value} (hv : isPresent val)
    (h : mergeValue val old = .ok m) : isPresent m := by
  unfold mergeValue at h
  split at h
  · split at h
    · exact isPresent_of_isMergeableObject (isMergeableObject_deepMerge h).2.2
    · split at h
      · exact isPresent_of_isMergeableObject (isMergeableObject_deepMerge h).2.2
      · cases h
  · cases h
    exact hv

/-- `out` is `t` with what `source` gives for each key merged into it. -/
structure Merged (source : Key → Option Value) (t out : Value) : Prop where
  head : out.head = t.head
  distinct : DistinctTop out
  of_some : ∀ k a, source k = some a → ∃ m, mergeValue a (entry k t) = .ok m ∧ entry k out = some m
  of_none : ∀ k, source k = none → entry k out = entry k t
  slot : ∀ k, (out.child k).isSome → (t.child k).isSome ∨ ∃ j, MakesRoom k j ∧ (source j).isSome
  absent : ∀ k a, out.child k = some a → isPresent a = false → a = .notDisclosed ∨
    t.child k = some a

theorem fits_of_head {t t' : Value} {key : Key} (h : t'.head = t.head) (hf : Fits key t) :
    Fits key t' := by
  match key, t, t', hf with
  | .name _, .obj _, .obj _, _ => trivial
  | .index _, .arr _, .arr _, _ => trivial

theorem Merged.refl {source : Key → Option Value} {t : Value} (ht : DistinctTop t)
    (hs : ∀ k, source k = none) : Merged source t t where
  head := rfl
  distinct := ht
  of_some := fun k a ha => by rw [hs k] at ha; cases ha
  of_none := fun _ _ => rfl
  slot := fun _ hk => .inl hk
  absent := fun _ _ hk _ => .inr hk

/-- One round of the loop. -/
theorem mergeEntry_merged {t out val : Value} {key : Key} (hf : Fits key t) (ht : DistinctTop t)
    (h : mergeEntry t key val (deepMerge val) = .ok out) :
    Merged (fun k => if k = key then (some val).filter isPresent else none) t out := by
  rw [mergeEntry_eq hf] at h
  by_cases hv : isPresent val
  · rw [if_pos hv] at h
    obtain ⟨m, hm, h⟩ := Except.bind_eq_ok.mp h
    obtain ⟨out', h', ha⟩ := setValue_entry hf ht (isPresent_mergeValue hv hm)
    obtain rfl : out' = out := Except.ok.inj (h'.symm.trans h)
    have hent := ha.entry_eq
    refine ⟨ha.head, ha.distinct, fun k a ha => ?_, fun k hk => ?_, fun k hk => ?_, ha.absent⟩
    · by_cases hkey : k = key
      · subst hkey
        rw [if_pos rfl, Option.filter_some_pos hv] at ha
        cases ha
        exact ⟨m, hm, by rw [hent, if_pos rfl]⟩
      · simp [hkey] at ha
    · have hkey : k ≠ key := by
        rintro rfl
        simp [hv] at hk
      rw [hent, if_neg hkey]
    · exact (ha.slot k hk).imp id fun hr => ⟨key, hr, by simp [hv]⟩
  · rw [if_neg hv] at h
    cases h
    exact .refl ht fun k => by simp [hv]

/-- What the loop over the entries `l` makes of `t`. -/
theorem mergeEntries_merged {l : List (Key × Value)} (hl : (keys l).Nodup) :
    ∀ {t out : Value}, (∀ e ∈ l, Fits e.1 t) → DistinctTop t → mergeEntries l t = .ok out →
      Merged (fun k => (l.lookup k).filter isPresent) t out := by
  induction l with
  | nil =>
    intro t out _ ht h
    cases h
    exact .refl ht fun k => rfl
  | cons e l ih =>
    intro t out hf ht h
    obtain ⟨key, val⟩ := e
    obtain ⟨hkey, hl⟩ := List.nodup_cons.mp hl
    obtain ⟨hf₀, hf⟩ := List.forall_mem_cons.mp hf
    rw [mergeEntries, List.foldlM_cons] at h
    obtain ⟨t', ht', h⟩ := Except.bind_eq_ok.mp h
    have h₁ := mergeEntry_merged hf₀ ht ht'
    have h₂ := ih hl (fun e he => fits_of_head h₁.head (hf e he)) h₁.distinct h
    have hlk : l.lookup key = none := lookup_eq_none_iff.mpr hkey
    -- the other entries leave the one under `key` as the first round made it
    have hother : ∀ k, k ≠ key → entry k t' = entry k t := fun k hk => h₁.of_none k (by simp [hk])
    refine ⟨h₂.head.trans h₁.head, h₂.distinct, fun k a ha => ?_, fun k hk => ?_, fun k hk => ?_,
      fun k a hk ha => (h₂.absent k a hk ha).elim .inl fun hk => h₁.absent k a hk ha⟩
    · by_cases hk : k = key
      · subst hk
        obtain ⟨m, hm, hem⟩ := h₁.of_some k a (by simpa using ha)
        exact ⟨m, hm, by rw [h₂.of_none k (by simp [hlk]), hem]⟩
      · rw [lookup_cons_of_ne (Ne.symm hk)] at ha
        rw [← hother k hk]
        exact h₂.of_some k a ha
    · by_cases hkk : k = key
      · subst hkk
        rw [h₂.of_none k (by simp [hlk]), h₁.of_none k (by simpa using hk)]
      · rw [lookup_cons_of_ne (Ne.symm hkk)] at hk
        rw [h₂.of_none k hk, hother k hkk]
    · obtain hk | ⟨j, hj, hs⟩ := h₂.slot k hk
      · obtain hk | ⟨j, hj, hs⟩ := h₁.slot k hk
        · exact .inl hk
        · by_cases hjk : j = key
          · subst hjk
            exact .inr ⟨j, hj, by simpa using hs⟩
          · simp [hjk] at hs
      · refine .inr ⟨j, hj, ?_⟩
        have hjk : j ≠ key := by
          rintro rfl
          simp [hlk] at hs
        rwa [lookup_cons_of_ne (Ne.symm hjk)]

/-- The loop succeeds when every entry can be merged. -/
theorem mergeEntries_total {l : List (Key × Value)} (hl : (keys l).Nodup) :
    ∀ {t : Value}, (∀ e ∈ l, Fits e.1 t) → DistinctTop t →
      (∀ e ∈ l, isPresent e.2 → ∃ m, mergeValue e.2 (entry e.1 t) = .ok m) →
      ∃ out, mergeEntries l t = .ok out := by
  induction l with
  | nil => exact fun _ _ _ => ⟨_, rfl⟩
  | cons e l ih =>
    intro t hf ht hm
    obtain ⟨hkey, hl⟩ := List.nodup_cons.mp hl
    obtain ⟨hf₀, hf⟩ := List.forall_mem_cons.mp hf
    obtain ⟨hm₀, hm⟩ := List.forall_mem_cons.mp hm
    have hok : ∃ t', mergeEntry t e.1 e.2 (deepMerge e.2) = .ok t' := by
      rw [mergeEntry_eq hf₀]
      by_cases hv : isPresent e.2
      · obtain ⟨m, hm₀⟩ := hm₀ hv
        obtain ⟨out, hout, -⟩ := setValue_entry hf₀ ht (isPresent_mergeValue hv hm₀)
        exact ⟨out, by rw [if_pos hv, hm₀]; exact hout⟩
      · exact ⟨t, if_neg hv⟩
    obtain ⟨t', ht'⟩ := hok
    have h₁ := mergeEntry_merged hf₀ ht ht'
    obtain ⟨out, hout⟩ := ih hl (fun e he => fits_of_head h₁.head (hf e he)) h₁.distinct
      fun e' he' hv => by
        have hne : e'.1 ≠ e.1 := fun h => hkey (h ▸ mem_keys_of_mem he')
        rw [h₁.of_none _ (by simp [hne])]
        exact hm e' he' hv
    exact ⟨out, by rw [mergeEntries, List.foldlM_cons, ht']; exact hout⟩

/-- What merging a container into one of the same kind makes of the entries. -/
theorem deepMerge_merged {s t out : Value} (hs : DistinctTop s) (ht : DistinctTop t)
    (hst : s.head = t.head) (h : deepMerge s t = .ok out) : Merged (entry · s) t out := by
  obtain ⟨hms, hmt, -⟩ := isMergeableObject_deepMerge h
  rw [deepMerge_eq hms hmt] at h
  have hm := mergeEntries_merged (nodup_entries hs) (fits_entries hst) ht h
  simp only [lookup_entries hs] at hm
  exact hm

theorem deepMerge_total {s t : Value} (hms : isMergeableObject s) (hs : DistinctTop s)
    (ht : DistinctTop t) (hst : s.head = t.head)
    (hm : ∀ k a, entry k s = some a → ∃ m, mergeValue a (entry k t) = .ok m) :
    ∃ out, deepMerge s t = .ok out := by
  have hmt : isMergeableObject t := by
    match s, t, hst, hms with
    | .arr _, .arr _, _, _ => rfl
    | .obj _, .obj _, _, _ => rfl
  rw [deepMerge_eq hms hmt]
  refine mergeEntries_total (nodup_entries hs) (fits_entries hst) ht fun e he hv => hm e.1 e.2 ?_
  rw [entry, (mem_entries hs).mp he, Option.filter_some_pos hv]

end IdentityCommon.Dcql
