import IdentityCommon.Dcql.CredentialQuery

/-!
# Presentations of disclosed claims

A presentation has the disclosed claims without the slots of the elements that are not disclosed.

## Main definitions

- `compact` — a value without the slots that are not disclosed

## Main results

- `accepts_compact` — what a path matches in a credential, it accepts in a presentation that
  discloses it
-/

namespace IdentityCommon.Dcql

open Ecma AssocList Value

mutual

/-- The value without the slots of arrays that are not disclosed. -/
def compact : Value → Value
  | .leaf l => .leaf l
  | .arr items => .arr (compactItems items)
  | .obj members => .obj (compactMembers members)

def compactItems : List Value → List Value
  | [] => []
  | .notDisclosed :: items => compactItems items
  | item :: items => compact item :: compactItems items

def compactMembers : List (String × Value) → List (String × Value)
  | [] => []
  | (key, value) :: members => (key, compact value) :: compactMembers members

end

theorem mem_compactItems {items : List Value} {w : Value} :
    w ∈ compactItems items ↔ ∃ x ∈ items, x ≠ .notDisclosed ∧ compact x = w := by
  induction items with
  | nil => simp [compactItems]
  | cons x items ih =>
    by_cases hx : x = .notDisclosed
    · subst hx
      simp [compactItems, ih]
    · rw [compactItems, List.mem_cons, ih]
      · simp [hx, eq_comm]
      · exact hx

theorem compactMembers_eq (members : List (String × Value)) :
    compactMembers members = mapVal compact members := by
  induction members with
  | nil => rfl
  | cons m members ih => rw [compactMembers, ih]; rfl

theorem compact_obj (members : List (String × Value)) :
    compact (.obj members) = .obj (mapVal compact members) := by
  rw [compact, compactMembers_eq]

@[simp] theorem isPresent_compact (v : Value) : isPresent (compact v) = isPresent v := by
  cases v <;> rfl

@[simp] theorem isAllowed_compact (values : Option (List ClaimValue)) (v : Value) :
    isAllowed values (compact v) = isAllowed values v := by
  cases v <;> rfl

theorem distinct_compact {v : Value} (h : v.Distinct) : (compact v).Distinct := by
  induction h with
  | leaf l => exact .leaf l
  | arr _ ih =>
    refine .arr fun w hw => ?_
    obtain ⟨x, hx, -, rfl⟩ := mem_compactItems.mp hw
    exact ih x hx
  | obj hn _ ih =>
    rw [compact_obj]
    refine .obj (by rwa [keys_mapVal]) fun m' hm' => ?_
    obtain ⟨m, hm, rfl⟩ := List.mem_map.mp hm'
    exact ih m hm

/-! ## Distinct names -/

theorem distinct_head {v : Value} (h : v.Distinct) : v.head.Distinct := by
  cases h with
  | leaf l => exact .leaf l
  | arr => exact .arr (by simp)
  | obj => exact .obj List.nodup_nil (by simp)

theorem distinct_setValue {t value out : Value} {key : Key} (ht : t.Distinct) (hv : value.Distinct)
    (h : setValue t key value = .ok out) : out.Distinct := by
  unfold setValue at h
  split at h
  case h_1 items =>
    have hitems : ∀ x ∈ items, x.Distinct := by
      cases ht with
      | arr hitems => exact hitems
    split at h
    · cases h
      refine .arr fun x hx => ?_
      rcases List.mem_or_eq_of_mem_set hx with hx | rfl
      · rcases List.mem_append.mp hx with hx | hx
        · exact hitems x hx
        · rw [List.eq_of_mem_replicate hx]
          exact .leaf _
      · exact hv
    · cases h
      exact .arr (by simp)
  case h_2 members =>
    cases h
    cases ht with
    | obj hn hmembers =>
      refine .obj (nodup_insert value hn) fun m hm => ?_
      have hlk := lookup_of_mem (nodup_insert value hn) hm
      rw [lookup_insert] at hlk
      split at hlk
      · cases hlk
        exact hv
      · exact hmembers _ (mem_of_lookup hlk)
  case h_3 => cases h

theorem distinct_ownProperty {t a : Value} {key : Key} (ht : t.Distinct)
    (h : ownProperty key t = some a) :
    a.Distinct := by
  unfold ownProperty at h
  split at h
  case h_1 members => exact ht.child (k := .name (keyName key)) h
  case h_2 items =>
    split at h
    · exact ht.child (k := .index _) h
    · split at h
      · cases h
        exact .leaf _
      · obtain ⟨n, -, hn⟩ := Option.bind_eq_some_iff.mp h
        split at hn
        · exact ht.child (k := .index n) hn
        · cases hn
  case h_3 => cases h

/-- Merging values without repeated names gives one. -/
theorem distinct_deepMerge {s : Value} : ∀ {t out : Value}, s.Distinct → t.Distinct →
    deepMerge s t = .ok out →
    out.Distinct := by
  induction s using child_induction with
  | h s ih =>
    intro t out hs ht h
    obtain ⟨hms, hmt, -⟩ := isMergeableObject_deepMerge h
    rw [deepMerge_eq hms hmt] at h
    have hchild : ∀ e ∈ entries s, s.child e.1 = some e.2 :=
      fun e he => (mem_entries (.of_distinct hs)).mp he
    -- one round of the loop, and then the loop
    have hround : ∀ e ∈ entries s, ∀ {t out : Value}, t.Distinct →
        mergeEntry t e.1 e.2 (deepMerge e.2) = .ok out → out.Distinct := by
      intro e he t out ht h
      have hval := hs.child (hchild e he)
      unfold mergeEntry at h
      split at h
      · simp only at h
        split at h
        · cases h
        · obtain ⟨m, hm, h⟩ := Except.bind_eq_ok.mp h
          refine distinct_setValue ht (ih e.1 e.2 (hchild e he) hval ?_ hm) h
          split
          · cases ho : ownProperty e.1 t with
            | none => exact .leaf _
            | some a => exact distinct_ownProperty ht ho
          · exact distinct_head hval
      · split at h
        · exact distinct_setValue ht hval h
        · cases h
          exact ht
    clear hchild hms hmt
    generalize entries s = l at h hround
    induction l generalizing t with
    | nil =>
      cases h
      exact ht
    | cons e l ihl =>
      obtain ⟨hround₀, hround⟩ := List.forall_mem_cons.mp hround
      rw [mergeEntries, List.foldlM_cons] at h
      obtain ⟨t', ht', h⟩ := Except.bind_eq_ok.mp h
      exact ihl (hround₀ ht ht') h hround

theorem distinct_mergeOutputs {outputs : List Value} (ho : ∀ o ∈ outputs, o.Distinct) :
    ∀ {t out : Value}, t.Distinct →
    outputs.foldlM (fun merged output => deepMerge output merged) t = .ok out →
      out.Distinct := by
  induction outputs with
  | nil =>
    intro t out ht h
    cases h
    exact ht
  | cons o outputs ih =>
    intro t out ht h
    obtain ⟨hd, ho⟩ := List.forall_mem_cons.mp ho
    rw [List.foldlM_cons] at h
    obtain ⟨t', ht', h⟩ := Except.bind_eq_ok.mp h
    exact ih ho (distinct_deepMerge hd ht ht') h

/-! ## Accepted presentations -/

/-- An element of an array that is disclosed stays. -/
theorem mem_compactItems_of_entry {items : List Value} {n : ℕ} {a : Value}
    (h : entry (.index n) (.arr items) = some a) : compact a ∈ compactItems items := by
  refine mem_compactItems.mpr ⟨a, List.mem_of_getElem? (child_of_entry h), ?_, rfl⟩
  rintro rfl
  exact absurd (isPresent_of_entry h) (by decide)

theorem obj_of_head_eq {members : List (String × Value)} {out : Value}
    (h : (obj members).head = out.head) :
    ∃ members', out = obj members' := by
  cases out with
  | leaf l => cases h
  | arr items => cases h
  | obj members' => exact ⟨members', rfl⟩

theorem arr_of_head_eq {items : List Value} {out : Value} (h : (arr items).head = out.head) :
    ∃ items', out = arr items' := by
  cases out with
  | leaf l => cases h
  | arr items' => exact ⟨items', rfl⟩
  | obj members => cases h

theorem obj_of_select {k : String} {rest : List PathElement} {v : Value} {m : List Key × Value}
    (h : m ∈ select (.name k :: rest) v) : ∃ members, v = obj members := by
  cases v with
  | leaf l => cases h
  | arr items => cases h
  | obj members => exact ⟨members, rfl⟩

theorem arr_of_select_index {n : ℕ} {rest : List PathElement} {v : Value} {m : List Key × Value}
    (h : m ∈ select (.index n :: rest) v) : ∃ items, v = arr items := by
  cases v with
  | leaf l => cases h
  | arr items => exact ⟨items, rfl⟩
  | obj members => cases h

theorem arr_of_select_null {rest : List PathElement} {v : Value} {m : List Key × Value}
    (h : m ∈ select (.null :: rest) v) : ∃ items, v = arr items := by
  cases v with
  | leaf l => cases h
  | arr items => exact ⟨items, rfl⟩
  | obj members => cases h

/-- A copy that discloses what a part does has a copy of that part. -/
theorem Copy.exists_entry {v out x : Value} {k : Key} (h : Copy .tight v out)
    (hx : entry k v = some x) (hd : ∀ p, Discloses x p → Discloses out (k :: p)) :
    ∃ a, entry k out = some a ∧ Copy .tight x a ∧ ∀ p, Discloses x p → Discloses a p := by
  obtain ⟨a, ha, -⟩ := discloses_cons.mp (hd [] (discloses_nil.mpr (isPresent_of_entry hx)))
  refine ⟨a, ha, (h.of_child (child_of_entry hx)).2 a ha, fun p hp => ?_⟩
  obtain ⟨b, hb, hp⟩ := discloses_cons.mp (hd p hp)
  obtain rfl : a = b := Option.some.inj (ha.symm.trans hb)
  exact hp

/-- What a copy discloses is a copy of what is there. -/
theorem Copy.exists_origin {v out a : Value} {k : Key} (h : Copy .tight v out)
    (ha : entry k out = some a) : ∃ x, entry k v = some x ∧ Copy .tight x a := by
  obtain ⟨x, hx, hxa⟩ := h.exists_child ha
  exact ⟨x, by rw [entry, hx, Option.filter_some_pos (hxa.present (isPresent_of_entry ha))], hxa⟩

/-- A path accepts the presentation of a copy that discloses what it matches. -/
theorem accepts_compact {g : Slack} {values : Option (List ClaimValue)} {path : List PathElement} :
    ∀ {v out : Value} {p : List Key}, Copy g v out → Matched values path v p →
      Discloses out p → accepts true values path (compact out) := by
  induction path with
  | nil =>
    intro v out p hc hm hd
    obtain ⟨rfl, -, ha⟩ := matched_nil.mp hm
    have hall : isAllowed values out = isAllowed values v := by
      cases hc with
      | never => rfl
      | node hh =>
        cases v with
        | leaf l => rw [head_eq_leaf hh.symm]
        | arr items => cases out <;> first | rfl | cases hh
        | obj members => cases out <;> first | rfl | cases hh
    rw [accepts, isPresent_compact, isAllowed_compact, hall, ha, Bool.and_true]
    exact discloses_nil.mp hd
  | cons e rest ih =>
    intro v out p hc hm hd
    -- the copy has the first component of the position, with a copy of what is there
    have hstep : ∀ {k : Key} {p' : List Key} {x : Value}, p = k :: p' → v.child k = some x →
        ∃ a, entry k out = some a ∧ Copy g x a ∧ Discloses a p' := by
      rintro k p' x rfl hx
      obtain ⟨a, ha, hd⟩ := discloses_cons.mp hd
      exact ⟨a, ha, (hc.of_child hx).2 a ha, hd⟩
    obtain ⟨w, hsel, hw⟩ := hm
    cases e with
    | name k =>
      obtain ⟨members, rfl⟩ := obj_of_select hsel
      cases hk : members.lookup k with
      | none => simp [select, hk] at hsel
      | some x =>
        obtain ⟨p', rfl, hm'⟩ := (matched_name hk).mp ⟨w, hsel, hw⟩
        obtain ⟨a, ha, hca, hda⟩ := hstep rfl hk
        obtain ⟨members', rfl⟩ := obj_of_head_eq (hc.of_child (k := .name k) hk).1
        have hlk : (mapVal compact members').lookup k = some (compact a) := by
          have hka : members'.lookup k = some a := child_of_entry ha
          rw [lookup_mapVal, hka, Option.map_some]
        rw [compact_obj, accepts, get_obj_of_some hlk]
        exact ih hca hm' hda
    | index n =>
      obtain ⟨items, rfl⟩ := arr_of_select_index hsel
      cases hn : items[n]? with
      | none => simp [select, hn] at hsel
      | some x =>
        obtain ⟨p', rfl, hm'⟩ := (matched_index hn).mp ⟨w, hsel, hw⟩
        obtain ⟨a, ha, hca, hda⟩ := hstep (k := .index n) rfl hn
        obtain ⟨items', rfl⟩ := arr_of_head_eq (hc.of_child (k := .index n) hn).1
        rw [compact, accepts, if_pos rfl]
        exact List.any_eq_true.mpr ⟨_, mem_compactItems_of_entry ha, ih hca hm' hda⟩
    | null =>
      obtain ⟨items, rfl⟩ := arr_of_select_null hsel
      obtain ⟨n, x, p', hn, rfl, hm'⟩ := matched_null.mp ⟨w, hsel, hw⟩
      obtain ⟨a, ha, hca, hda⟩ := hstep (k := .index n) rfl hn
      obtain ⟨items', rfl⟩ := arr_of_head_eq (hc.of_child (k := .index n) hn).1
      rw [compact, accepts, Bool.or_eq_true]
      exact .inr (List.any_eq_true.mpr ⟨_, mem_compactItems_of_entry ha, ih hca hm' hda⟩)

/-- What is accepted is there. -/
theorem isPresent_of_accepts {presentation : Bool} {values : Option (List ClaimValue)}
    {path : List PathElement} {v : Value} (h : accepts presentation values path v) :
    isPresent v := by
  cases v with
  | arr items => rfl
  | obj members => rfl
  | leaf l =>
    by_cases ho : (leaf l).isObject
    · cases l <;> first | rfl | exact absurd ho Bool.false_ne_true
    · rw [accepts_leaf (by simpa using ho), Bool.and_eq_true, Bool.and_eq_true] at h
      exact h.1.1

/-- An element that a path accepts in a presentation is one of those that are disclosed. -/
theorem exists_entry_of_accepts {values : Option (List ClaimValue)} {path : List PathElement}
    {items : List Value} (h : (compactItems items).any (accepts true values path)) :
    ∃ n a, entry (.index n) (arr items) = some a ∧ accepts true values path (compact a) := by
  obtain ⟨w, hw, hacc⟩ := List.any_eq_true.mp h
  obtain ⟨a, ha, -, rfl⟩ := mem_compactItems.mp hw
  obtain ⟨n, hn⟩ := List.mem_iff_getElem?.mp ha
  have hp : isPresent a := by
    rw [← isPresent_compact]
    exact isPresent_of_accepts hacc
  exact ⟨n, a, by rw [entry, child_index_arr, hn, Option.filter_some_pos hp], hacc⟩

/-- A path that accepts the presentation of its own output found something. -/
theorem finds_of_accepts {zod : Zod} {q : W3cAndSdJwtVc} {path : List PathElement} :
    ∀ {index : ℕ} {v a : Value} {payload : Payload},
      getJsonClaimParser zod q false index path v = .ok payload → payload.success →
      Copy .tight payload.value a →
      (∀ p, Discloses payload.value p → Discloses a p) → accepts true q.values path (compact a) →
      finds q.values path v := by
  induction path with
  | nil =>
    intro index v a payload h hs _ _ _
    obtain ⟨-, hp, ha⟩ := claim_ok h hs
    rw [finds, hp, ha]
    rfl
  | cons e rest ih =>
    intro index v a payload h hs hc hd hacc
    have hstep : ∀ {k : Key} {b : Value}, entry k payload.value = some b →
        ∃ b', entry k a = some b' ∧ Copy .tight b b' ∧ ∀ p, Discloses b p → Discloses b' p :=
      fun hb => hc.exists_entry hb fun p hp => hd _ (discloses_cons.mpr ⟨_, hb, hp⟩)
    cases e with
    | name k =>
      obtain ⟨ho, r, hr, hrs, hval⟩ := name_ok h hs
      obtain ⟨b, hb, hcb, hdb⟩ :=
        hstep (k := .name k) (b := r.value)
          (by rw [hval, entry_singleton (output_present hr hrs), if_pos rfl])
      rw [hval] at hc
      obtain ⟨members, rfl⟩ := obj_of_head_eq hc.head_eq
      have hlk : (mapVal compact members).lookup k = some (compact b) := by
        have hkb : members.lookup k = some b := child_of_entry hb
        rw [lookup_mapVal, hkb, Option.map_some]
      rw [compact_obj, accepts, get_obj_of_some hlk] at hacc
      rw [finds, ho, Bool.true_and]
      exact ih hr hrs hcb hdb hacc
    | index n =>
      obtain ⟨items, rfl, r, hr, hrs, hval⟩ := index_ok h hs
      obtain ⟨x, hx⟩ := getElem?_of_success hr hrs
      have hn := (List.getElem?_eq_some_iff.mp hx).1
      have hentry := fun k' => entry_padded (k := k') hn (output_present hr hrs)
      obtain ⟨b, hb, hcb, hdb⟩ :=
        hstep (k := .index n) (b := r.value) (by rw [hval, hentry, if_pos rfl])
      rw [hval] at hc
      obtain ⟨items', rfl⟩ := arr_of_head_eq hc.head_eq
      rw [compact, accepts, if_pos rfl] at hacc
      obtain ⟨m, b', hb', hacc⟩ := exists_entry_of_accepts hacc
      -- the output has no other element
      have hm : m = n := by
        obtain ⟨y, hent, -⟩ := hc.exists_origin hb'
        rw [hentry] at hent
        split at hent
        case isTrue hkey => exact Key.index.inj hkey
        case isFalse => cases hent
      subst hm
      obtain rfl : b = b' := Option.some.inj (hb.symm.trans hb')
      rw [finds]
      exact ih hr hrs hcb hdb hacc
    | null =>
      obtain ⟨items, mapped, rfl, hm, ⟨rfl, hval⟩ | ⟨hany, hval⟩⟩ := null_ok h hs
      · -- the value of the failed transform is no array
        rw [hval] at hc
        obtain ⟨members, rfl⟩ := obj_of_head_eq hc.head_eq
        simp [compact_obj, accepts] at hacc
      · have hfound : ∀ {n : ℕ} {b : Value}, entry (.index n) payload.value = some b →
            ∃ x ∈ items, ∃ r : Payload,
            getJsonClaimParser zod q false (index + 1) rest x = .ok r ∧ r.success ∧
            r.value = b := by
          intro n b hb
          rw [hval] at hb
          obtain ⟨x, r, hx, hr, hrs, hrb⟩ := (entry_mapped hm).mp hb
          exact ⟨x, List.mem_of_getElem? hx, r, hr, hrs, hrb⟩
        have hc' := hc
        rw [hval] at hc'
        obtain ⟨items', rfl⟩ := arr_of_head_eq hc'.head_eq
        rw [compact, accepts, Bool.or_eq_true] at hacc
        have hany : (compactItems items').any (accepts true q.values rest) := by
          refine hacc.resolve_left fun hempty => ?_
          -- an element that the parser accepts is disclosed
          obtain ⟨r, hmem, hrs⟩ := List.any_eq_true.mp hany
          obtain ⟨n, hn⟩ := List.mem_iff_getElem?.mp hmem
          obtain ⟨x, hx, hr⟩ := (Except.getElem?_mapM hm).mp hn
          obtain ⟨b, hb, -⟩ := hstep (k := .index n) (b := r.value)
            (by rw [hval]; exact (entry_mapped hm).mpr ⟨x, r, hx, hr, hrs, rfl⟩)
          have hmem := mem_compactItems_of_entry hb
          rw [List.isEmpty_iff.mp hempty] at hmem
          cases hmem
        obtain ⟨n, a, ha, hacc⟩ := exists_entry_of_accepts hany
        obtain ⟨y, hent, -⟩ := hc.exists_origin ha
        obtain ⟨x, hx, r, hr, hrs, rfl⟩ := hfound hent
        obtain ⟨b, hb, hcb, hdb⟩ := hstep hent
        obtain rfl : a = b := Option.some.inj (ha.symm.trans hb)
        rw [finds]
        exact List.any_eq_true.mpr ⟨x, hx, ih hr hrs hcb hdb hacc⟩

end IdentityCommon.Dcql
