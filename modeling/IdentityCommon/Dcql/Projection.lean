import IdentityCommon.Dcql.DeepMerge

/-!
# Projections of claims

What a claim discloses is a copy of a part of the claims, and so is what several claims
disclose after they have been merged.

## Main definitions

- `Slack`, `Copy` — a value that copies a part of another one; garbage may be allowed next to it
- `Discloses` — a value discloses a position
- `Trimmed` — no array ends with slots that are not disclosed

## Main results

- `deepMerge_copy`, `exists_deepMerge` — merging copies gives a copy
- `discloses_deepMerge` — it discloses what one of them discloses
- `Copy.same` — a trimmed copy is determined by what it discloses
- `garbage_deepMerge` — garbage stays
-/

namespace IdentityCommon.Dcql

open Ecma AssocList Value

/-! ## Copies -/

def Key.isName : Key → Bool
  | .name _ => true
  | .index _ => false

/-- What a copy may have next to what it copies: the value of a failed transform for an empty array,
and members that the value lacks, which a merge leaves as they may be. -/
structure Slack where
  empties : Prop
  extra : Value → Prop
  merged : ∀ {a m : Value} {old : Option Value}, extra a → mergeValue a old = .ok m → extra m

/-- Garbage of any kind, or none at all. -/
def Slack.all (garbage : Prop) : Slack := ⟨garbage, fun _ => garbage, fun h _ => h⟩

abbrev Slack.tight : Slack := .all False

/-- `out` copies a part of `v`, with some slack. -/
inductive Copy (g : Slack) : Value → Value → Prop
  | node {v out : Value} : v.head = out.head → DistinctTop out →
      (∀ k a, entry k out = some a → (v.child k).isSome ∨ g.extra a ∧ Key.isName k) →
      (∀ k a x, entry k out = some a → v.child k = some x → Copy g x a) → Copy g v out
  | never : g.empties → Copy g (.arr []) NEVER

theorem DistinctTop.of_distinct {v : Value} (h : v.Distinct) : DistinctTop v := by
  cases h with
  | leaf => trivial
  | arr => trivial
  | obj hn => exact hn

theorem Copy.refl (g : Slack) {v : Value} (h : v.Distinct) : Copy g v v := by
  induction v using child_induction with
  | h v ih =>
    refine .node rfl (.of_distinct h) (fun k a ha => .inl ?_) fun k a x ha hx => ?_
    · rw [child_of_entry ha]
      rfl
    · obtain rfl : x = a := Option.some.inj (hx.symm.trans (child_of_entry ha))
      exact ih k x hx (h.child hx)

theorem Copy.empty (g : Slack) {v out : Value} (h : v.head = out.head) : Copy g v out.head :=
  .node (h.trans (by cases out <;> rfl)) (by cases out <;> first | trivial | exact List.nodup_nil)
    (fun k a ha => by simp at ha) fun k a x ha => by simp at ha

theorem Copy.distinctTop {g : Slack} {v out : Value} (h : Copy g v out) : DistinctTop out := by
  cases h with
  | node _ hd => exact hd
  | never => exact List.nodup_singleton _

theorem Copy.head_eq {v out : Value} (h : Copy .tight v out) : v.head = out.head := by
  cases h with
  | node hh => exact hh
  | never hf => exact hf.elim

/-- Without garbage every entry copies one of `v`. -/
theorem Copy.exists_child {v out a : Value} {k : Key} (h : Copy .tight v out)
    (ha : entry k out = some a) : ∃ x, v.child k = some x ∧ Copy .tight x a := by
  cases h with
  | node _ _ hex hcopy =>
    obtain hk | ⟨hf, -⟩ := hex k a ha
    · obtain ⟨x, hx⟩ := Option.isSome_iff_exists.mp hk
      exact ⟨x, hx, hcopy k a x ha hx⟩
    · exact hf.elim
  | never hf => exact hf.elim

/-- Where the value has an entry, a copy is of its kind and copies the entry. -/
theorem Copy.of_child {g : Slack} {v out x : Value} {k : Key} (h : Copy g v out)
    (hx : v.child k = some x) :
    v.head = out.head ∧ ∀ a, entry k out = some a → Copy g x a := by
  cases h with
  | node hh _ _ hcopy => exact ⟨hh, fun a ha => hcopy k a x ha hx⟩
  | never => cases k <;> simp at hx

theorem Copy.present {g : Slack} {v out : Value} (h : Copy g v out)
    (hp : isPresent out) : isPresent v := by
  cases h with
  | node hh =>
    cases v with
    | arr items => rfl
    | obj members => rfl
    | leaf l => rwa [head_eq_leaf hh.symm] at hp
  | never => rfl

/-- A leaf is only copied by itself. -/
theorem Copy.eq_leaf {g : Slack} {l : Leaf} {out : Value} (h : Copy g (leaf l) out) :
    out = leaf l := by
  cases h with
  | node hh => exact head_eq_leaf hh.symm

theorem Copy.of_leaf {g : Slack} {l : Leaf} {v : Value} (h : Copy g v (leaf l)) :
    v = leaf l := by
  cases h with
  | node hh => exact head_eq_leaf hh

theorem entry_arr_nil {g : Slack} {s : Value} (h : Copy g (.arr []) s)
    (hs : s.head = .arr []) (k : Key) : entry k s = none := by
  cases h with
  | node _ _ hex _ =>
    by_contra hne
    obtain ⟨a, ha⟩ := Option.ne_none_iff_exists'.mp hne
    obtain hk | ⟨-, hk⟩ := hex k a ha
    · cases k <;> simp at hk
    · match k, s, hs with
      | .name k, .arr items, _ => simp [entry] at ha
  | never => cases hs

/-- Without entries there is nothing to merge. -/
theorem mergeEntries_none {l : List (Key × Value)}
    (h : ∀ e ∈ l, isPresent e.2 = false) (t : Value) :
    mergeEntries l t = .ok t := by
  induction l with
  | nil => rfl
  | cons e l ih =>
    obtain ⟨he, hl⟩ := List.forall_mem_cons.mp h
    have hm : isMergeableObject e.2 = false := by
      by_contra hm
      rw [isPresent_of_isMergeableObject (by simpa using hm)] at he
      cases he
    rw [mergeEntries, List.foldlM_cons, mergeEntry, if_neg (by simp [hm]), if_neg (by simp [he])]
    exact ih hl

theorem deepMerge_none {s t : Value} (hs : isMergeableObject s) (hd : DistinctTop s)
    (ht : isMergeableObject t) (h : ∀ k, entry k s = none) : deepMerge s t = .ok t := by
  rw [deepMerge_eq hs ht]
  refine mergeEntries_none (fun e he => ?_) t
  by_contra hp
  have hk := h e.1
  rw [entry, (mem_entries hd).mp he, Option.filter_some_pos (by simpa using hp)] at hk
  cases hk

theorem deepMerge_never_arr (items : List Value) : deepMerge NEVER (.arr items) = .ok (.arr []) :=
  rfl

theorem deepMerge_never_never : deepMerge NEVER NEVER = .ok NEVER := rfl

theorem deepMerge_never_empty : deepMerge NEVER (.obj []) = .ok NEVER := rfl

/-! ## Merging copies -/

theorem mergeValue_none {val : Value} (h : isMergeableObject val) :
    mergeValue val none = deepMerge val val.head := if_pos h

theorem mergeValue_some {val o : Value} (h : isMergeableObject val) (ho : isMergeableObject o) :
    mergeValue val (some o) = deepMerge val o := by
  rw [mergeValue, if_pos h]
  exact if_pos ho

theorem mergeValue_leaf (l : Leaf) (old : Option Value) :
    mergeValue (leaf l) old = .ok (leaf l) := rfl

/-- The ways in which `mergeValue` succeeds. -/
theorem mergeValue_eq_ok {val m : Value} {old : Option Value} (h : mergeValue val old = .ok m) :
    (isMergeableObject val = false ∧ m = val) ∨
    (isMergeableObject val ∧ old = none ∧ deepMerge val val.head = .ok m) ∨
    (isMergeableObject val ∧ ∃ o, old = some o ∧ isMergeableObject o ∧
      deepMerge val o = .ok m) := by
  by_cases hv : isMergeableObject val
  · cases old with
    | none => exact .inr (.inl ⟨hv, rfl, (mergeValue_none hv).symm.trans h⟩)
    | some o =>
      by_cases ho : isMergeableObject o
      · exact .inr (.inr ⟨hv, o, rfl, ho, (mergeValue_some hv ho).symm.trans h⟩)
      · simp [mergeValue, hv, ho] at h
  · obtain rfl : val = m := by simpa [mergeValue, hv] using h
    exact .inl ⟨by simpa using hv, rfl⟩

section Merge

variable {g : Slack}

theorem Copy.mergeValue {a x m : Value} {old : Option Value}
    (ih : ∀ {v t out : Value}, Copy g v a → Copy g v t → deepMerge a t = .ok out →
      Copy g v out)
    (hx : Copy g x a) (hold : ∀ o, old = some o → Copy g x o)
    (h : mergeValue a old = .ok m) : Copy g x m := by
  obtain ⟨-, hm⟩ | ⟨-, -, h⟩ | ⟨-, o, ho, -, h⟩ := mergeValue_eq_ok h
  · rw [hm]
    exact hx
  · cases hx with
    | node hh hd hex hcopy => exact ih (.node hh hd hex hcopy) (.empty g hh) h
    | never hg =>
      obtain rfl : NEVER = m := Except.ok.inj (deepMerge_never_empty.symm.trans h)
      exact .never hg
  · exact ih hx (hold o ho) h

/-- Merging copies gives a copy. -/
theorem deepMerge_copy {s : Value} : ∀ {v t out : Value}, Copy g v s → Copy g v t →
    deepMerge s t = .ok out → Copy g v out := by
  induction s using child_induction with
  | h s ih =>
    intro v t out hs ht h
    obtain ⟨hms, hmt, -⟩ := isMergeableObject_deepMerge h
    have hds := hs.distinctTop
    have hdt := ht.distinctTop
    cases hs with
    | @node v s hh hd hex hcopy =>
      cases ht with
      | @node v t hh' hd' hex' hcopy' =>
        have hm := deepMerge_merged hds hdt (hh.symm.trans hh') h
        refine .node (hh'.trans hm.head.symm) hm.distinct (fun k m hk => ?_) fun k m x hk hx => ?_
        · cases hsk : entry k s with
          | none => exact hex' k m (by rw [← hm.of_none k hsk, hk])
          | some a =>
            obtain ⟨m', hmv, hk'⟩ := hm.of_some k a hsk
            obtain rfl : m' = m := Option.some.inj (hk'.symm.trans hk)
            exact (hex k a hsk).imp_right fun h => ⟨g.merged h.1 hmv, h.2⟩
        · cases hsk : entry k s with
          | none => exact hcopy' k m x (by rw [← hm.of_none k hsk, hk]) hx
          | some a =>
            obtain ⟨m', hmv, hk'⟩ := hm.of_some k a hsk
            obtain rfl : m' = m := Option.some.inj (hk'.symm.trans hk)
            exact .mergeValue (ih k a (child_of_entry hsk)) (hcopy k a x hsk hx)
              (fun o ho => hcopy' k o x ho hx) hmv
      | never hg =>
        -- an empty array against the value of a failed transform
        have hnone := entry_arr_nil (.node hh hd hex hcopy) hh.symm
        rw [deepMerge_none hms hds hmt hnone] at h
        cases h
        exact .never hg
    | never hg =>
      cases ht with
      | node hh' =>
        match t, hh' with
        | .arr items, hh' =>
          rw [deepMerge_never_arr] at h
          cases h
          exact (Copy.empty g rfl : Copy g (.arr []) (head (.arr [])))
      | never =>
        rw [deepMerge_never_never] at h
        cases h
        exact .never hg

/-! ## Success -/

/-- What is next to a copy is no object or array that something could be merged into. -/
def Slack.Flat (g : Slack) : Prop := ∀ a, g.extra a → isMergeableObject a = false

theorem Slack.flat_tight : Slack.tight.Flat := fun _ h => False.elim h

/-- Values of failed transforms, and members that are no objects or arrays. -/
def Slack.leaves : Slack where
  empties := True
  extra a := isMergeableObject a = false
  merged := by
    intro a m old ha h
    obtain ⟨-, rfl⟩ | ⟨hm, -⟩ | ⟨hm, -⟩ := mergeValue_eq_ok h
    · exact ha
    · rw [ha] at hm
      cases hm
    · rw [ha] at hm
      cases hm

theorem Slack.flat_leaves : Slack.leaves.Flat := fun _ h => h

theorem Copy.isMergeableObject {a o x : Value} (ha : Copy g x a) (ho : Copy g x o)
    (h : isMergeableObject a) :
    Dcql.isMergeableObject o := by
  cases ho with
  | never => rfl
  | node hh' =>
    cases ha with
    | never =>
      match o, hh' with
      | .arr _, _ => rfl
    | node hh =>
      match a, o, hh.symm.trans hh', h with
      | .arr _, .arr _, _, _ => rfl
      | .obj _, .obj _, _, _ => rfl

theorem exists_mergeValue {a x : Value} {old : Option Value}
    (ih : isMergeableObject a → ∀ {v t : Value}, Copy g v a → Copy g v t →
      ∃ out, deepMerge a t = .ok out)
    (hx : Copy g x a) (hold : ∀ o, old = some o → Copy g x o) :
    ∃ m, mergeValue a old = .ok m := by
  by_cases ha : isMergeableObject a
  · cases old with
    | none =>
      rw [mergeValue_none ha]
      cases hx with
      | node hh hd hex hcopy => exact ih ha (.node hh hd hex hcopy) (.empty g hh)
      | never => exact ⟨_, deepMerge_never_empty⟩
    | some o =>
      -- both are copies of the same value
      rw [mergeValue_some ha (hx.isMergeableObject (hold o rfl) ha)]
      exact ih ha hx (hold o rfl)
  · cases a with
    | leaf l => exact ⟨_, mergeValue_leaf l old⟩
    | arr items => exact absurd rfl ha
    | obj members => exact absurd rfl ha

/-- Copies can be merged, if nothing can be merged into what is next to them. -/
theorem exists_deepMerge (hg : g.Flat) {s : Value} :
    ∀ {v t : Value}, isMergeableObject s → Copy g v s →
    Copy g v t → ∃ out, deepMerge s t = .ok out := by
  induction s using child_induction with
  | h s ih =>
    intro v t hms hs ht
    have hds := hs.distinctTop
    have hdt := ht.distinctTop
    have hmt := hs.isMergeableObject ht hms
    cases hs with
    | @node v s hh hd hex hcopy =>
      cases ht with
      | @node v t hh' hd' hex' hcopy' =>
        refine deepMerge_total hms hds hdt (hh.symm.trans hh') fun k a ha => ?_
        rcases hex k a ha with hk | ⟨hextra, -⟩
        · obtain ⟨x, hx⟩ := Option.isSome_iff_exists.mp hk
          exact exists_mergeValue (fun hma => ih k a (child_of_entry ha) hma) (hcopy k a x ha hx)
            fun o ho => hcopy' k o x ho hx
        · exact ⟨a, if_neg (by simp [hg a hextra])⟩
      | never =>
        exact ⟨_, deepMerge_none hms hds hmt (entry_arr_nil (.node hh hd hex hcopy) hh.symm)⟩
    | never =>
      cases ht with
      | node hh' =>
        match t, hh' with
        | .arr items, _ => exact ⟨_, deepMerge_never_arr items⟩
      | never => exact ⟨_, deepMerge_never_never⟩

end Merge

/-! ## What is disclosed -/

/-- The value has something other than an undisclosed slot at the position. -/
def Discloses (v : Value) (p : List Key) : Prop := ∃ w, v.follow p = some w ∧ isPresent w

theorem discloses_nil {v : Value} : Discloses v [] ↔ isPresent v := by simp [Discloses]

theorem discloses_cons {v : Value} {k : Key} {p : List Key} :
    Discloses v (k :: p) ↔ ∃ a, entry k v = some a ∧ Discloses a p := by
  constructor
  · rintro ⟨w, hw, hp⟩
    obtain ⟨a, ha, hw⟩ := Option.bind_eq_some_iff.mp hw
    refine ⟨a, ?_, w, hw, hp⟩
    rw [entry, ha, Option.filter_some_pos]
    cases a with
    | arr items => rfl
    | obj members => rfl
    | leaf l =>
      cases p with
      | nil => cases hw; exact hp
      | cons k' p => simp at hw
  · rintro ⟨a, ha, w, hw, hp⟩
    exact ⟨w, by simp [child_of_entry ha, hw], hp⟩

theorem discloses_singleton {v : Value} {k : Key} : Discloses v [k] ↔ (entry k v).isSome := by
  simp only [discloses_cons, discloses_nil, Option.isSome_iff_exists]
  exact exists_congr fun a => ⟨And.left, fun h => ⟨h, isPresent_of_entry h⟩⟩

theorem isPresent_head (v : Value) : isPresent v.head = isPresent v := by
  cases v <;> rfl

theorem discloses_head {v : Value} {p : List Key} (h : isPresent v) :
    Discloses v.head p ↔ p = [] := by
  cases p with
  | nil => simp [discloses_nil, isPresent_head, h]
  | cons k p => simp [discloses_cons]

/-- A merge of copies discloses a position of the value when one of the copies does. -/
theorem discloses_deepMerge {g : Slack} {s : Value} : ∀ {v t out : Value} {p : List Key},
    Copy g v s → Copy g v t → deepMerge s t = .ok out → (v.follow p).isSome →
      (Discloses out p ↔ Discloses s p ∨ Discloses t p) := by
  induction s using child_induction with
  | h s ih =>
    intro v t out p hs ht h hp
    obtain ⟨hms, hmt, hmo⟩ := isMergeableObject_deepMerge h
    cases p with
    | nil => simp [discloses_nil, isPresent_of_isMergeableObject, hms, hmt, hmo]
    | cons k p =>
      obtain ⟨x, hx⟩ : ∃ x, v.child k = some x := by
        rw [follow_cons] at hp
        exact Option.isSome_iff_exists.mp (Option.isSome_of_isSome_bind hp)
      rw [follow_cons, hx, Option.bind_some] at hp
      obtain ⟨hh, hcs⟩ := hs.of_child hx
      obtain ⟨hh', hct⟩ := ht.of_child hx
      have hm := deepMerge_merged hs.distinctTop ht.distinctTop (hh.symm.trans hh') h
      simp only [discloses_cons]
      cases hsk : entry k s with
      | none => simp [hm.of_none k hsk]
      | some a =>
        obtain ⟨m, hmv, hk⟩ := hm.of_some k a hsk
        have hxa := hcs a hsk
        simp only [hk, Option.some.injEq, exists_eq_left']
        obtain ⟨hl, rfl⟩ | ⟨hma, hold, h⟩ | ⟨hma, o, hold, -, h⟩ := mergeValue_eq_ok hmv
        · -- a leaf is all that the target can have copied there
          match m, hl with
          | .leaf l, _ =>
            have hleaf : ∀ o, entry k t = some o → o = leaf l := fun o ho =>
              (hxa.of_leaf ▸ hct o ho).eq_leaf
            refine ⟨.inl, fun h => h.elim id ?_⟩
            rintro ⟨o, ho, hd⟩
            rwa [hleaf o ho] at hd
        · simp only [hold, reduceCtorEq, false_and, exists_false, or_false]
          cases hxa with
          | node hh' hd hex hcopy =>
            rw [ih k a (child_of_entry hsk) (.node hh' hd hex hcopy) (.empty g hh') h hp,
              discloses_head (isPresent_of_entry hsk)]
            refine ⟨fun h => h.elim id ?_, .inl⟩
            rintro rfl
            exact discloses_nil.mpr (isPresent_of_entry hsk)
          | never =>
            obtain rfl : NEVER = m := Except.ok.inj (deepMerge_never_empty.symm.trans h)
            rfl
        · simp only [hold, Option.some.injEq, exists_eq_left']
          exact ih k a (child_of_entry hsk) hxa (hct o hold) h hp

/-- What a copy without garbage discloses is in the value it copies. -/
theorem Copy.follow {v out : Value} (h : Copy .tight v out) {p : List Key} {w : Value}
    (hw : out.follow p = some w) (hp : isPresent w) :
    ∃ x, v.follow p = some x ∧ x.head = w.head := by
  induction p generalizing v out with
  | nil =>
    cases hw
    exact ⟨v, rfl, h.head_eq⟩
  | cons k p ih =>
    obtain ⟨a, ha, w', hw', hp'⟩ := discloses_cons.mp ⟨w, hw, hp⟩
    obtain ⟨x, hx, hxa⟩ := h.exists_child ha
    obtain rfl : w' = w := by
      rw [follow_cons, child_of_entry ha] at hw
      exact Option.some.inj (hw'.symm.trans hw)
    obtain ⟨y, hy, hh⟩ := ih hxa hw'
    exact ⟨y, by simp [hx, hy], hh⟩

/-! ## Trimmed copies -/

/-- No array ends with slots that are not disclosed, and other values are not left out. -/
inductive Trimmed : Value → Prop
  | node {v : Value} : (∀ k, (v.child k).isSome → ∃ j, MakesRoom k j ∧ (entry j v).isSome) →
      (∀ k a, v.child k = some a → isPresent a = false → a = .notDisclosed) →
      (∀ k a, entry k v = some a → Trimmed a) → Trimmed v

theorem isSome_child_of_makesRoom {v : Value} {k j : Key} (h : MakesRoom k j)
    (hj : (v.child j).isSome) : (v.child k).isSome := by
  match k, j, h with
  | .name s, .name s', h =>
    obtain rfl : s = s' := h
    exact hj
  | .index n, .index n', h =>
    cases v with
    | arr items =>
      have hle : n ≤ n' := h
      simp only [child_index_arr, isSome_getElem?] at hj ⊢
      omega
    | leaf l => simp at hj
    | obj members => simp at hj

theorem Trimmed.leaf (l : Leaf) : Trimmed (.leaf l) :=
  .node (fun k hk => by simp at hk) (fun k a hk => by simp at hk) fun k a hk => by
    simp [entry] at hk

theorem Trimmed.head (v : Value) : Trimmed v.head := by
  refine .node (fun k hk => ?_) (fun k a hk => ?_) fun k a hk => by simp at hk
  · cases v <;> cases k <;> simp [Value.head] at hk
  · cases v <;> cases k <;> simp [Value.head] at hk

theorem Trimmed.sub {v a : Value} {k : Key} (h : Trimmed v) (ha : entry k v = some a) :
    Trimmed a := by
  obtain ⟨-, -, hsub⟩ := h
  exact hsub k a ha

/-- What is not disclosed is an empty slot before something that is, or not there. -/
theorem Trimmed.child_eq {v : Value} {k : Key} (h : Trimmed v) (hk : entry k v = none) :
    (∃ j, MakesRoom k j ∧ (entry j v).isSome) ∧ v.child k = some .notDisclosed ∨
    (¬ ∃ j, MakesRoom k j ∧ (entry j v).isSome) ∧ v.child k = none := by
  obtain ⟨hslot, habsent, -⟩ := h
  cases hc : v.child k with
  | none =>
    refine .inr ⟨?_, rfl⟩
    rintro ⟨j, hj, he⟩
    obtain ⟨a, ha⟩ := Option.isSome_iff_exists.mp he
    have hk := isSome_child_of_makesRoom hj (v := v) (by rw [child_of_entry ha]; rfl)
    rw [hc] at hk
    cases hk
  | some a =>
    refine .inl ⟨hslot k (by rw [hc]; rfl), congrArg some (habsent k a hc ?_)⟩
    by_contra hp
    rw [entry, hc, Option.filter_some_pos (by simpa using hp)] at hk
    cases hk

/-- Merging into a trimmed copy gives a trimmed copy. -/
theorem Trimmed.deepMerge {s : Value} : ∀ {v t out : Value}, Copy .tight v s → Copy .tight v t →
    Trimmed t → deepMerge s t = .ok out → Trimmed out := by
  induction s using child_induction with
  | h s ih =>
    intro v t out hs ht htr h
    have hm := deepMerge_merged hs.distinctTop ht.distinctTop (hs.head_eq.symm.trans ht.head_eq) h
    obtain ⟨hslot, habsent, hsub⟩ := htr
    have hkept : ∀ j, (entry j t).isSome → (entry j out).isSome := by
      intro j hj
      cases hsj : entry j s with
      | none => rwa [hm.of_none j hsj]
      | some a =>
        obtain ⟨m, -, hk⟩ := hm.of_some j a hsj
        rw [hk]
        rfl
    refine .node (fun k hk => ?_) (fun k a hk ha => ?_) fun k m hk => ?_
    · obtain hk | ⟨j, hj, hs⟩ := hm.slot k hk
      · obtain ⟨j, hj, he⟩ := hslot k hk
        exact ⟨j, hj, hkept j he⟩
      · obtain ⟨a, ha⟩ := Option.isSome_iff_exists.mp hs
        obtain ⟨m, -, hk⟩ := hm.of_some j a ha
        exact ⟨j, hj, by rw [hk]; rfl⟩
    · exact (hm.absent k a hk ha).elim id fun hk => habsent k a hk ha
    · cases hsk : entry k s with
      | none => exact hsub k m (by rw [← hm.of_none k hsk, hk])
      | some a =>
        obtain ⟨m', hmv, hk'⟩ := hm.of_some k a hsk
        obtain rfl : m' = m := Option.some.inj (hk'.symm.trans hk)
        obtain ⟨x, hx, hxa⟩ := hs.exists_child hsk
        obtain ⟨hl, rfl⟩ | ⟨-, -, h⟩ | ⟨-, o, hold, -, h⟩ := mergeValue_eq_ok hmv
        · match m', hl with
          | .leaf l, _ => exact .leaf l
        · exact ih k a (child_of_entry hsk) hxa (.empty .tight hxa.head_eq) (.head a) h
        · obtain ⟨x', hx', hxo⟩ := ht.exists_child hold
          obtain rfl : x = x' := Option.some.inj (hx.symm.trans hx')
          exact ih k a (child_of_entry hsk) hxa hxo (hsub k o hold) h

/-- Trimmed copies of a value that disclose the same positions are the same. -/
theorem Copy.same {v a b : Value} (ha : Copy .tight v a) (hb : Copy .tight v b) (hta : Trimmed a)
    (htb : Trimmed b) (h : ∀ p, Discloses a p ↔ Discloses b p) : a.Same b := by
  intro p
  induction p generalizing v a b with
  | nil => simp [← ha.head_eq, ← hb.head_eq]
  | cons k p ih =>
    have hentry : ∀ j, (entry j a).isSome ↔ (entry j b).isSome := by
      intro j
      rw [← discloses_singleton, ← discloses_singleton]
      exact h [j]
    cases hka : entry k a with
    | some a' =>
      obtain ⟨b', hkb⟩ := Option.isSome_iff_exists.mp ((hentry k).mp (by rw [hka]; rfl))
      obtain ⟨x, hx, hxa⟩ := ha.exists_child hka
      obtain ⟨x', hx', hxb⟩ := hb.exists_child hkb
      obtain rfl : x = x' := Option.some.inj (hx.symm.trans hx')
      simp only [follow_cons, child_of_entry hka, child_of_entry hkb, Option.bind_some]
      refine ih hxa hxb (hta.sub hka) (htb.sub hkb) fun p => ?_
      have hp := h (k :: p)
      simpa only [discloses_cons, hka, hkb, Option.some.injEq, exists_eq_left'] using hp
    | none =>
      have hkb : entry k b = none := by
        rw [← Option.not_isSome_iff_eq_none, ← hentry k, hka]
        simp
      have hafter : (∃ j, MakesRoom k j ∧ (entry j a).isSome) ↔ ∃ j, MakesRoom k j ∧
          (entry j b).isSome :=
        exists_congr fun j => and_congr_right fun _ => hentry j
      rw [follow_cons, follow_cons]
      obtain ⟨hj, hca⟩ | ⟨hj, hca⟩ := hta.child_eq hka
      · obtain ⟨-, hcb⟩ | ⟨hj', -⟩ := htb.child_eq hkb
        · rw [hca, hcb]
        · exact absurd (hafter.mp hj) hj'
      · obtain ⟨hj', -⟩ | ⟨-, hcb⟩ := htb.child_eq hkb
        · exact absurd (hafter.mpr hj') hj
        · rw [hca, hcb]

/-! ## Garbage -/

/-- `out` has something at a position where `v` does not have it. -/
def Garbage (v out : Value) : Prop :=
  ∃ p w, out.follow p = some w ∧ isPresent w ∧ (v.follow p).map head ≠ some w.head

theorem not_garbage_of_copy {v out : Value} (h : Copy .tight v out) : ¬ Garbage v out := by
  rintro ⟨p, w, hw, hp, hne⟩
  obtain ⟨x, hx, hh⟩ := h.follow hw hp
  exact hne (by rw [hx, Option.map_some, hh])

/-- Garbage is at the top, under a name that `v` does not have, or below an entry. -/
theorem garbage_iff {v out : Value} : Garbage v out ↔
    isPresent out ∧ v.head ≠ out.head ∨
    ∃ k a, entry k out = some a ∧ ∀ x, v.child k = some x → Garbage x a := by
  constructor
  · rintro ⟨p, w, hw, hp, hne⟩
    cases p with
    | nil =>
      cases hw
      exact .inl ⟨hp, fun h => hne (congrArg some h)⟩
    | cons k p =>
      obtain ⟨a, ha, w', hw', -⟩ := discloses_cons.mp ⟨w, hw, hp⟩
      obtain rfl : w' = w := by
        rw [follow_cons, child_of_entry ha] at hw
        exact Option.some.inj (hw'.symm.trans hw)
      refine .inr ⟨k, a, ha, fun x hx => ⟨p, w', hw', hp, ?_⟩⟩
      rwa [follow_cons, hx] at hne
  · rintro (⟨hp, hne⟩ | ⟨k, a, ha, h⟩)
    · exact ⟨[], out, rfl, hp, fun h => hne (Option.some.inj h)⟩
    · cases hc : v.child k with
      | none => exact ⟨[k], a, by simp [child_of_entry ha], isPresent_of_entry ha, by simp [hc]⟩
      | some x =>
        obtain ⟨p, w, hw, hp, hne⟩ := h x hc
        exact ⟨k :: p, w, by simp [child_of_entry ha, hw], hp, by simpa [hc] using hne⟩

theorem garbage_never : Garbage (.arr []) NEVER :=
  garbage_iff.mpr (.inl ⟨rfl, by simp [NEVER, head]⟩)

/-- Garbage in the target of a merge stays. -/
theorem garbage_deepMerge {s : Value} : ∀ {v t out : Value}, Copy (.all True) v s →
    Copy (.all True) v t →
    deepMerge s t = .ok out → Garbage v t → Garbage v out := by
  induction s using child_induction with
  | h s ih =>
    intro v t out hs ht h hg
    obtain ⟨hms, hmt, -⟩ := isMergeableObject_deepMerge h
    cases ht with
    | never =>
      cases hs with
      | node hh hd hex hcopy =>
        rw [deepMerge_none hms hd hmt (entry_arr_nil (.node hh hd hex hcopy) hh.symm)] at h
        cases h
        exact garbage_never
      | never =>
        cases h
        exact garbage_never
    | node hh' hd' hex' hcopy' =>
      have ht : Copy (.all True) v t := .node hh' hd' hex' hcopy'
      obtain ⟨-, hne⟩ | ⟨k, o, hko, hgo⟩ := garbage_iff.mp hg
      · exact absurd hh' hne
      · cases hs with
        | never =>
          rw [entry_arr_nil ht hh'.symm] at hko
          cases hko
        | node hh hd hex hcopy =>
          have hm := deepMerge_merged hd hd' (hh.symm.trans hh') h
          refine garbage_iff.mpr (.inr ?_)
          cases hsk : entry k s with
          | none => exact ⟨k, o, by rw [hm.of_none k hsk, hko], hgo⟩
          | some a =>
            obtain ⟨m, hmv, hk⟩ := hm.of_some k a hsk
            refine ⟨k, m, hk, fun x hx => ?_⟩
            have hxa := hcopy k a x hsk hx
            have hxo := hcopy' k o x hko hx
            obtain ⟨hl, rfl⟩ | ⟨-, hold, -⟩ | ⟨-, o', hold, -, h⟩ := mergeValue_eq_ok hmv
            · -- a copied leaf leaves no room for garbage
              match m, hl with
              | .leaf l, _ =>
                obtain rfl := hxa.of_leaf
                rw [hxo.eq_leaf] at hgo
                exact absurd (hgo _ hx) (not_garbage_of_copy (.refl .tight (.leaf l)))
            · rw [hko] at hold
              cases hold
            · obtain rfl : o = o' := Option.some.inj (hko.symm.trans hold)
              exact ih k a (child_of_entry hsk) hxa hxo h (hgo x hx)

/-- Garbage in the source of a merge with nothing stays. -/
theorem garbage_deepMerge_empty {s : Value} : ∀ {v out : Value}, Copy (.all True) v s →
    deepMerge s s.head = .ok out → Garbage v s → Garbage v out := by
  induction s using child_induction with
  | h s ih =>
    intro v out hs h hg
    cases hs with
    | never =>
      obtain rfl : NEVER = out := Except.ok.inj (deepMerge_never_empty.symm.trans h)
      exact garbage_never
    | node hh hd hex hcopy =>
      have hm := deepMerge_merged hd (Copy.empty (.all True) hh).distinctTop (by cases s <;> rfl) h
      obtain ⟨-, hne⟩ | ⟨k, a, hka, hga⟩ := garbage_iff.mp hg
      · exact absurd hh hne
      · obtain ⟨m, hmv, hk⟩ := hm.of_some k a hka
        refine garbage_iff.mpr (.inr ⟨k, m, hk, fun x hx => ?_⟩)
        obtain ⟨-, rfl⟩ | ⟨-, -, h⟩ | ⟨-, o, hold, -, -⟩ := mergeValue_eq_ok hmv
        · exact hga x hx
        · exact ih k a (child_of_entry hka) (hcopy k a x hka hx) h (hga x hx)
        · simp at hold

end IdentityCommon.Dcql
