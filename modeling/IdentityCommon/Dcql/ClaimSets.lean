import IdentityCommon.Dcql.ClaimsQuery

/-!
# Claim sets

The outputs of the claims of a claim set are merged to what the credential discloses for it.

## Main definitions

- `IsOutput` — the output of a claim
- `MinimalFaithful` — an output discloses what the claims match, and nothing else

## Main results

- `mergeOutputs_copies` — merging outputs without garbage
- `runClaimsQuery_eq` — the claim sets that `runClaimsQuery` reports
- `projectsClaims_iff` — when every output is minimal and faithful
-/

namespace IdentityCommon.Dcql

open Ecma AssocList Value

/-! ## Merging outputs -/

section Merge

variable {v : Value}

theorem discloses_deepMerge_copy {s t out : Value} (hs : Copy .tight v s) (ht : Copy .tight v t)
    (h : deepMerge s t = .ok out) (p : List Key) :
    Discloses out p ↔ Discloses s p ∨ Discloses t p := by
  cases hp : v.follow p with
  | some x => exact discloses_deepMerge hs ht h (by rw [hp]; rfl)
  | none =>
    have hnot : ∀ {o}, Copy .tight v o → ¬ Discloses o p := by
      rintro o ho ⟨w, hw, hpw⟩
      obtain ⟨x, hx, -⟩ := ho.follow hw hpw
      rw [hp] at hx
      cases hx
    simp [hnot (deepMerge_copy hs ht h), hnot hs, hnot ht]

theorem foldl_copies {outputs : List Value}
    (ho : ∀ o ∈ outputs, isMergeableObject o ∧ Copy .tight v o) :
    ∀ {t : Value}, Copy .tight v t → Trimmed t →
      ∃ out, outputs.foldlM (fun merged output => deepMerge output merged) t = .ok out ∧
        Copy .tight v out ∧ Trimmed out ∧
        ∀ p, Discloses out p ↔ Discloses t p ∨ ∃ o ∈ outputs, Discloses o p := by
  induction outputs with
  | nil => exact fun {t} ht htr => ⟨t, rfl, ht, htr, fun p => by simp⟩
  | cons o outputs ih =>
    intro t ht htr
    obtain ⟨⟨hmo, hco⟩, ho⟩ := List.forall_mem_cons.mp ho
    obtain ⟨t', ht'⟩ := exists_deepMerge Slack.flat_tight hmo hco ht
    obtain ⟨out, hout, hc, htr', hd⟩ := ih ho (deepMerge_copy hco ht ht') (htr.deepMerge hco ht ht')
    refine ⟨out, by rw [List.foldlM_cons, ht']; exact hout, hc, htr', fun p => ?_⟩
    rw [hd, discloses_deepMerge_copy hco ht ht', or_comm (a := Discloses o p), or_assoc]
    simp only [List.mem_cons, exists_eq_or_imp]

/-- Outputs without garbage merge to a copy that discloses what one of them does. -/
theorem mergeOutputs_copies {outputs : List Value} (hv : v.head = .obj [])
    (ho : ∀ o ∈ outputs, isMergeableObject o ∧ Copy .tight v o) :
    ∃ out, mergeOutputs outputs = .ok out ∧ Copy .tight v out ∧ Trimmed out ∧
      ∀ p, Discloses out p ↔ p = [] ∨ ∃ o ∈ outputs, Discloses o p := by
  have hempty : Copy .tight v (head (.obj [])) := .empty .tight hv
  obtain ⟨out, hout, hc, htr, hd⟩ := foldl_copies ho hempty (.head (.obj []))
  refine ⟨out, hout, hc, htr, fun p => ?_⟩
  rw [hd, discloses_head (v := .obj []) rfl]

/-- Outputs merge to a copy, with the slack that they have, that discloses what one of them does. -/
theorem foldl_discloses {g : Slack} {outputs : List Value} (ho : ∀ o ∈ outputs, Copy g v o) :
    ∀ {t out : Value}, Copy g v t →
    outputs.foldlM (fun merged output => deepMerge output merged) t = .ok out →
      Copy g v out ∧ ∀ p, (v.follow p).isSome →
      (Discloses out p ↔ Discloses t p ∨ ∃ o ∈ outputs, Discloses o p) := by
  induction outputs with
  | nil =>
    intro t out ht h
    cases h
    exact ⟨ht, fun p _ => by simp⟩
  | cons o outputs ih =>
    intro t out ht h
    obtain ⟨hco, ho⟩ := List.forall_mem_cons.mp ho
    rw [List.foldlM_cons] at h
    obtain ⟨t', ht', h⟩ := Except.bind_eq_ok.mp h
    obtain ⟨hc, hd⟩ := ih ho (deepMerge_copy hco ht ht') h
    refine ⟨hc, fun p hp => ?_⟩
    rw [hd p hp, discloses_deepMerge hco ht ht' hp, or_comm (a := Discloses o p), or_assoc]
    simp only [List.mem_cons, exists_eq_or_imp]

theorem exists_foldl {g : Slack} (hg : g.Flat) {outputs : List Value}
    (ho : ∀ o ∈ outputs, isMergeableObject o ∧ Copy g v o) :
    ∀ {t : Value}, Copy g v t →
    ∃ out, outputs.foldlM (fun merged output => deepMerge output merged) t = .ok out := by
  induction outputs with
  | nil => exact fun {t} _ => ⟨t, rfl⟩
  | cons o outputs ih =>
    intro t ht
    obtain ⟨⟨hmo, hco⟩, ho⟩ := List.forall_mem_cons.mp ho
    obtain ⟨t', ht'⟩ := exists_deepMerge hg hmo hco ht
    obtain ⟨out, hout⟩ := ih ho (deepMerge_copy hco ht ht')
    exact ⟨out, by rw [List.foldlM_cons, ht']; exact hout⟩

theorem foldl_garbage {outputs : List Value} (ho : ∀ o ∈ outputs, Copy (.all True) v o) :
    ∀ {t out : Value}, Copy (.all True) v t → Garbage v t →
      outputs.foldlM (fun merged output => deepMerge output merged) t = .ok out →
      Garbage v out := by
  induction outputs with
  | nil =>
    intro t out _ hg h
    cases h
    exact hg
  | cons o outputs ih =>
    intro t out ht hg h
    obtain ⟨hco, ho⟩ := List.forall_mem_cons.mp ho
    rw [List.foldlM_cons] at h
    obtain ⟨t', ht', h⟩ := Except.bind_eq_ok.mp h
    exact ih ho (deepMerge_copy hco ht ht') (garbage_deepMerge hco ht ht' hg) h

/-- Garbage in the first output stays. -/
theorem mergeOutputs_garbage {o out : Value} {outputs : List Value} (hv : v.head = .obj [])
    (hhead : o.head = .obj []) (ho : Copy (.all True) v o) (hg : Garbage v o)
    (hos : ∀ o ∈ outputs, Copy (.all True) v o) (h : mergeOutputs (o :: outputs) = .ok out) :
    Garbage v out := by
  rw [mergeOutputs, List.foldlM_cons] at h
  obtain ⟨t, ht, h⟩ := Except.bind_eq_ok.mp h
  rw [← hhead] at ht
  have hempty : Copy (.all True) v o.head := .empty (.all True) (hv.trans hhead.symm)
  exact foldl_garbage hos (deepMerge_copy ho hempty ht) (garbage_deepMerge_empty ho ht hg) h

end Merge

/-! ## The claims of a set -/

/-- `output` is the output of a claim that the parser accepts. -/
def IsOutput (zod : Zod) (presentation : Bool) (v : Value) (c : ClaimsQuery)
    (output : Value) : Prop :=
  ∃ payload, c.parser zod presentation v = .ok payload ∧ payload.success ∧ payload.value = output

/-- The claim with an id. -/
def findClaim (claims : List ClaimsQuery) (id : String) : Option ClaimsQuery :=
  claims.find? (·.id = some id)

/-- The claims of the claim set with an index; without claim sets, all claims. -/
def DcqlCredentialQuery.claimsOf (q : DcqlCredentialQuery) : Option ℕ → List ClaimsQuery
  | none => q.claims.getD []
  | some i => (((q.claim_sets.getD [])[i]?).getD []).filterMap (findClaim (q.claims.getD []))

/-- The entry is the one of a claim. -/
def IsEntry (zod : Zod) (presentation : Bool) (v : Value) (c : ClaimsQuery)
    (entry : ClaimEntry) : Prop :=
  ∃ i, runClaim zod presentation v i c = .ok entry

section Entries

variable {zod : Zod} {presentation : Bool} {v : Value}

theorem IsEntry.inl {c : ClaimsQuery} {s : ClaimSuccess}
    (h : IsEntry zod presentation v c (.inl s)) :
    s.claim_id = c.id ∧ IsOutput zod presentation v c s.output := by
  obtain ⟨i, h⟩ := h
  obtain ⟨payload, hp, he⟩ := runClaim_ok h
  by_cases hs : payload.success
  · rw [if_pos hs] at he
    cases he
    exact ⟨rfl, payload, hp, hs, rfl⟩
  · rw [if_neg hs] at he
    cases he

theorem IsEntry.inr {c : ClaimsQuery} {f : ClaimFailure}
    (h : IsEntry zod presentation v c (.inr f)) :
    f.claim_id = c.id := by
  obtain ⟨i, h⟩ := h
  obtain ⟨payload, hp, he⟩ := runClaim_ok h
  by_cases hs : payload.success
  · rw [if_pos hs] at he
    cases he
  · rw [if_neg hs] at he
    cases he
    rfl

theorem IsEntry.isLeft {c : ClaimsQuery} {e : ClaimEntry} (h : IsEntry zod presentation v c e) :
    e.isLeft = accepts presentation c.values c.path v := by
  obtain ⟨i, h⟩ := h
  obtain ⟨payload, hp, rfl⟩ := runClaim_ok h
  rw [← c.success_eq hp]
  cases payload.success <;> rfl

/-- The entries of claims are all successes when all claims are accepted, and then they hold the
outputs. -/
theorem outputs_of_entries {claims : List ClaimsQuery} {entries : List ClaimEntry}
    (h : List.Forall₂ (IsEntry zod presentation v) claims entries) :
    (entries.all Sum.isLeft ↔ ∀ c ∈ claims, accepts presentation c.values c.path v) ∧
    (entries.all Sum.isLeft →
      List.Forall₂ (IsOutput zod presentation v) claims
        ((lefts entries).map ClaimSuccess.output)) := by
  induction h with
  | nil => simp
  | @cons c e claims entries he _ ih =>
    refine ⟨?_, fun hall => ?_⟩
    · rw [List.all_cons, Bool.and_eq_true, ih.1, he.isLeft, List.forall_mem_cons]
    · obtain ⟨hl, hall⟩ := Bool.and_eq_true_iff.mp (List.all_cons ▸ hall)
      match e, hl with
      | .inl s, _ => exact .cons he.inl.2 (ih.2 hall)

theorem find_lefts_none {claims : List ClaimsQuery} {entries : List ClaimEntry} {id : String}
    (h : List.Forall₂ (IsEntry zod presentation v) claims entries)
    (hid : ∀ c ∈ claims, c.id ≠ some id) : (lefts entries).find? (·.claim_id = some id) = none := by
  induction h with
  | nil => rfl
  | @cons c e claims entries he _ ih =>
    obtain ⟨hc, hid⟩ := List.forall_mem_cons.mp hid
    match e with
    | .inl s =>
      rw [lefts_inl, List.find?_cons_of_neg (by simpa [he.inl.1] using hc)]
      exact ih hid
    | .inr f => exact ih hid

/-- The claim with an id has the entry that is found for it. -/
theorem find_entry {claims : List ClaimsQuery} {entries : List ClaimEntry} {id : String}
    (h : List.Forall₂ (IsEntry zod presentation v) claims entries)
    (hn : (claims.filterMap ClaimsQuery.id).Nodup) (hid : ∃ c ∈ claims, c.id = some id) :
    ∃ c, findClaim claims id = some c ∧
      ((∃ s, (lefts entries).find? (·.claim_id = some id) = some s ∧
        IsEntry zod presentation v c (.inl s)) ∨
      (lefts entries).find? (·.claim_id = some id) = none ∧
        ∃ f, (rights entries).find? (·.claim_id = some id) = some f ∧
          IsEntry zod presentation v c (.inr f)) := by
  induction h with
  | nil => simp at hid
  | @cons c e claims entries he hrest ih =>
    by_cases hc : c.id = some id
    · refine ⟨c, List.find?_cons_of_pos (by simpa using hc), ?_⟩
      match e with
      | .inl s =>
        refine .inl ⟨s, ?_, he⟩
        rw [lefts_inl, List.find?_cons_of_pos (by simpa [he.inl.1] using hc)]
      | .inr f =>
        refine .inr ⟨?_, f, ?_, he⟩
        · rw [lefts_inr]
          refine find_lefts_none hrest fun c' hc' hid' => ?_
          -- another claim with the id
          rw [List.filterMap_cons_some hc] at hn
          exact (List.nodup_cons.mp hn).1 (List.mem_filterMap.mpr ⟨c', hc', hid'⟩)
        · rw [rights_inr, List.find?_cons_of_pos (by simpa [he.inr] using hc)]
    · obtain ⟨c', hc', hid'⟩ := hid
      have hmem : c' ∈ claims := by
        obtain rfl | hmem := List.mem_cons.mp hc'
        · exact absurd hid' hc
        · exact hmem
      have hn' : (claims.filterMap ClaimsQuery.id).Nodup :=
        hn.sublist ((List.sublist_cons_self c claims).filterMap _)
      obtain ⟨c₀, hfind, hcases⟩ := ih hn' ⟨c', hmem, hid'⟩
      refine ⟨c₀, by rwa [findClaim, List.find?_cons_of_neg (by simpa using hc)], ?_⟩
      match e with
      | .inl s =>
        rw [lefts_inl, rights_inl, List.find?_cons_of_neg (by simpa [he.inl.1] using hc)]
        exact hcases
      | .inr f =>
        rw [lefts_inr, rights_inr, List.find?_cons_of_neg (a := f) (by simpa [he.inr] using hc)]
        exact hcases

/-- The entries of the claims of a set that its query has claims for. -/
theorem entries_of_ids {claims : List ClaimsQuery} {entries : List ClaimEntry}
    {queryId : String} {i : ℕ} (h : List.Forall₂ (IsEntry zod presentation v) claims entries)
    (hn : (claims.filterMap ClaimsQuery.id).Nodup) {ids : List String}
    (hids : ∀ id ∈ ids, ∃ c ∈ claims, c.id = some id) :
    ∃ es, claimsOfSet (lefts entries) (rights entries) queryId (some i, ids) = .ok es ∧
      List.Forall₂ (IsEntry zod presentation v)
        (ids.filterMap (findClaim claims)) es := by
  induction ids with
  | nil => exact ⟨[], rfl, .nil⟩
  | cons id ids ih =>
    obtain ⟨hid, hids⟩ := List.forall_mem_cons.mp hids
    obtain ⟨es, hes, hrest⟩ := ih hids
    obtain ⟨c, hfind, ⟨s, hs, he⟩ | ⟨hs, f, hf, he⟩⟩ := find_entry h hn hid
    · refine ⟨.inl s :: es, ?_, ?_⟩
      · rw [claimsOfSet, List.mapM_cons, hs]
        rw [claimsOfSet] at hes
        rw [hes]
        rfl
      · rw [List.filterMap_cons_some hfind]
        exact .cons he hrest
    · refine ⟨.inr f :: es, ?_, ?_⟩
      · rw [claimsOfSet, List.mapM_cons, hs]
        simp only [hf]
        rw [claimsOfSet] at hes
        rw [hes]
        rfl
      · rw [List.filterMap_cons_some hfind]
        exact .cons he hrest

theorem lefts_rights {entries : List ClaimEntry} :
    ((lefts entries).map Sum.inl ++ (rights entries).map Sum.inr : List ClaimEntry).all Sum.isLeft =
      entries.all Sum.isLeft := by
  induction entries with
  | nil => rfl
  | cons e entries ih =>
    match e with
    | .inl s => simpa using ih
    | .inr f => simp

theorem lefts_lefts {entries : List ClaimEntry} :
    lefts ((lefts entries).map Sum.inl ++ (rights entries).map Sum.inr : List ClaimEntry) =
      lefts entries := by
  simp [lefts, rights, List.filterMap_map, Function.comp_def]

/-- The claims of a set, and whether all of them are accepted. -/
theorem claimsOfSet_spec {q : DcqlCredentialQuery} {claims : List ClaimsQuery}
    {entries : List ClaimEntry} (hq : q.claims = some claims)
    (h : List.Forall₂ (IsEntry zod presentation v) claims entries) {set : Option ℕ × List String}
    (hset : set ∈ q.claimSetEntries) :
    ∃ es, claimsOfSet (lefts entries) (rights entries) q.id set = .ok es ∧
      (es.all Sum.isLeft ↔ ∀ c ∈ q.claimsOf set.1, accepts presentation c.values c.path v) ∧
      (es.all Sum.isLeft → List.Forall₂ (IsOutput zod presentation v) (q.claimsOf set.1)
        ((lefts es).map ClaimSuccess.output)) := by
  unfold DcqlCredentialQuery.claimSetEntries at hset
  cases hs : q.claim_sets with
  | none =>
    rw [hs] at hset
    obtain rfl := List.mem_singleton.mp hset
    refine ⟨_, rfl, ?_⟩
    rw [lefts_rights, lefts_lefts, DcqlCredentialQuery.claimsOf, hq]
    exact outputs_of_entries h
  | some sets =>
    rw [hs] at hset
    obtain ⟨⟨ids, i⟩, hmem, rfl⟩ := List.mem_map.mp hset
    have hget : sets[i]? = some ids := List.mem_zipIdx_iff_getElem?.mp hmem
    have hids : ids ∈ sets := List.mem_of_getElem? hget
    obtain ⟨es, hes, hrest⟩ := entries_of_ids (i := i) h (q.claim_ids claims hq)
      (q.claim_sets_ids sets hs claims hq ids hids)
    refine ⟨es, hes, ?_⟩
    simp only [DcqlCredentialQuery.claimsOf, hq, hs, hget, Option.getD_some]
    exact outputs_of_entries hrest

end Entries

/-! ## The result -/

section Result

variable {zod : Zod} {q : DcqlCredentialQuery} {credential : DcqlCredential} {presentation : Bool}
  {claims : List ClaimsQuery}

theorem entries_of_zipIdx {v : Value} {entries : List ClaimEntry}
    (h : (claims.zipIdx.mapM fun (claimQuery, claimIndex) =>
      runClaim zod presentation v claimIndex claimQuery) = .ok entries) :
    List.Forall₂ (IsEntry zod presentation v) claims entries := by
  have h₂ := Except.mapM_eq_ok.mp h
  have hmap : claims = claims.zipIdx.map Prod.fst := by simp
  rw [hmap, List.forall₂_map_left_iff]
  exact h₂.imp fun _ _ he => ⟨_, he⟩

/-- `outputs` are those of the claims of a claim set, all of them accepted. -/
def Satisfied (zod : Zod) (presentation : Bool) (q : DcqlCredentialQuery) (v : Value)
    (set : Option ℕ × List String) (outputs : List Value) : Prop :=
  set ∈ q.claimSetEntries ∧ List.Forall₂ (IsOutput zod presentation v) (q.claimsOf set.1) outputs

/-- A claim set gives what its outputs merge to, if all its claims are accepted. -/
theorem runClaimSet_spec {v : Value} {entries : List ClaimEntry} (hq : q.claims = some claims)
    (h : List.Forall₂ (IsEntry zod presentation v) claims entries) {set : Option ℕ × List String}
    (hset : set ∈ q.claimSetEntries) :
    ((∀ c ∈ q.claimsOf set.1, accepts presentation c.values c.path v) →
      ∃ outputs indexes, Satisfied zod presentation q v set outputs ∧
        runClaimSet (lefts entries) (rights entries) q.id set =
          (liftDcqlError (mergeOutputs outputs)).map fun out => .inl ⟨set.1, out, indexes⟩) ∧
    (¬ (∀ c ∈ q.claimsOf set.1, accepts presentation c.values c.path v) →
      ∃ f, runClaimSet (lefts entries) (rights entries) q.id set = .ok (.inr f)) := by
  obtain ⟨es, hes, hiff, hout⟩ := claimsOfSet_spec hq h hset
  constructor
  · intro hall
    have hleft := hiff.mpr hall
    refine ⟨_, (lefts es).map ClaimSuccess.claim_index, ⟨hset, hout hleft⟩, ?_⟩
    rw [runClaimSet, hes]
    simp only [bind, Except.bind, if_pos hleft]
    cases liftDcqlError (mergeOutputs ((lefts es).map ClaimSuccess.output)) <;> rfl
  · intro hall
    rw [runClaimSet, hes]
    simp only [bind, Except.bind, if_neg (fun hl => hall (hiff.mp hl))]
    exact ⟨_, rfl⟩

theorem runClaimsQuery_of_none (hq : q.claims = none) :
    runClaimsQuery zod q credential presentation = .ok ⟨[], [], [⟨none, .obj [], []⟩], []⟩ := by
  rw [runClaimsQuery, hq]
  rfl

/-- A claim whose parser throws makes the query throw. -/
theorem runClaimsQuery_raises (hq : q.claims = some claims)
    (h : ∃ c ∈ claims, raises zod presentation c.values c.path (.obj credential.claims)) :
    runClaimsQuery zod q credential presentation = .error .typeError := by
  obtain ⟨c, hc, hr⟩ := h
  obtain ⟨i, hi⟩ := List.mem_iff_getElem?.mp hc
  have hmem : (c, i) ∈ claims.zipIdx := List.mem_zipIdx_iff_getElem?.mpr hi
  obtain ⟨e, he⟩ := Except.mapM_eq_error hmem
    (f := fun (c, i) => runClaim zod presentation (.obj credential.claims) i c) (runClaim_error hr)
  obtain ⟨⟨c', i'⟩, -, he'⟩ := Except.exists_of_mapM_error he
  have hte : e = .typeError := by
    change runClaim _ _ _ _ _ = _ at he'
    unfold runClaim at he'
    split at he'
    · cases he'
      rfl
    · cases he'
  rw [runClaimsQuery, hq]
  simp only [he, hte, bind, Except.bind]

/-- When no parser throws, the result is that of the claim sets. -/
theorem runClaimsQuery_eq (hq : q.claims = some claims)
    (h : ∀ c ∈ claims, raises zod presentation c.values c.path (.obj credential.claims) = false) :
    ∃ entries, (claims.zipIdx.mapM fun (claimQuery, claimIndex) =>
        runClaim zod presentation (.obj credential.claims) claimIndex claimQuery) = .ok entries ∧
      runClaimsQuery zod q credential presentation =
        (q.claimSetEntries.mapM (runClaimSet (lefts entries) (rights entries) q.id)).map fun sets =>
          ⟨lefts entries, rights entries, lefts sets, rights sets⟩ := by
  obtain ⟨entries, he⟩ := Except.exists_mapM_eq_ok (l := claims.zipIdx)
    (f := fun (c, i) => runClaim zod presentation (.obj credential.claims) i c) fun e he =>
      exists_runClaim (h e.1 (List.mem_of_getElem? (List.mem_zipIdx_iff_getElem?.mp he))) e.2
  refine ⟨entries, he, ?_⟩
  rw [runClaimsQuery, hq]
  simp only [he, bind, Except.bind]
  cases q.claimSetEntries.mapM (runClaimSet (lefts entries) (rights entries) q.id) <;> rfl

theorem raises_false_of_ok (hq : q.claims = some claims) {r : DcqlClaimsResult}
    (h : runClaimsQuery zod q credential presentation = .ok r) :
    ∀ c ∈ claims, raises zod presentation c.values c.path (.obj credential.claims) = false := by
  intro c hc
  by_contra hr
  rw [runClaimsQuery_raises hq ⟨c, hc, by simpa using hr⟩] at h
  cases h

/-- A merge that throws is the only way to a `DcqlError`. -/
theorem satisfied_of_dcqlError (hq : q.claims = some claims) {e : DcqlError}
    (h : runClaimsQuery zod q credential presentation = .error (.dcqlError e)) :
    ∃ set outputs, Satisfied zod presentation q (.obj credential.claims) set outputs ∧
      mergeOutputs outputs = .error e := by
  have hraises : ∀ c ∈ claims, raises zod presentation c.values c.path
      (.obj credential.claims) = false := by
    intro c hc
    by_contra hr
    rw [runClaimsQuery_raises hq ⟨c, hc, by simpa using hr⟩] at h
    cases h
  obtain ⟨entries, hmap, hrun⟩ := runClaimsQuery_eq hq hraises
  have he := entries_of_zipIdx hmap
  rw [hrun] at h
  cases hm : q.claimSetEntries.mapM (runClaimSet (lefts entries) (rights entries) q.id) with
  | ok sets =>
    rw [hm] at h
    cases h
  | error e' =>
    rw [hm] at h
    obtain rfl : e' = .dcqlError e := by simpa [Except.map] using h
    obtain ⟨set, hset, hse⟩ := Except.exists_of_mapM_error hm
    obtain ⟨hall, hnot⟩ := runClaimSet_spec hq he hset
    by_cases hacc : ∀ c ∈ q.claimsOf set.1, accepts presentation c.values c.path
      (.obj credential.claims)
    · obtain ⟨outputs, indexes, hsat, hrunset⟩ := hall hacc
      refine ⟨set, outputs, hsat, ?_⟩
      rw [hrunset] at hse
      cases hmo : mergeOutputs outputs with
      | ok out =>
        rw [hmo] at hse
        cases hse
      | error e'' =>
        rw [hmo] at hse
        simp only [liftDcqlError, Except.map, Except.error.injEq, Thrown.dcqlError.injEq] at hse
        rw [hse]
    · obtain ⟨f, hf⟩ := hnot hacc
      rw [hf] at hse
      cases hse

/-- The valid claim sets of the result are those that are satisfied, with what their outputs merge
to. -/
theorem satisfied_of_valid (hq : q.claims = some claims) {r : DcqlClaimsResult}
    (h : runClaimsQuery zod q credential presentation = .ok r) {s : ClaimSetSuccess}
    (hs : s ∈ r.valid_claim_sets) :
    ∃ ids outputs, Satisfied zod presentation q (.obj credential.claims)
      (s.claim_set_index, ids) outputs ∧
      mergeOutputs outputs = .ok s.output := by
  obtain ⟨entries, hmap, hrun⟩ := runClaimsQuery_eq hq (raises_false_of_ok hq h)
  have he := entries_of_zipIdx hmap
  obtain ⟨sets, hsets, rfl⟩ := Except.map_eq_ok.mp (hrun.symm.trans h)
  obtain ⟨entry, hentry, hl⟩ := List.mem_filterMap.mp hs
  obtain rfl : entry = .inl s := by
    match entry, hl with
    | .inl _, rfl => rfl
  obtain ⟨n, hn⟩ := List.mem_iff_getElem?.mp hentry
  obtain ⟨set, hset, hrunset⟩ := (Except.getElem?_mapM hsets).mp hn
  obtain ⟨hall, hnot⟩ := runClaimSet_spec hq he (List.mem_of_getElem? hset)
  by_cases hacc : ∀ c ∈ q.claimsOf set.1, accepts presentation c.values c.path
    (.obj credential.claims)
  · obtain ⟨outputs, indexes, hsat, heq⟩ := hall hacc
    rw [heq] at hrunset
    cases hm : mergeOutputs outputs with
    | error e =>
      rw [hm] at hrunset
      cases hrunset
    | ok out =>
      rw [hm] at hrunset
      cases hrunset
      exact ⟨set.2, outputs, hsat, hm⟩
  · obtain ⟨f, hf⟩ := hnot hacc
    rw [hf] at hrunset
    cases hrunset

/-- A result, when neither a parser nor a merge throws. -/
theorem runClaimsQuery_eq_ok (hq : q.claims = some claims)
    (hr : ∀ c ∈ claims, raises zod presentation c.values c.path (.obj credential.claims) = false)
    (he : ∀ e, runClaimsQuery zod q credential presentation ≠ .error (.dcqlError e)) :
    ∃ entries sets, (claims.zipIdx.mapM fun (claimQuery, claimIndex) =>
        runClaim zod presentation (.obj credential.claims) claimIndex claimQuery) = .ok entries ∧
      q.claimSetEntries.mapM (runClaimSet (lefts entries) (rights entries) q.id) = .ok sets ∧
      runClaimsQuery zod q credential presentation =
        .ok ⟨lefts entries, rights entries, lefts sets, rights sets⟩ := by
  obtain ⟨entries, hmap, hrun⟩ := runClaimsQuery_eq hq hr
  cases hm : q.claimSetEntries.mapM (runClaimSet (lefts entries) (rights entries) q.id) with
  | ok sets =>
    rw [hm] at hrun
    exact ⟨entries, sets, hmap, hm, hrun⟩
  | error e =>
    obtain ⟨set, hset, hse⟩ := Except.exists_of_mapM_error hm
    obtain ⟨hall, hnot⟩ := runClaimSet_spec hq (entries_of_zipIdx hmap) hset
    by_cases hacc : ∀ c ∈ q.claimsOf set.1, accepts presentation c.values c.path
      (.obj credential.claims)
    · obtain ⟨outputs, indexes, -, heq⟩ := hall hacc
      rw [heq] at hse
      cases hmo : mergeOutputs outputs with
      | ok out =>
        rw [hmo] at hse
        cases hse
      | error e' =>
        rw [hmo] at hse
        cases hse
        refine absurd ?_ (he e')
        rw [hrun, hm]
        rfl
    · obtain ⟨f, hf⟩ := hnot hacc
      rw [hf] at hse
      cases hse

/-- A set whose claims are all accepted is reported, unless a merge throws. -/
theorem valid_of_accepts (hq : q.claims = some claims)
    (hr : ∀ c ∈ claims, raises zod presentation c.values c.path (.obj credential.claims) = false)
    (he : ∀ e, runClaimsQuery zod q credential presentation ≠ .error (.dcqlError e))
    {set : Option ℕ × List String} (hset : set ∈ q.claimSetEntries)
    (hacc : ∀ c ∈ q.claimsOf set.1, accepts presentation c.values c.path (.obj credential.claims)) :
    ∃ r, runClaimsQuery zod q credential presentation = .ok r ∧
      ∃ s ∈ r.valid_claim_sets, s.claim_set_index = set.1 := by
  obtain ⟨entries, sets, hmap, hm, hrun⟩ := runClaimsQuery_eq_ok hq hr he
  refine ⟨_, hrun, ?_⟩
  obtain ⟨outputs, indexes, -, heq⟩ := (runClaimSet_spec hq (entries_of_zipIdx hmap) hset).1 hacc
  obtain ⟨entry, hentry⟩ := Except.exists_of_mapM hm hset
  rw [heq] at hentry
  cases hmo : mergeOutputs outputs with
  | error e =>
    rw [hmo] at hentry
    cases hentry
  | ok out =>
    rw [hmo] at hentry
    cases hentry
    obtain ⟨n, hn⟩ := List.mem_iff_getElem?.mp hset
    have hs := (Except.getElem?_mapM hm).mpr ⟨set, hn, by rw [heq, hmo]; rfl⟩
    exact ⟨_, List.mem_filterMap.mpr ⟨_, List.mem_of_getElem? hs, rfl⟩, rfl⟩

end Result

/-! ## Minimal and faithful outputs -/

/-- A claim matches the position, a position below it or one above it. -/
def DisclosedBy (claims : List ClaimsQuery) (v : Value) (p : List Key) : Prop :=
  ∃ c ∈ claims, ∃ m, Matched c.values c.path v m ∧ (p <+: m ∨ m <+: p)

/-- The output discloses the positions that the claims do, each with what `v` has there, and the
claims give the same output in any other order. -/
structure MinimalFaithful (zod : Zod) (claims : List ClaimsQuery) (v output : Value) : Prop where
  discloses : ∀ p, p ≠ [] → (Discloses output p ↔ Discloses v p ∧ DisclosedBy claims v p)
  faithful : ∀ p w, output.follow p = some w → isPresent w → (v.follow p).map head = some w.head
  order : ∀ claims', claims'.Perm claims → ∃ outputs output',
    List.Forall₂ (IsOutput zod false v) claims' outputs ∧ mergeOutputs outputs = .ok output' ∧
    output'.Same output

section MinimalFaithful

variable {zod : Zod} {v : Value}

theorem IsOutput.isMergeableObject {presentation : Bool} {members : List (String × Value)}
    {c : ClaimsQuery} {o : Value} (h : IsOutput zod presentation (.obj members) c o) :
    isMergeableObject o := by
  obtain ⟨payload, hp, hs, rfl⟩ := h
  exact isMergeableObject_of_head (c.output_obj hp hs)

theorem IsOutput.copy {g : Slack} {presentation : Bool} {c : ClaimsQuery} {o : Value}
    (hd : v.Distinct) (h : IsOutput zod presentation v c o)
    (hg : g.Covers presentation c.values c.path v) : Copy g v o := by
  obtain ⟨payload, hp, hs, rfl⟩ := h
  exact c.output_copy hd hg hp hs

theorem IsOutput.discloses {c : ClaimsQuery} {o : Value} (hd : v.Distinct)
    (h : IsOutput zod false v c o) (hg : reachesVacuous c.values c.path v = false) (p : List Key) :
    Discloses o p ↔ Discloses v p ∧ ∃ m, Matched c.values c.path v m ∧ (p <+: m ∨ m <+: p) := by
  obtain ⟨payload, hp, hs, rfl⟩ := h
  exact c.output_projects hd hp hs hg p

/-- What the outputs of claims that are not vacuous merge to. -/
theorem mergeOutputs_claims {members : List (String × Value)} {claims : List ClaimsQuery}
    {outputs : List Value} (hd : (obj members).Distinct)
    (ho : List.Forall₂ (IsOutput zod false (.obj members)) claims outputs)
    (hg : ∀ c ∈ claims, reachesVacuous c.values c.path (.obj members) = false) :
    ∃ out, mergeOutputs outputs = .ok out ∧ Copy .tight (.obj members) out ∧ Trimmed out ∧
      ∀ p, Discloses out p ↔ p = [] ∨ Discloses (.obj members) p ∧
      DisclosedBy claims (.obj members) p := by
  have hall : ∀ o ∈ outputs, ∃ c ∈ claims, IsOutput zod false (.obj members) c o :=
    fun o hmem => Except.exists_of_forall₂ ho.flip hmem
  have hex : ∀ c ∈ claims, ∃ o ∈ outputs, IsOutput zod false (.obj members) c o :=
    fun c hmem => Except.exists_of_forall₂ ho hmem
  obtain ⟨out, hout, hc, htr, hdis⟩ := mergeOutputs_copies rfl fun o hmem => by
    obtain ⟨c, hmemc, hco⟩ := hall o hmem
    exact ⟨hco.isMergeableObject, hco.copy hd (Slack.covers_tight (hg c hmemc))⟩
  refine ⟨out, hout, hc, htr, fun p => (hdis p).trans (or_congr Iff.rfl ⟨?_, ?_⟩)⟩
  · rintro ⟨o, hmem, hp⟩
    obtain ⟨c, hmemc, hco⟩ := hall o hmem
    obtain ⟨hv, hm⟩ := (hco.discloses hd (hg c hmemc) p).mp hp
    exact ⟨hv, c, hmemc, hm⟩
  · rintro ⟨hv, c, hmemc, hm⟩
    obtain ⟨o, hmem, hco⟩ := hex c hmemc
    exact ⟨o, hmem, (hco.discloses hd (hg c hmemc) p).mpr ⟨hv, hm⟩⟩

theorem disclosedBy_perm {claims claims' : List ClaimsQuery} (h : claims'.Perm claims)
    (p : List Key) :
    DisclosedBy claims' v p ↔ DisclosedBy claims v p :=
  exists_congr fun _ => and_congr_left fun _ => h.mem_iff

/-- Without vacuous claims the output is minimal and faithful. -/
theorem minimalFaithful {members : List (String × Value)} {claims : List ClaimsQuery}
    {outputs : List Value} {output : Value} (hd : (obj members).Distinct)
    (ho : List.Forall₂ (IsOutput zod false (.obj members)) claims outputs)
    (hg : ∀ c ∈ claims, reachesVacuous c.values c.path (.obj members) = false)
    (hout : mergeOutputs outputs = .ok output) :
    MinimalFaithful zod claims (.obj members) output := by
  obtain ⟨output₀, hout₀, hc, htr, hdis⟩ := mergeOutputs_claims hd ho hg
  obtain rfl : output₀ = output := Except.ok.inj (hout₀.symm.trans hout)
  refine ⟨fun p hp => by simp [hdis, hp], fun p w hw hp => ?_, fun claims' hperm => ?_⟩
  · obtain ⟨x, hx, hh⟩ := hc.follow hw hp
    rw [hx, Option.map_some, hh]
  · obtain ⟨outputs', ho', -⟩ := List.perm_comp_forall₂ hperm ho
    obtain ⟨output', hout', hc', htr', hdis'⟩ :=
      mergeOutputs_claims hd ho' fun c hmem => hg c (hperm.mem_iff.mp hmem)
    refine ⟨outputs', output', ho', hout', hc'.same hc htr' htr fun p => ?_⟩
    rw [hdis, hdis', disclosedBy_perm hperm]

/-- The output of a set with a vacuous claim is not minimal and faithful: with that claim first, its
garbage stays. -/
theorem not_minimalFaithful {members : List (String × Value)} {claims : List ClaimsQuery}
    {output : Value} (hj : (obj members).IsJson)
    (hg : ∃ c ∈ claims, reachesVacuous c.values c.path (.obj members)) :
    ¬ MinimalFaithful zod claims (.obj members) output := by
  obtain ⟨c, hmem, hg⟩ := hg
  rintro ⟨-, hfaithful, horder⟩
  obtain ⟨before, after, rfl⟩ := List.append_of_mem hmem
  obtain ⟨_, output', ho, hout, hsame⟩ := horder (c :: (before ++ after)) List.perm_middle.symm
  cases ho with
  | @cons _ o _ outputs hco hos =>
    have hcopy : ∀ {c' o'}, IsOutput zod false (.obj members) c' o' →
        Copy (.all True) (.obj members) o' := by
      rintro c' o' ⟨payload, hp, hs, rfl⟩
      exact c'.output_copy hj.distinct (Slack.covers_all (fun _ => hj) fun _ => trivial) hp hs
    have hgarbage : Garbage (.obj members) output' := by
      obtain ⟨payload, hp, hs, rfl⟩ := hco
      refine mergeOutputs_garbage rfl (c.output_obj hp hs) (hcopy ⟨payload, hp, hs, rfl⟩)
        (c.output_garbage hj hp hs hg) (fun o' hmem' => ?_) hout
      obtain ⟨c', -, hco'⟩ := Except.exists_of_forall₂ hos.flip hmem'
      exact hcopy hco'
    obtain ⟨p, w, hw, hp, hne⟩ := hgarbage
    -- the output in the order of the set has the same garbage
    obtain ⟨w', hw', hh⟩ : ∃ w', output.follow p = some w' ∧ w'.head = w.head := by
      have hs := hsame p
      rw [hw, Option.map_some] at hs
      exact Option.map_eq_some_iff.mp hs.symm
    refine hne (hh ▸ hfaithful p w' hw' ?_)
    rw [← isPresent_head, hh, isPresent_head]
    exact hp

end MinimalFaithful

/-! ## The claim sets of a query -/

/-- No merge throws, and every valid claim set of the result has a minimal and faithful output. -/
def ProjectsClaims (zod : Zod) (q : DcqlCredentialQuery) (credential : DcqlCredential) : Prop :=
  (∀ e, runClaimsQuery zod q credential false ≠ .error (.dcqlError e)) ∧
  ∀ r, runClaimsQuery zod q credential false = .ok r → ∀ s ∈ r.valid_claim_sets,
    MinimalFaithful zod (q.claimsOf s.claim_set_index) (.obj credential.claims) s.output

/-- A claim selects an allowed element or is vacuous. -/
def ClaimsQuery.Holds (c : ClaimsQuery) (v : Value) : Prop :=
  Selects c.values c.path v ∨ reachesVacuous c.values c.path v

/-- No claim set whose claims all hold has a vacuous claim, unless the evaluation of a claim of the
query throws. -/
def AvoidsVacuous (zod : Zod) (q : DcqlCredentialQuery) (v : Value) : Prop :=
  (∃ c ∈ q.claims.getD [], raises zod false c.values c.path v) ∨
  ∀ set ∈ q.claimSetEntries, (∀ c ∈ q.claimsOf set.1, c.Holds v) →
    ∀ c ∈ q.claimsOf set.1, reachesVacuous c.values c.path v = false

theorem projectsClaims_of_none {zod : Zod} {q : DcqlCredentialQuery} {credential : DcqlCredential}
    (hq : q.claims = none) (hd : (obj credential.claims).Distinct) :
    ProjectsClaims zod q credential := by
  rw [ProjectsClaims, runClaimsQuery_of_none hq]
  refine ⟨nofun, ?_⟩
  rintro r ⟨⟩ s hs
  obtain rfl := List.mem_singleton.mp hs
  rw [DcqlCredentialQuery.claimsOf, hq]
  exact minimalFaithful hd .nil (by simp) rfl

theorem claimsOf_of_none {q : DcqlCredentialQuery} (hq : q.claims = none) (i : Option ℕ) :
    q.claimsOf i = [] := by
  cases i with
  | none => rw [DcqlCredentialQuery.claimsOf, hq]; rfl
  | some i =>
    rw [DcqlCredentialQuery.claimsOf, hq, List.filterMap_eq_nil_iff]
    exact fun _ _ => rfl

/-- The outputs of the claim sets of a query are minimal and faithful if and only if the query
avoids vacuous claims. -/
theorem projectsClaims_iff (zod : Zod) (q : DcqlCredentialQuery) (credential : DcqlCredential)
    (hj : (obj credential.claims).IsJson) :
    ProjectsClaims zod q credential ↔ AvoidsVacuous zod q (.obj credential.claims) := by
  have hd := hj.distinct
  cases hq : q.claims with
  | none =>
    refine iff_of_true (projectsClaims_of_none hq hd) (.inr fun set _ _ c hc => ?_)
    rw [claimsOf_of_none hq] at hc
    cases hc
  | some claims =>
    have hholds : ∀ c : ClaimsQuery, accepts false c.values c.path (.obj credential.claims) ↔
        c.Holds (.obj credential.claims) := fun c => accepts_iff c.values c.path _
    by_cases hr : ∃ c ∈ claims, raises zod false c.values c.path (.obj credential.claims)
    · have herr : runClaimsQuery zod q credential false = .error .typeError :=
        runClaimsQuery_raises hq hr
      refine iff_of_true ⟨fun e h => ?_, fun r h => ?_⟩ (.inl (by rwa [hq]))
      · rw [herr] at h
        cases h
      · rw [herr] at h
        cases h
    · have hr' : ∀ c ∈ claims, raises zod false c.values c.path
          (.obj credential.claims) = false := by
        simpa using hr
      constructor
      · rintro ⟨hmerge, hvalid⟩
        refine .inr fun set hset hall c hc => ?_
        by_contra hg
        obtain ⟨r, hrun, s, hs, hi⟩ := valid_of_accepts hq hr' hmerge hset
          fun c hc => (hholds c).mpr (hall c hc)
        refine not_minimalFaithful hj ⟨c, ?_, by simpa using hg⟩ (hvalid r hrun s hs)
        rwa [hi]
      · rintro (hraises | havoid)
        · rw [hq] at hraises
          exact absurd hraises hr
        · have hset : ∀ {set outputs}, Satisfied zod false q (.obj credential.claims) set outputs →
              ∀ c ∈ q.claimsOf set.1, reachesVacuous c.values c.path
                (.obj credential.claims) = false := by
            rintro set outputs ⟨hset, ho⟩
            refine havoid set hset fun c hc => (hholds c).mp ?_
            obtain ⟨o, -, payload, hp, hs, -⟩ := Except.exists_of_forall₂ ho hc
            rw [← c.success_eq hp, hs]
          constructor
          · intro e he
            obtain ⟨set, outputs, hsat, hm⟩ := satisfied_of_dcqlError hq he
            obtain ⟨out, hout, -⟩ := mergeOutputs_claims hd hsat.2 (hset hsat)
            rw [hout] at hm
            cases hm
          · intro r hrun s hs
            obtain ⟨ids, outputs, hsat, hm⟩ := satisfied_of_valid hq hrun hs
            exact minimalFaithful hd hsat.2 (hset hsat) hm

/-- Two claims of a credential, one within what the other discloses. -/
def addressQuery : DcqlCredentialQuery where
  id := "pid"
  format := .dc_sd_jwt
  claims := some [.json { path := [.name "address"] },
    .json { path := [.name "address", .name "lines", .index 1] }]
  claims_format := by
    rintro cs ⟨⟩
    decide
  claim_ids := by
    rintro cs ⟨⟩
    decide
  claim_sets_ids := fun _ h => by cases h

theorem projectsClaims_address :
    ProjectsClaims ⟨true⟩ addressQuery
        (sdJwtCredential [("address", .obj [("lines", .arr [.str "a", .str "b"])])]) ↔
      AvoidsVacuous ⟨true⟩ addressQuery
        (.obj [("address", .obj [("lines", .arr [.str "a", .str "b"])])]) :=
  projectsClaims_iff ⟨true⟩ addressQuery
    (sdJwtCredential [("address", .obj [("lines", .arr [.str "a", .str "b"])])])
      (.of_isJson (by decide))

/-- The claims of a credential without nationalities are disclosed with something else. -/
theorem not_projectsClaims_no_nationality :
    ¬ ProjectsClaims ⟨true⟩ (singleClaimQuery { path := [.name "nationalities", .null] })
      (sdJwtCredential [("nationalities", .arr [])]) := by
  rintro ⟨-, hvalid⟩
  have h := (hvalid _ rfl _ (List.mem_singleton_self _)).faithful
    [.name "nationalities"] NEVER rfl rfl
  -- an array in the credential, an object in the output
  cases h

end IdentityCommon.Dcql
