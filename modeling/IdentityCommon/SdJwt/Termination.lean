import IdentityCommon.SdJwt.Unpack

/-!
# Processing terminates

Every disclosure whose value is processed has a digest that was not seen before, so that the
number of disclosures with unseen digests bounds the depth.

## Main results

- `unpackObjN_eq` — every bound on the depth from `depthBound` on gives the same result
- `unpackObj_eq_ok` — when processing succeeds, and what it returns
-/

namespace IdentityCommon.SdJwt

open Ecma Value AssocList IdentityCommon.Except

variable {map : DisclosureMap}

/-- The number of disclosures whose digests were not seen. -/
def unseen (map : DisclosureMap) (seen : List String) : ℕ := (keys map).countP (· ∉ seen)

theorem unseen_le {seen seen' : List String} (h : seen ⊆ seen') :
    unseen map seen' ≤ unseen map seen :=
  List.countP_mono_left fun hash _ hnew => by
    simp only [decide_eq_true_eq] at hnew ⊢
    exact fun hmem => hnew (h hmem)

theorem unseen_concat_lt {hash : String} {seen : List String} (hmem : hash ∈ keys map)
    (hnew : hash ∉ seen) :
    unseen map (seen ++ [hash]) < unseen map seen := by
  rw [unseen, unseen, List.countP_eq_length_filter, List.countP_eq_length_filter]
  have hsub : (keys map).filter (· ∉ seen ++ [hash]) = ((keys map).filter (· ∉ seen)).filter
      (· ≠ hash) := by
    rw [List.filter_filter]
    refine List.filter_congr fun x _ => ?_
    simp [and_comm]
  rw [hsub]
  refine List.length_filter_lt_length_iff_exists.mpr ⟨hash, ?_, by simp⟩
  simpa using ⟨hmem, hnew⟩

theorem disclosed_cases {hash : String} {key : Option String} {value : Value}
    (h : disclosed map hash = some (key, value)) :
    hash ∈ keys map ∨ key = none ∧ value = undefined := by
  rcases disclosed_eq_some h with ⟨d, hd, -⟩ | ⟨-, -, hkv⟩
  · exact .inl (mem_keys_of_mem (mem_of_lookup hd))
  · exact .inr hkv

/-- Two ways to process disclosed values agree while fewer than `k` disclosures are unseen, and on
leaves. -/
def Agree (map : DisclosureMap) (k : ℕ) (process process' : Processor) : Prop :=
  ∀ path v seen, v.Distinct → (unseen map seen < k ∨ ∃ l, v = .leaf l) →
    Settled .outOfFuel (process path v seen) (process' path v seen)

/-- A pass has one result with both of them. -/
def AgreeAt (map : DisclosureMap) (k : ℕ) (process process' : Processor) (v : Value) : Prop :=
  ∀ path seen, v.Distinct → unseen map seen ≤ k →
    Settled .outOfFuel (unpackObjInternal map process path v seen)
      (unpackObjInternal map process' path v seen)

theorem settled_addDigest (hash : String) (seen : List String) :
    Settled .outOfFuel (addDigest hash seen) (addDigest hash seen) := by
  rw [addDigest]
  split
  · exact .error fun h => by cases h
  · exact .ok _ _

theorem agree_digests {process process' : Processor} {k : ℕ} (ha : Agree map k process process')
    (hp : Sound map process) (hm : DistinctValues map) (path : String)
    (payload : List (String × Value)) (_sd : List String) (claims : List (String × Value))
    (keymap : DisclosureKeymap) {seen : List String} (hk : unseen map seen ≤ k) :
    Settled .outOfFuel (unpackDigests map process path payload _sd claims keymap seen)
      (unpackDigests map process' path payload _sd claims keymap seen) := by
  induction _sd generalizing claims keymap seen with
  | nil => exact .ok _ _
  | cons hash _sd ih =>
    refine (settled_addDigest hash seen).bind fun seen' hadd => ?_
    obtain ⟨hnew, rfl⟩ := addDigest_eq_ok.mp hadd
    have hk' : unseen map (seen ++ [hash]) ≤ k := (unseen_le (List.subset_append_left _ _)).trans hk
    split
    case h_1 => exact ih _ _ hk'
    case h_2 => exact .error nofun
    case h_3 key value hd =>
      split
      · exact .error nofun
      split
      · exact .error nofun
      have hmem : hash ∈ keys map := (disclosed_cases hd).resolve_right nofun
      refine (ha _ _ _ (hm.disclosed hd) (.inl ((unseen_concat_lt hmem hnew).trans_le hk))).bind ?_
      rintro ⟨r, seen'⟩ hr
      obtain ⟨t, rfl, ht⟩ := hp _ _ _ _ _ (hm.disclosed hd) hr
      refine ih _ _ ?_
      rw [ht.seen_eq]
      exact (unseen_le (List.subset_append_left _ _)).trans hk'

theorem agree_items {process process' : Processor} {k : ℕ} (ha : Agree map k process process')
    (hp : Sound map process) (hm : DistinctValues map) (path : String) {items : List Value}
    (ih : ∀ x ∈ items, AgreeAt map k process process' x) (hd : ∀ x ∈ items, x.Distinct) (idx : ℕ)
    (keymap : DisclosureKeymap) {seen : List String} (hk : unseen map seen ≤ k) :
    Settled .outOfFuel (unpackArray map process path idx items keymap seen)
      (unpackArray map process' path idx items keymap seen) := by
  induction items generalizing idx keymap seen with
  | nil => exact .ok _ _
  | cons x items ihs =>
    obtain ⟨ihx, ihitems⟩ := List.forall_mem_cons.mp ih
    obtain ⟨hdx, hditems⟩ := List.forall_mem_cons.mp hd
    rw [unpackArray, unpackArray]
    dsimp only
    split
    case h_1 => exact .error fun h => by cases h
    case h_2 hash _ =>
      refine (settled_addDigest hash seen).bind fun seen' hadd => ?_
      obtain ⟨hnew, rfl⟩ := addDigest_eq_ok.mp hadd
      have hk' : unseen map (seen ++ [hash]) ≤ k :=
        (unseen_le (List.subset_append_left _ _)).trans hk
      split
      case h_1 => exact ihs ihitems hditems _ _ hk'
      case h_2 => exact .error fun h => by cases h
      case h_3 value hdis =>
        have hcase : unseen map (seen ++ [hash]) < k ∨ ∃ l, value = .leaf l := by
          rcases disclosed_cases hdis with hmem | ⟨-, rfl⟩
          · exact .inl ((unseen_concat_lt hmem hnew).trans_le hk)
          · exact .inr ⟨_, rfl⟩
        refine (ha _ _ _ (hm.disclosed hdis) hcase).bind ?_
        rintro ⟨r, seen'⟩ hr
        obtain ⟨t, rfl, ht⟩ := hp _ _ _ _ _ (hm.disclosed hdis) hr
        have hk'' : unseen map seen' ≤ k := by
          rw [ht.seen_eq]
          exact (unseen_le (List.subset_append_left _ _)).trans hk'
        exact (ihs ihitems hditems _ _ hk'').bind fun _ _ => .ok _ _
    case h_3 =>
      refine (ihx _ _ hdx hk).bind ?_
      rintro ⟨r, seen'⟩ hr
      obtain ⟨t, rfl, ht⟩ := soundAt hp hm _ _ _ _ _ hdx hr
      have hk' : unseen map seen' ≤ k := by
        rw [ht.seen_eq]
        exact (unseen_le (List.subset_append_left _ _)).trans hk
      exact (ihs ihitems hditems _ _ hk').bind fun _ _ => .ok _ _

theorem agree_members {process process' : Processor} {k : ℕ} (hp : Sound map process)
    (hm : DistinctValues map) (path : String) {members : List (String × Value)}
    (ih : ∀ m ∈ members, AgreeAt map k process process' m.2) (hd : ∀ m ∈ members, m.2.Distinct)
    (keymap : DisclosureKeymap) {seen : List String} (hk : unseen map seen ≤ k) :
    Settled .outOfFuel (unpackMembers map process path members keymap seen)
      (unpackMembers map process' path members keymap seen) := by
  induction members generalizing keymap seen with
  | nil => exact .ok _ _
  | cons m members ihs =>
    obtain ⟨key, x⟩ := m
    obtain ⟨ihx, ihmembers⟩ := List.forall_mem_cons.mp ih
    obtain ⟨hdx, hdmembers⟩ := List.forall_mem_cons.mp hd
    rw [unpackMembers, unpackMembers]
    split
    · exact .error fun h => by cases h
    split
    · exact (ihs ihmembers hdmembers _ hk).bind fun _ _ => .ok _ _
    refine (ihx _ _ hdx hk).bind ?_
    rintro ⟨r, seen'⟩ hr
    obtain ⟨t, rfl, ht⟩ := soundAt hp hm _ _ _ _ _ hdx hr
    have hk' : unseen map seen' ≤ k := by
      rw [ht.seen_eq]
      exact (unseen_le (List.subset_append_left _ _)).trans hk
    exact (ihs ihmembers hdmembers _ hk').bind fun _ _ => .ok _ _

theorem agreeAt {process process' : Processor} {k : ℕ} (ha : Agree map k process process')
    (hp : Sound map process) (hm : DistinctValues map) (v : Value) :
    AgreeAt map k process process' v := by
  induction v with
  | leaf l => exact fun _ _ _ _ => .ok _ _
  | arr items ih =>
    intro path seen hd hk
    cases hd with | arr hd =>
    exact (agree_items ha hp hm path ih hd 0 [] hk).bind fun _ _ => .ok _ _
  | obj members ih =>
    intro path seen hd hk
    cases hd with | obj hn hd =>
    refine (agree_members hp hm path ih hd [] hk).bind ?_
    rintro ⟨record, keymap, seen'⟩ hmembers
    dsimp only
    split
    case h_1 => exact .ok _ _
    case h_2 _sd hsd =>
      split
      case h_1 => exact .error nofun
      case h_2 hashes _ =>
        have hsd : ∀ x, (SD_DIGEST, x) ∈ members → x = (members.lookup SD_DIGEST).getD undefined :=
          fun x hx => by rw [lookup_of_mem hn hx]; rfl
        obtain ⟨ms, -, -, -, -, -, hseen, -⟩ :=
          sound_members _ (fun m _ => soundAt hp hm m.2) hd hsd hmembers
        have hk' : unseen map seen' ≤ k := by
          rw [hseen]
          exact (unseen_le (List.subset_append_left _ _)).trans hk
        exact (agree_digests ha hp hm path _ hashes [] keymap hk').bind fun _ _ => .ok _ _

/-- Two bounds on the depth beyond the number of unseen disclosures give the same result. -/
theorem agree_unpackN (hm : DistinctValues map) {k n m : ℕ} (hn : k + 2 ≤ n)
    (hk' : k + 2 ≤ m) (v : Value) (path : String) (seen : List String) (hd : v.Distinct)
    (hk : unseen map seen ≤ k) :
    Settled .outOfFuel (unpackN map n path v seen) (unpackN map m path v seen) := by
  induction k generalizing n m v path seen with
  | zero =>
    obtain ⟨n, rfl⟩ : ∃ n', n = n' + 2 := ⟨n - 2, by omega⟩
    obtain ⟨m, rfl⟩ : ∃ m', m = m' + 2 := ⟨m - 2, by omega⟩
    refine agreeAt ?_ (sound_unpackN hm (n + 1)) hm v path seen hd hk
    rintro path v seen - (h | ⟨l, rfl⟩)
    · exact absurd h (Nat.not_lt_zero _)
    · exact .ok _ _
  | succ k ih =>
    obtain ⟨n, rfl⟩ : ∃ n', n = n' + 1 := ⟨n - 1, by omega⟩
    obtain ⟨m, rfl⟩ : ∃ m', m = m' + 1 := ⟨m - 1, by omega⟩
    refine agreeAt ?_ (sound_unpackN hm n) hm v path seen hd hk
    rintro path v seen hd (h | ⟨l, rfl⟩)
    · exact ih (by omega) (by omega) v path seen hd (by omega)
    · obtain ⟨n, rfl⟩ : ∃ n', n = n' + 1 := ⟨n - 1, by omega⟩
      obtain ⟨m, rfl⟩ : ∃ m', m = m' + 1 := ⟨m - 1, by omega⟩
      exact .ok _ _

/-! ## Processing a payload -/

/-- Every bound on the depth from `depthBound` on gives the same result. -/
theorem unpackObjN_eq (hm : DistinctValues map) {obj : Value} (hd : obj.Distinct) {n : ℕ}
    (hn : depthBound map ≤ n) :
    unpackObjN n obj map = unpackObj obj map ∧ unpackObj obj map ≠ .error .outOfFuel := by
  have hk : unseen map [] ≤ map.length := by
    rw [unseen, ← List.length_map (f := Prod.fst)]
    exact List.countP_le_length
  have h := (agree_unpackN hm le_rfl hn obj "" [] hd hk).bind
    (f := fun x => if (keys map).all (· ∈ x.2) then .ok x.1
      else throwSdJwt "Unreferenced disclosure(s) detected in SD-JWT")
    (g := fun x => if (keys map).all (· ∈ x.2) then .ok x.1
      else throwSdJwt "Unreferenced disclosure(s) detected in SD-JWT") fun x _ => by
    split
    · exact .ok _ _
    · exact .error nofun
  exact ⟨h.1.symm, h.2⟩

/-- A payload is processed when it is the payload of a tree with distinct digests that the map fits
and that uses all disclosures; the result is the claims of the tree. -/
theorem unpackObj_eq_ok (hm : DistinctValues map) {obj : Value} (hd : obj.Distinct) {r : Unpacked} :
    unpackObj obj map = .ok r ↔ ∃ t : Tree, t.isValue ∧ t.payload = obj ∧ t.Fits map "" ∧
      t.digests.Nodup ∧ keys map ⊆ t.digests ∧ t.claims = some r.unpackedObj ∧
      r.disclosureKeymap = assign [] (t.log "") := by
  constructor
  · intro h
    obtain ⟨⟨r', seen⟩, hr, h⟩ := bind_eq_ok.mp h
    dsimp only at h
    split at h
    case isTrue hall =>
      cases h
      obtain ⟨t, hpayload, ht⟩ := sound_unpackN hm _ _ _ _ _ _ hd hr
      obtain rfl : seen = t.digests := ht.seen_eq
      refine ⟨t, ht.isValue, hpayload, ht.fits, ht.nodup List.nodup_nil, fun hash hmem => ?_,
        ht.claims, ht.keymap⟩
      simpa using List.all_eq_true.mp hall hash hmem
    case isFalse => cases h
  · rintro ⟨t, hv, rfl, hfit, hn, hall, hc, hk⟩
    obtain ⟨v, keymap⟩ := r
    obtain rfl : keymap = _ := hk
    rw [← (unpackObjN_eq hm hd (le_max_right (t.depth + 1) (depthBound map))).1, unpackObjN,
      complete_unpackN _ "" t v [] hv hfit (le_max_left (t.depth + 1) _) hc hn, ok_bind]
    refine if_pos (List.all_eq_true.mpr fun hash hmem => ?_)
    simpa using hall hmem

end IdentityCommon.SdJwt
