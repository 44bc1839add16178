import IdentityCommon.SdJwt.Tree
import IdentityCommon.Lib.Except

/-!
# What processing computes

Processing a payload succeeds when it is the payload of a tree that the map of disclosures fits,
and returns the claims of the tree.

## Main definitions

- `Describes` — a tree that processing has followed

## Main results

- `sound_unpackN` — a run of `unpackN` that succeeds has followed a tree
- `complete_unpackN` — processing follows a tree that the map fits
-/

namespace IdentityCommon.SdJwt

open Ecma Value AssocList IdentityCommon.Except

variable {map : DisclosureMap}

/-- Processing at a path, after some digests, has followed the tree. -/
structure Describes (map : DisclosureMap) (path : String) (seen : List String) (r : Unpacked)
    (seen' : List String) (t : Tree) : Prop where
  isValue : t.isValue
  fits : t.Fits map path
  claims : t.claims = some r.unpackedObj
  keymap : r.disclosureKeymap = assign [] (t.log path)
  seen_eq : seen' = seen ++ t.digests
  nodup : seen.Nodup → seen'.Nodup

/-- What processing succeeds on is the payload of a tree that it has followed. -/
def Sound (map : DisclosureMap) (process : Processor) : Prop :=
  ∀ path v seen r seen', v.Distinct → process path v seen = .ok (r, seen') →
    ∃ t : Tree, t.payload = v ∧ Describes map path seen r seen' t

/-- The names of the members are distinct in the values of all disclosures. -/
def DistinctValues (map : DisclosureMap) : Prop := ∀ m ∈ map, m.2.value.Distinct

theorem disclosed_eq_some {hash : String} {key : Option String} {value : Value}
    (h : disclosed map hash = some (key, value)) :
    (∃ d, map.lookup hash = some d ∧ d.key = key ∧ d.value = value) ∨
      (map.lookup hash = none ∧ hash ∈ inheritedNames ∧ key = none ∧ value = undefined) := by
  simp only [disclosed] at h
  split at h
  case h_1 d hd =>
    obtain ⟨hk, hv⟩ := Prod.mk.inj (Option.some.inj h)
    exact .inl ⟨d, hd, hk, hv⟩
  case h_2 hnone =>
    split at h
    case isTrue hmem =>
      obtain ⟨hk, hv⟩ := Prod.mk.inj (Option.some.inj h)
      exact .inr ⟨hnone, hmem, hk.symm, hv.symm⟩
    case isFalse => cases h

theorem DistinctValues.disclosed (hm : DistinctValues map) {hash : String} {key : Option String}
    {value : Value} (h : disclosed map hash = some (key, value)) : value.Distinct := by
  rcases disclosed_eq_some h with ⟨d, hd, -, rfl⟩ | ⟨-, -, -, rfl⟩
  · exact hm _ (mem_of_lookup hd)
  · exact .leaf _

/-- No disclosure is of a member with a reserved name. -/
theorem disclosed_not_reserved {hash key : String} {value : Value}
    (h : disclosed map hash = some (some key, value)) : key ≠ SD_DIGEST ∧ key ≠ SD_LIST_KEY := by
  rcases disclosed_eq_some h with ⟨d, -, hk, -⟩ | ⟨-, -, hk, -⟩
  · exact d.key_not_reserved key hk
  · cases hk

theorem addDigest_eq_ok {hash : String} {seen seen' : List String} :
    addDigest hash seen = .ok seen' ↔ hash ∉ seen ∧ seen' = seen ++ [hash] := by
  rw [addDigest]
  split
  case isTrue h => exact ⟨nofun, fun h' => absurd h h'.1⟩
  case isFalse h => exact ⟨fun h' => ⟨h, (Except.ok.inj h').symm⟩, fun h' => congrArg _ h'.2.symm⟩

theorem nodup_concat {hash : String} {seen : List String} (h : hash ∉ seen) (hn : seen.Nodup) :
    (seen ++ [hash]).Nodup :=
  hn.append (List.nodup_singleton _) (by simpa using h)

theorem hasName_eq_false {key : String} {members : List (String × Value)} :
    hasName key members = false ↔ key ∉ keys members ∧ key ∉ inheritedNames := by
  rw [hasName, Bool.or_eq_false_iff, ← Bool.not_eq_true, lookup_isSome_iff, decide_eq_false_iff_not]

theorem placeholder_eq_some {v : Value} {hash : String} :
    placeholder v = some (some hash) ↔ v = .obj [(SD_LIST_KEY, .str hash)] := by
  constructor
  · intro h
    cases v with
    | leaf l => cases h
    | arr items => cases h
    | obj members =>
      obtain ⟨w, hw, h⟩ := Option.map_eq_some_iff.mp h
      split at h
      case h_1 =>
        cases h
        obtain ⟨⟩ := List.mem_singleton.mp (mem_of_lookup hw)
        rfl
      case h_2 => cases h
  · rintro rfl
    rfl

theorem placeholder_digest (hash : String) :
    placeholder (.obj [(SD_LIST_KEY, .str hash)]) = some (some hash) := rfl

theorem digestList_strings (_sd : List String) : digestList (.arr (_sd.map .str)) = some _sd := by
  change (_sd.map Value.str).mapM _ = some _sd
  induction _sd with
  | nil => rfl
  | cons hash _sd ih =>
    rw [List.map_cons, List.mapM_cons, ih]
    rfl

theorem digestList_eq_some {v : Value} {_sd : List String} (h : digestList v = some _sd) :
    v = .arr (_sd.map .str) := by
  cases v with
  | leaf l => cases h
  | obj members => cases h
  | arr items =>
    refine congrArg _ ?_
    change items.mapM _ = some _sd at h
    induction items generalizing _sd with
    | nil => cases h; rfl
    | cons x items ih =>
      rw [List.mapM_cons] at h
      obtain ⟨s, hs, h⟩ := Option.bind_eq_some_iff.mp h
      obtain ⟨ss, hss, h⟩ := Option.bind_eq_some_iff.mp h
      cases h
      split at hs
      case h_1 => cases hs; rw [ih hss]; rfl
      case h_2 => cases hs

/-! ## A run that succeeds has followed a tree -/

theorem sound_digests {process : Processor} (hp : Sound map process) (hm : DistinctValues map)
    {path : String} {payload : List (String × Value)} {_sd : List String}
    {claims claims' : List (String × Value)} {keymap keymap' : DisclosureKeymap}
    {seen seen' : List String}
    (h : unpackDigests map process path payload _sd claims keymap seen =
      .ok (claims', keymap', seen')) :
    ∃ sd : List (String × Tree), sd.map (·.2.digest) = _sd ∧ Tree.FitDigests map path sd ∧
      claims' = claims ++ Tree.claimsMembers sd ∧
      keymap' = assign keymap (Tree.logMembers path sd) ∧
      seen' = seen ++ Tree.digestsMembers sd ∧ (seen.Nodup → seen'.Nodup) ∧
      (∀ key ∈ keys (Tree.claimsMembers sd), key ∉ inheritedNames ∧ key ∉ keys payload ∧
        key ≠ SD_DIGEST) ∧
      ((keys claims).Nodup → (keys claims').Nodup) := by
  induction _sd generalizing claims keymap seen with
  | nil =>
    cases h
    exact ⟨[], rfl, trivial, by simp [Tree.claimsMembers],
      rfl, by simp [Tree.digestsMembers], id, nofun, id⟩
  | cons hash _sd ih =>
    obtain ⟨seen₁, hadd, h⟩ := bind_eq_ok.mp h
    obtain ⟨hnew, rfl⟩ := addDigest_eq_ok.mp hadd
    split at h
    case h_1 hd =>
      obtain ⟨sd, hsd, hfit, hc, hk, hs, hn, hnames, hnodup⟩ := ih h
      refine ⟨("", .hidden hash) :: sd, congrArg (hash :: ·) hsd, ⟨⟨hd, rfl⟩, trivial, hfit⟩,
        hc, ?_, ?_, ?_, hnames, hnodup⟩
      · simpa [Tree.logMembers, Tree.log] using hk
      · simpa [Tree.digestsMembers, Tree.digests] using hs
      · exact fun hseen => hn (nodup_concat hnew hseen)
    case h_2 => cases h
    case h_3 key value hd =>
      split at h
      · cases h
      case isFalse hpay =>
      split at h
      · cases h
      case isFalse hcl =>
      dsimp only at h
      obtain ⟨⟨r, seen₂⟩, hr, hrest⟩ := bind_eq_ok.mp h
      obtain ⟨t, rfl, ht⟩ := hp _ _ _ _ _ (hm.disclosed hd) hr
      obtain ⟨sd, hsd, hfit, hc, hk, hs, hn, hnames, hnodup⟩ := ih hrest
      obtain ⟨hpay, hinh⟩ := hasName_eq_false.mp (Bool.not_eq_true _ ▸ hpay)
      obtain ⟨hcl, -⟩ := hasName_eq_false.mp (Bool.not_eq_true _ ▸ hcl)
      have hclaims : Tree.claimsMembers ((key, .disclosed hash t) :: sd) =
          (key, r.unpackedObj) :: Tree.claimsMembers sd := by
        rw [Tree.claimsMembers, Tree.claims, ht.claims]
        rfl
      refine ⟨(key, .disclosed hash t) :: sd, congrArg (hash :: ·) hsd,
        ⟨hd, ⟨ht.isValue, ht.fits⟩, hfit⟩, ?_, ?_, ?_, ?_, ?_, ?_⟩
      · rw [hc, hclaims, List.append_assoc]
        rfl
      · rw [hk, ht.keymap, assign_assign, Tree.logMembers, Tree.log, List.cons_append, assign_cons,
          assign_append]
      · rw [hs, ht.seen_eq, Tree.digestsMembers, Tree.digests]
        simp
      · exact fun hseen => hn (ht.nodup (nodup_concat hnew hseen))
      · rw [hclaims, keys_cons, List.forall_mem_cons]
        exact ⟨⟨hinh, hpay, (disclosed_not_reserved hd).1⟩, hnames⟩
      · intro hcn
        refine hnodup ?_
        rw [keys, List.map_append]
        exact hcn.append (List.nodup_singleton _) (by simpa [keys] using hcl)

/-- What one pass over a value succeeds on is the payload of a tree that it has followed. -/
def SoundAt (map : DisclosureMap) (process : Processor) (v : Value) : Prop :=
  ∀ path seen r seen', v.Distinct → unpackObjInternal map process path v seen = .ok (r, seen') →
    ∃ t : Tree, t.payload = v ∧ Describes map path seen r seen' t

theorem sound_items {process : Processor} (hp : Sound map process) (hm : DistinctValues map)
    {path : String} {items items' : List Value} (ih : ∀ x ∈ items, SoundAt map process x)
    (hd : ∀ x ∈ items, x.Distinct) {idx : ℕ} {keymap keymap' : DisclosureKeymap}
    {seen seen' : List String}
    (h : unpackArray map process path idx items keymap seen = .ok (items', keymap', seen')) :
    ∃ ts, Tree.payloadItems ts = items ∧ Tree.FitItems map path idx ts ∧
    items' = Tree.claimsItems ts ∧
      keymap' = assign keymap (Tree.logItems path idx ts) ∧ seen' = seen ++ Tree.digestsItems ts ∧
      (seen.Nodup → seen'.Nodup) := by
  induction items generalizing items' idx keymap seen with
  | nil =>
    cases h
    exact ⟨[], rfl, trivial, rfl, rfl, by simp [Tree.digestsItems], id⟩
  | cons x items ihs =>
    obtain ⟨ihx, ihitems⟩ := List.forall_mem_cons.mp ih
    obtain ⟨hdx, hditems⟩ := List.forall_mem_cons.mp hd
    rw [unpackArray] at h
    dsimp only at h
    split at h
    case h_1 => cases h
    case h_2 hash hph =>
      obtain rfl := placeholder_eq_some.mp hph
      obtain ⟨seen₁, hadd, h⟩ := bind_eq_ok.mp h
      obtain ⟨hnew, rfl⟩ := addDigest_eq_ok.mp hadd
      split at h
      case h_1 hdis =>
        obtain ⟨ts, rfl, hfit, hc, hk, hs, hn⟩ := ihs ihitems hditems h
        refine ⟨.hidden hash :: ts, rfl, ⟨hdis, trivial, hfit⟩, hc, hk, ?_, ?_⟩
        · rw [hs, List.append_assoc]
          rfl
        · exact fun hseen => hn (nodup_concat hnew hseen)
      case h_2 => cases h
      case h_3 value hdis =>
        obtain ⟨⟨r, seen₂⟩, hr, hrest⟩ := bind_eq_ok.mp h
        obtain ⟨⟨items₂, keymap₂, seen₃⟩, hitems, hret⟩ := bind_eq_ok.mp hrest
        cases hret
        obtain ⟨t, rfl, ht⟩ := hp _ _ _ _ _ (hm.disclosed hdis) hr
        obtain ⟨ts, rfl, hfit, hc, hk, hs, hn⟩ := ihs ihitems hditems hitems
        refine ⟨.disclosed hash t :: ts, rfl, ⟨hdis, ⟨ht.isValue, ht.fits⟩, hfit⟩, ?_, ?_, ?_, ?_⟩
        · rw [Tree.claimsItems, Tree.claims, ht.claims, hc]
          rfl
        · rw [hk, ht.keymap, assign_assign, Tree.logItems, Tree.log, List.cons_append, assign_cons,
            assign_append]
        · rw [hs, ht.seen_eq, Tree.digestsItems, Tree.digests]
          simp
        · exact fun hseen => hn (ht.nodup (nodup_concat hnew hseen))
    case h_3 hph =>
      obtain ⟨⟨r, seen₁⟩, hr, hrest⟩ := bind_eq_ok.mp h
      obtain ⟨⟨items₂, keymap₂, seen₂⟩, hitems, hret⟩ := bind_eq_ok.mp hrest
      cases hret
      obtain ⟨t, rfl, ht⟩ := ihx _ _ _ _ hdx hr
      obtain ⟨ts, rfl, hfit, hc, hk, hs, hn⟩ := ihs ihitems hditems hitems
      refine ⟨t :: ts, rfl,
        ⟨Tree.itemFits_of_isValue ht.isValue hph, ht.fits, hfit⟩, ?_, ?_, ?_, ?_⟩
      · rw [Tree.claimsItems, ht.claims, hc]
        rfl
      · rw [hk, ht.keymap, assign_assign, Tree.logItems, assign_append]
      · rw [hs, ht.seen_eq, Tree.digestsItems, List.append_assoc]
      · exact fun hseen => hn (ht.nodup hseen)

/-- The value of `_sd` is not processed. -/
theorem lookup_unpackMembers {process : Processor} {path : String}
    {members record : List (String × Value)} {keymap keymap' : DisclosureKeymap}
    {seen seen' : List String}
    (h : unpackMembers map process path members keymap seen = .ok (record, keymap', seen')) :
    record.lookup SD_DIGEST = members.lookup SD_DIGEST := by
  induction members generalizing record keymap seen with
  | nil => cases h; rfl
  | cons m members ih =>
    obtain ⟨key, x⟩ := m
    rw [unpackMembers] at h
    split at h
    · cases h
    split at h
    case isTrue =>
      obtain ⟨⟨record₁, keymap₁, seen₁⟩, hrest, hret⟩ := bind_eq_ok.mp h
      cases hret
      rw [List.lookup_cons, List.lookup_cons, ih hrest]
    case isFalse hkey =>
      dsimp only at h
      obtain ⟨⟨r, seen₁⟩, hr, hrest⟩ := bind_eq_ok.mp h
      obtain ⟨⟨record₂, keymap₂, seen₂⟩, hmembers, hret⟩ := bind_eq_ok.mp hrest
      cases hret
      have hdig : key ≠ SD_DIGEST := fun hk => hkey (.inl hk)
      rw [lookup_cons_of_ne hdig, lookup_cons_of_ne hdig, ih hmembers]

/-- The members of an object, where `_sd` is the value of the member with this name. -/
theorem sound_members {process : Processor} {path : String} {members record : List (String × Value)}
    (_sd : Value) (ih : ∀ m ∈ members, SoundAt map process m.2) (hd : ∀ m ∈ members, m.2.Distinct)
    (hsd : ∀ x, (SD_DIGEST, x) ∈ members → x = _sd) {keymap keymap' : DisclosureKeymap}
    {seen seen' : List String}
    (h : unpackMembers map process path members keymap seen = .ok (record, keymap', seen')) :
    ∃ ms, Tree.payloadMembers _sd ms = members ∧ Tree.FitMembers map path ms ∧
      keys ms = keys members ∧ record.filter (·.1 ≠ SD_DIGEST) = Tree.claimsMembers ms ∧
      keymap' = assign keymap (Tree.logMembers path ms) ∧ seen' = seen ++ Tree.digestsMembers ms ∧
      (seen.Nodup → seen'.Nodup) := by
  induction members generalizing record keymap seen with
  | nil =>
    cases h
    exact ⟨[], rfl, trivial, rfl, rfl, rfl, by simp [Tree.digestsMembers], id⟩
  | cons m members ihs =>
    obtain ⟨key, x⟩ := m
    obtain ⟨ihx, ihmembers⟩ := List.forall_mem_cons.mp ih
    obtain ⟨hdx, hdmembers⟩ := List.forall_mem_cons.mp hd
    have hsdmembers : ∀ x, (SD_DIGEST, x) ∈ members → x = _sd :=
      fun x hx => hsd x (List.mem_cons_of_mem _ hx)
    rw [unpackMembers] at h
    split at h
    · cases h
    case isFalse halg =>
    split at h
    case isTrue hkey =>
      obtain ⟨⟨record₁, keymap₁, seen₁⟩, hrest, hret⟩ := bind_eq_ok.mp h
      cases hret
      obtain ⟨ms, rfl, hfit, hkeys, hc, hk, hs, hn⟩ := ihs ihmembers hdmembers hsdmembers hrest
      rcases hkey with rfl | rfl
      · obtain rfl := hsd x List.mem_cons_self
        refine ⟨(SD_DIGEST, .digestList) :: ms, rfl, ⟨rfl, trivial, hfit⟩,
          congrArg _ hkeys, ?_, hk, hs, hn⟩
        rw [List.filter_cons_of_neg (by simp)]
        exact hc
      · refine ⟨(SD_LIST_KEY, .raw x) :: ms, rfl, ⟨rfl, trivial, hfit⟩,
          congrArg _ hkeys, ?_, hk, hs, hn⟩
        rw [List.filter_cons_of_pos (by simp [SD_LIST_KEY, SD_DIGEST]), hc]
        rfl
    case isFalse hkey =>
      obtain ⟨hdig, hlist⟩ := not_or.mp hkey
      dsimp only at h
      obtain ⟨⟨r, seen₁⟩, hr, hrest⟩ := bind_eq_ok.mp h
      obtain ⟨⟨record₂, keymap₂, seen₂⟩, hmembers, hret⟩ := bind_eq_ok.mp hrest
      cases hret
      obtain ⟨t, rfl, ht⟩ := ihx _ _ _ _ hdx hr
      obtain ⟨ms, rfl, hfit, hkeys, hc, hk, hs, hn⟩ := ihs ihmembers hdmembers hsdmembers hmembers
      refine ⟨(key, t) :: ms, Tree.payloadMembers_cons_of_isValue ht.isValue _ _ _,
        ⟨Tree.memberFits_of_isValue ht.isValue hdig hlist fun hp ha => halg ⟨hp, ha⟩,
          ht.fits, hfit⟩,
        congrArg _ hkeys, ?_, ?_, ?_, ?_⟩
      · rw [List.filter_cons_of_pos (by simpa using hdig), hc, Tree.claimsMembers, ht.claims]
        rfl
      · rw [hk, ht.keymap, assign_assign, Tree.logMembers, assign_append]
      · rw [hs, ht.seen_eq, Tree.digestsMembers, List.append_assoc]
      · exact fun hseen => hn (ht.nodup hseen)

theorem soundAt {process : Processor} (hp : Sound map process)
    (hm : DistinctValues map) (v : Value) :
    SoundAt map process v := by
  induction v with
  | leaf l =>
    intro path seen r seen' hd h
    cases h
    exact ⟨.leaf l, rfl, rfl, trivial, rfl, rfl, by simp [Tree.digests], id⟩
  | arr items ih =>
    intro path seen r seen' hd h
    obtain ⟨⟨items', keymap', seen₁⟩, hitems, hret⟩ := bind_eq_ok.mp h
    cases hret
    cases hd with | arr hd =>
    obtain ⟨ts, rfl, hfit, rfl, rfl, rfl, hn⟩ := sound_items hp hm ih hd hitems
    exact ⟨.arr ts, rfl, rfl, hfit, rfl, rfl, rfl, hn⟩
  | obj members ih =>
    intro path seen r seen' hd h
    obtain ⟨⟨record, keymap', seen₁⟩, hmembers, hrest⟩ := bind_eq_ok.mp h
    cases hd with | obj hnodup hd =>
    dsimp only at hrest
    have hlookup := lookup_unpackMembers hmembers
    split at hrest
    case h_1 hnone =>
      cases hrest
      rw [hnone] at hlookup
      have hsd : ∀ x, (SD_DIGEST, x) ∈ members → x = Tree.digestValues [] := fun x hx =>
        absurd (mem_keys_of_mem hx) (lookup_eq_none_iff.mp hlookup.symm)
      obtain ⟨ms, hpay, hfit, hkeys, hc, hk, hs, hn⟩ := sound_members _ ih hd hsd hmembers
      have hfits : Tree.Fits map path (.obj ms []) :=
        ⟨hfit, trivial, fun hne => absurd rfl hne, fun key hkey => absurd hkey List.not_mem_nil,
          List.nodup_nil⟩
      refine ⟨.obj ms [], congrArg _ hpay, rfl, hfits, ?_, ?_, ?_, hn⟩
      · rw [Tree.claims, hc, Tree.claimsMembers, List.append_nil]
      · rw [hk, Tree.log, Tree.logMembers, List.append_nil]
      · rw [hs, Tree.digests, Tree.digestsMembers, List.append_nil]
    case h_2 _sd hsome =>
      rw [hsome] at hlookup
      split at hrest
      case h_1 => cases hrest
      case h_2 hashes hhashes =>
      obtain ⟨⟨claims, keymap'', seen₂⟩, hdigests, hret⟩ := bind_eq_ok.mp hrest
      cases hret
      obtain ⟨sd, rfl, hfsd, hcsd, hksd, hssd, hnsd, hnames, hnodupsd⟩ :=
        sound_digests hp hm hdigests
      have hsd : ∀ x, (SD_DIGEST, x) ∈ members → x = Tree.digestValues sd := fun x hx => by
        rw [lookup_of_mem hnodup hx] at hlookup
        cases hlookup
        rw [digestList_eq_some hhashes, List.map_map]
        rfl
      obtain ⟨ms, hpay, hfit, hkeys, hc, hk, hs, hn⟩ := sound_members _ ih hd hsd hmembers
      refine ⟨.obj ms sd, congrArg _ hpay, rfl,
        ⟨hfit, hfsd, fun _ => ?_, fun key hkey => ?_, ?_⟩, ?_, ?_, ?_, ?_⟩
      · rw [hkeys]
        exact mem_keys_of_mem (mem_of_lookup hlookup.symm)
      · obtain ⟨hinh, hpayload, hdig⟩ := hnames key hkey
        refine ⟨hinh, fun hmem => hpayload ?_⟩
        rw [hc]
        exact Tree.mem_keys_claimsMembers hfit hmem hdig
      · rw [hcsd] at hnodupsd
        exact hnodupsd List.nodup_nil
      · rw [Tree.claims, hc, hcsd]
        rfl
      · rw [hksd, hk, Tree.log, assign_append]
      · rw [hssd, hs, Tree.digests, List.append_assoc]
      · exact fun hseen => hnsd (hn hseen)

/-- A run of any depth that succeeds has followed a tree. -/
theorem sound_unpackN (hm : DistinctValues map) (n : ℕ) : Sound map (unpackN map n) := by
  induction n with
  | zero => exact fun _ _ _ _ _ _ h => by cases h
  | succ n ih => exact fun path v seen r seen' hd h => soundAt ih hm v path seen r seen' hd h

/-! ## A tree is followed -/

/-- Processing follows the trees with fewer than `n` disclosures in one another. -/
def Complete (map : DisclosureMap) (n : ℕ) (process : Processor) : Prop :=
  ∀ path (t : Tree) v seen, t.isValue → t.Fits map path → t.depth < n → t.claims = some v →
    (seen ++ t.digests).Nodup →
    process path t.payload seen = .ok (⟨v, assign [] (t.log path)⟩, seen ++ t.digests)

theorem nodup_of_append_cons {hash : String} {seen digests : List String}
    (h : (seen ++ hash :: digests).Nodup) : hash ∉ seen ∧ (seen ++ [hash] ++ digests).Nodup := by
  refine ⟨fun hmem => List.disjoint_of_nodup_append h hmem List.mem_cons_self, ?_⟩
  rwa [List.append_assoc]

theorem complete_digests {process : Processor} {n : ℕ} (hp : Complete map n process) {path : String}
    {payload : List (String × Value)} {sd : List (String × Tree)} (claims : List (String × Value))
    (keymap : DisclosureKeymap) {seen : List String} (hfit : Tree.FitDigests map path sd)
    (hdepth : Tree.depthMembers sd ≤ n) (hseen : (seen ++ Tree.digestsMembers sd).Nodup)
    (hnames : ∀ key ∈ keys (Tree.claimsMembers sd), key ∉ inheritedNames ∧ key ∉ keys payload)
    (hnodup : (keys (claims ++ Tree.claimsMembers sd)).Nodup) :
    unpackDigests map process path payload (sd.map (·.2.digest)) claims keymap seen =
      .ok (claims ++ Tree.claimsMembers sd, assign keymap (Tree.logMembers path sd),
        seen ++ Tree.digestsMembers sd) := by
  induction sd generalizing claims keymap seen with
  | nil => simp [unpackDigests, Tree.claimsMembers, Tree.logMembers, Tree.digestsMembers]
  | cons m sd ih =>
    obtain ⟨key, t⟩ := m
    obtain ⟨hm, ht, hsd⟩ := hfit
    obtain ⟨hdt, hdsd⟩ := max_le_iff.mp hdepth
    cases t with
    | leaf l => cases hm
    | arr items => cases hm
    | obj ms s => cases hm
    | raw v => cases hm
    | digestList => cases hm
    | hidden hash =>
      obtain ⟨hnew, hseen⟩ := nodup_of_append_cons hseen
      have hd : disclosed map hash = none := hm.1
      simp only [List.map_cons, Tree.digest, unpackDigests,
        addDigest_eq_ok.mpr ⟨hnew, rfl⟩, ok_bind, hd]
      refine (ih _ _ hsd hdsd hseen hnames hnodup).trans ?_
      simp [Tree.claimsMembers, Tree.claims, Tree.logMembers, Tree.log,
        Tree.digestsMembers, Tree.digests]
    | disclosed hash content =>
      rw [Tree.digestsMembers, Tree.digests, List.cons_append] at hseen
      obtain ⟨hnew, hseen⟩ := nodup_of_append_cons hseen
      obtain ⟨v, hv⟩ := Tree.exists_claims ht.1
      have hclaims : Tree.claimsMembers ((key, .disclosed hash content) :: sd) =
          (key, v) :: Tree.claimsMembers sd := by
        rw [Tree.claimsMembers, Tree.claims, hv]
        rfl
      rw [hclaims] at hnames hnodup ⊢
      obtain ⟨⟨hinh, hpay⟩, hnames⟩ := List.forall_mem_cons.mp hnames
      rw [List.append_cons] at hnodup
      have hcl : key ∉ keys claims := by
        rw [keys, List.map_append, List.map_append] at hnodup
        exact fun h => List.disjoint_of_nodup_append (List.Nodup.of_append_left hnodup) h (by simp)
      rw [← List.append_assoc] at hseen
      have hr := hp (joinPath path (encodePathSegment key)) content v _ ht.1 ht.2
        (Nat.lt_of_succ_le hdt) hv (List.Nodup.of_append_left hseen)
      have hd : disclosed map hash = some (some key, content.payload) := hm
      have hpay' : hasName key payload = false := hasName_eq_false.mpr ⟨hpay, hinh⟩
      have hcl' : hasName key claims = false := hasName_eq_false.mpr ⟨hcl, hinh⟩
      simp only [List.map_cons, Tree.digest, unpackDigests, addDigest_eq_ok.mpr ⟨hnew, rfl⟩,
        ok_bind, hd, hpay', hcl', hr]
      refine (ih _ _ hsd hdsd hseen hnames hnodup).trans ?_
      rw [assign_assign]
      simp [Tree.logMembers, Tree.log, Tree.digestsMembers, Tree.digests, assign_append]

theorem complete_items {process : Processor} {n : ℕ} (hp : Complete map n process) {path : String}
    {items : List Tree}
    (ih : ∀ t ∈ items, ∀ path v seen, t.isValue → t.Fits map path → t.depth ≤ n →
      t.claims = some v →
      (seen ++ t.digests).Nodup → unpackObjInternal map process path t.payload seen =
        .ok (⟨v, assign [] (t.log path)⟩, seen ++ t.digests))
    {idx : ℕ} {keymap : DisclosureKeymap} {seen : List String}
    (hfit : Tree.FitItems map path idx items) (hdepth : Tree.depthItems items ≤ n)
    (hseen : (seen ++ Tree.digestsItems items).Nodup) :
    unpackArray map process path idx (Tree.payloadItems items) keymap seen =
      .ok (Tree.claimsItems items, assign keymap (Tree.logItems path idx items),
        seen ++ Tree.digestsItems items) := by
  induction items generalizing idx keymap seen with
  | nil => simp [Tree.payloadItems, unpackArray, Tree.claimsItems, Tree.logItems, Tree.digestsItems]
  | cons t items ihs =>
    obtain ⟨iht, ihitems⟩ := List.forall_mem_cons.mp ih
    obtain ⟨hm, ht, hitems⟩ := hfit
    obtain ⟨hdt, hditems⟩ := max_le_iff.mp hdepth
    have hvalue : t.isValue →
        unpackArray map process path idx (Tree.payloadItems (t :: items)) keymap seen =
        .ok (Tree.claimsItems (t :: items), assign keymap (Tree.logItems path idx (t :: items)),
          seen ++ Tree.digestsItems (t :: items)) := by
      intro hv
      obtain ⟨v, hclaims⟩ := Tree.exists_claims hv
      rw [Tree.digestsItems, ← List.append_assoc] at hseen
      have hr := iht _ v _ hv ht hdt hclaims (List.Nodup.of_append_left hseen)
      simp only [Tree.payloadItems, unpackArray,
        Tree.placeholder_payload_of_itemFits hv hm, hr, ok_bind, ihs ihitems hitems hditems hseen]
      simp [Tree.claimsItems, hclaims, Tree.logItems, Tree.digestsItems,
        assign_append, assign_assign]
    cases t with
    | leaf l => exact hvalue rfl
    | arr ts => exact hvalue rfl
    | obj ms sd => exact hvalue rfl
    | raw v => cases hm.1
    | digestList => cases hm.1
    | hidden hash =>
      obtain ⟨hnew, hseen⟩ := nodup_of_append_cons hseen
      have hd : disclosed map hash = none := hm
      simp only [Tree.payloadItems, Tree.payload, unpackArray, placeholder_digest, ok_bind, hd,
        addDigest_eq_ok.mpr ⟨hnew, rfl⟩, ihs ihitems hitems hditems hseen]
      simp [Tree.claimsItems, Tree.claims, Tree.logItems, Tree.log, Tree.digestsItems, Tree.digests]
    | disclosed hash content =>
      rw [Tree.digestsItems, Tree.digests, List.cons_append] at hseen
      obtain ⟨hnew, hseen⟩ := nodup_of_append_cons hseen
      obtain ⟨v, hv⟩ := Tree.exists_claims ht.1
      rw [← List.append_assoc] at hseen
      have hr := hp (joinPath path (Nat.repr idx)) content v _ ht.1 ht.2 (Nat.lt_of_succ_le hdt) hv
        (List.Nodup.of_append_left hseen)
      have hd : disclosed map hash = some (none, content.payload) := hm
      simp only [Tree.payloadItems, Tree.payload, unpackArray, placeholder_digest, ok_bind, hd,
        addDigest_eq_ok.mpr ⟨hnew, rfl⟩, hr, ihs ihitems hitems hditems hseen]
      simp [Tree.claimsItems, Tree.claims, hv, Tree.logItems, Tree.log,
        Tree.digestsItems, Tree.digests, assign_append, assign_assign]

theorem complete_members {process : Processor} {path : String} {n : ℕ}
    {members : List (String × Tree)} (_sd : Value)
    (ih : ∀ m ∈ members, ∀ path v seen, m.2.isValue → m.2.Fits map path → m.2.depth ≤ n →
      m.2.claims = some v → (seen ++ m.2.digests).Nodup →
      unpackObjInternal map process path m.2.payload seen =
        .ok (⟨v, assign [] (m.2.log path)⟩, seen ++ m.2.digests))
    (keymap : DisclosureKeymap) {seen : List String} (hfit : Tree.FitMembers map path members)
    (hdepth : Tree.depthMembers members ≤ n) (hseen : (seen ++ Tree.digestsMembers members).Nodup) :
    ∃ record, unpackMembers map process path (Tree.payloadMembers _sd members) keymap seen =
        .ok (record, assign keymap (Tree.logMembers path members),
          seen ++ Tree.digestsMembers members) ∧
      record.filter (·.1 ≠ SD_DIGEST) = Tree.claimsMembers members := by
  induction members generalizing keymap seen with
  | nil => exact ⟨[], by simp [Tree.payloadMembers, unpackMembers, Tree.logMembers,
      Tree.digestsMembers], rfl⟩
  | cons m members ihs =>
    obtain ⟨key, t⟩ := m
    obtain ⟨iht, ihmembers⟩ := List.forall_mem_cons.mp ih
    obtain ⟨hm, ht, hmembers⟩ := hfit
    obtain ⟨hdt, hdmembers⟩ := max_le_iff.mp hdepth
    have hvalue : t.isValue → key ≠ SD_DIGEST ∧ key ≠ SD_LIST_KEY ∧ (path ≠ "" → key ≠ "_sd_alg") →
        ∃ record, unpackMembers map process path
          (Tree.payloadMembers _sd ((key, t) :: members)) keymap seen =
          .ok (record, assign keymap (Tree.logMembers path ((key, t) :: members)),
            seen ++ Tree.digestsMembers ((key, t) :: members)) ∧
        record.filter (·.1 ≠ SD_DIGEST) = Tree.claimsMembers ((key, t) :: members) := by
      rintro hv ⟨hdig, hlist, halg⟩
      obtain ⟨v, hclaims⟩ := Tree.exists_claims hv
      rw [Tree.digestsMembers, ← List.append_assoc] at hseen
      have hr := iht _ v _ hv ht hdt hclaims (List.Nodup.of_append_left hseen)
      obtain ⟨record, hrecord, hfilter⟩ := ihs ihmembers
        (assign keymap (assign [] (t.log (joinPath path (encodePathSegment key))))) hmembers
          hdmembers hseen
      refine ⟨(key, v) :: record, ?_, ?_⟩
      · rw [Tree.payloadMembers_cons_of_isValue hv, unpackMembers, if_neg fun h => halg h.1 h.2,
          if_neg (not_or.mpr ⟨hdig, hlist⟩)]
        simp only [hr, ok_bind, hrecord]
        simp [Tree.logMembers, Tree.digestsMembers, assign_append, assign_assign]
      · rw [List.filter_cons_of_pos (by simpa using hdig), hfilter, Tree.claimsMembers, hclaims]
        rfl
    cases t with
    | leaf l => exact hvalue rfl hm.2
    | arr ts => exact hvalue rfl hm.2
    | obj ms sd => exact hvalue rfl hm.2
    | hidden hash => cases hm.1
    | disclosed hash content => cases hm.1
    | raw v =>
      obtain ⟨record, hrecord, hfilter⟩ := ihs ihmembers keymap hmembers hdmembers hseen
      obtain rfl : key = SD_LIST_KEY := hm
      refine ⟨(SD_LIST_KEY, v) :: record, ?_, ?_⟩
      · rw [Tree.payloadMembers, Tree.payload, unpackMembers, if_neg (by simp [SD_LIST_KEY]),
          if_pos (.inr rfl)]
        · simp only [hrecord, ok_bind]
          simp [Tree.logMembers, Tree.log, Tree.digestsMembers, Tree.digests]
        · intro h
          cases h
      · rw [List.filter_cons_of_pos (by simp [SD_LIST_KEY, SD_DIGEST]), hfilter]
        rfl
    | digestList =>
      obtain ⟨record, hrecord, hfilter⟩ := ihs ihmembers keymap hmembers hdmembers hseen
      obtain rfl : key = SD_DIGEST := hm
      refine ⟨(SD_DIGEST, _sd) :: record, ?_, ?_⟩
      · rw [Tree.payloadMembers, unpackMembers, if_neg (by simp [SD_DIGEST]), if_pos (.inl rfl)]
        simp only [hrecord, ok_bind]
        simp [Tree.logMembers, Tree.log, Tree.digestsMembers, Tree.digests]
      · rw [List.filter_cons_of_neg (by simp), hfilter]
        rfl

theorem completeAt {process : Processor} {n : ℕ} (hp : Complete map n process) (t : Tree) :
    ∀ path v seen, t.isValue → t.Fits map path → t.depth ≤ n → t.claims = some v →
      (seen ++ t.digests).Nodup →
      unpackObjInternal map process path t.payload seen = .ok (⟨v, assign [] (t.log path)⟩,
        seen ++ t.digests) := by
  induction t with
  | leaf l =>
    intro path v seen _ _ _ hv _
    cases hv
    simp [Tree.payload, unpackObjInternal, Tree.log, Tree.digests]
  | arr items ih =>
    intro path v seen _ hfit hdepth hv hseen
    cases hv
    rw [Tree.payload, unpackObjInternal, complete_items hp ih hfit hdepth hseen]
    rfl
  | obj members sd ih _ =>
    intro path v seen _ hfit hdepth hv hseen
    cases hv
    obtain ⟨hmembers, hsd, hdig, hnames, hnodup⟩ := hfit
    obtain ⟨hdm, hds⟩ := max_le_iff.mp hdepth
    rw [Tree.digests, ← List.append_assoc] at hseen
    obtain ⟨record, hrecord, hfilter⟩ := complete_members (Tree.digestValues sd) ih [] hmembers hdm
      (List.Nodup.of_append_left hseen)
    have hlookup := lookup_unpackMembers hrecord
    have hpayload : ∀ key ∈ keys (Tree.claimsMembers sd),
        key ∉ inheritedNames ∧ key ∉ keys (Tree.claimsMembers members) := fun key hkey =>
      ⟨(hnames key hkey).1, fun h => (hnames key hkey).2 (Tree.keys_claimsMembers_subset members h)⟩
    rw [Tree.lookup_payloadMembers hmembers] at hlookup
    rw [Tree.payload, unpackObjInternal, hrecord, ok_bind]
    dsimp only
    rw [hlookup, hfilter]
    split
    case h_1 hnone =>
      have hmem : SD_DIGEST ∉ keys members := fun h => by simp [h] at hnone
      obtain rfl : sd = [] := by_contra fun h => hmem (hdig h)
      simp [Tree.claimsMembers, Tree.log, Tree.logMembers, Tree.digests, Tree.digestsMembers]
    case h_2 _sd hsome =>
      have hmem : SD_DIGEST ∈ keys members := by_contra fun h => by simp [h] at hsome
      rw [if_pos hmem] at hsome
      cases hsome
      have hdigests := complete_digests hp []
        (assign [] (Tree.logMembers path members)) hsd hds hseen hpayload hnodup
      have hlist : digestList (Tree.digestValues sd) = some (sd.map (·.2.digest)) := by
        rw [← digestList_strings, List.map_map]
        rfl
      simp only [hlist, hdigests, ok_bind]
      simp [Tree.log, Tree.digests, assign_append]
  | raw v => intro path v seen hv; cases hv
  | digestList => intro path v seen hv; cases hv
  | hidden hash => intro path v seen hv; cases hv
  | disclosed hash content _ => intro path v seen hv; cases hv

/-- Passes up to a depth follow the trees that are not deeper. -/
theorem complete_unpackN (n : ℕ) : Complete map n (unpackN map n) := by
  induction n with
  | zero => exact fun _ _ _ _ _ _ h => absurd h (Nat.not_lt_zero _)
  | succ n ih =>
    exact fun path t v seen hv hfit hdepth => completeAt ih t path v seen hv hfit
      (Nat.le_of_lt_succ hdepth)

end IdentityCommon.SdJwt
