import Rbsrt.StreamID.RoundTrip

/-!
# What `to_h` gives is what the object was made of

`to_h` puts the custom values first, under the keys they have, and then the standard fields that
are set, under Symbols. Passing that hash to the constructor sets them again one by one, and
three of the fields are not simply stored: mode and type are checked against their lists, and a
host is split. So the snapshot is faithful only for objects that setting leaves alone.

`Kept` is that invariant, and every route through the constructor keeps it, because each of them
only ever calls `set`. The one exception is `merge_uri!`, which stores the host name as the URI
library hands it out; that host names have no slash is the assumption `PlainHostnames`.

## Main results

* `mergeHash_eq`, `setValue` — setting values that `set` does not raise on
* `Kept.setValue`, `kept_foldl` — the invariant
* `mergeHash_toH` — a kept object is what its snapshot is merged into
* `new_toH` — so the snapshot of whatever the constructor built builds it again
-/

namespace Rbsrt

open Backtrack

namespace StreamIDComponents

variable {c : StreamIDComponents}

/-! ### Setting any value -/

/-- The constructor's hash arguments: Strings, and Symbols for mode and type. -/
def IsSetting (p : Key × Value) : Prop :=
  (∃ v, p.2 = .str v) ∨
    (∃ v, p.2 = .sym v) ∧
      (Field.ofName p.1.toS = some .mode ∨ Field.ofName p.1.toS = some .type)

/-- The values `set` does not raise on: all of them, but that a host is asked for its `index`. -/
def Settable (p : Key × Value) : Prop :=
  Field.ofName p.1.toS = some .hostName → ∃ v, p.2 = .str v

theorem IsSetting.settable {p : Key × Value} (h : IsSetting p) : Settable p := by
  intro hhost
  rcases h with h | ⟨-, h | h⟩
  · exact h
  · rw [hhost] at h
    cases h
  · rw [hhost] at h
    cases h

theorem IsSetting.ne_nil {p : Key × Value} (h : IsSetting p) : p.2 ≠ .nil := by
  rcases h with ⟨v, hv⟩ | ⟨⟨v, hv⟩, -⟩ <;> rw [hv] <;> simp

/-- What `set` does with a value it does not raise on. -/
def setValue (c : StreamIDComponents) (p : Key × Value) : StreamIDComponents :=
  match Field.ofName p.1.toS with
  | some .resourceName => { c with resourceName := p.2 }
  | some .userName => { c with userName := p.2 }
  | some .mode => if p.2.toS ∈ modes then { c with mode := .sym p.2.toS } else c
  | some .hostName => c.splitHost p.2.toS
  | some .type => if p.2.toS ∈ types then { c with type := .sym p.2.toS } else c
  | some .sessionid => { c with sessionid := p.2 }
  | none => { c with extra := c.extra.aset p.1 p.2 }

/-- A value on a list is not `nil`, so it has a `to_sym`. -/
theorem toSym_of_mem {choices : List RString} (hnil : [] ∉ choices) {v : Value}
    (hv : v.toS ∈ choices) : v.toSym = .ok (.sym v.toS) := by
  cases v with
  | nil => exact absurd hv hnil
  | str s => rfl
  | sym s => rfl

theorem set_of_settable (c : StreamIDComponents) {p : Key × Value} (h : Settable p) :
    c.set p.1 p.2 = .ok (c.setValue p) := by
  rw [set, setValue]
  cases hname : Field.ofName p.1.toS with
  | none => rfl
  | some f =>
    cases f with
    | mode =>
      by_cases hv : p.2.toS ∈ modes
      · simp [hv, toSym_of_mem (by decide) hv, Except.map]
      · simp [hv]
    | hostName =>
      obtain ⟨v, hv⟩ := h hname
      simp [setHost, hv]
    | type =>
      by_cases hv : p.2.toS ∈ types
      · simp [hv, toSym_of_mem (by decide) hv, Except.map]
      · simp [hv]
    | _ => rfl

theorem foldlM_set {es : List (Key × Value)} (hes : ∀ e ∈ es, Settable e)
    (c : StreamIDComponents) :
    es.foldlM (fun c e => c.set e.1 e.2) c = .ok (es.foldl setValue c) := by
  induction es generalizing c with
  | nil => rfl
  | cons e es ih =>
    rw [List.foldlM_cons, set_of_settable c (hes e (by simp)), List.foldl_cons,
      ← ih fun f hf => hes f (List.mem_cons_of_mem e hf)]
    rfl

theorem mergeHash_eq {hash : OrderedHash Key Value} (h : ∀ e ∈ hash.entries, Settable e)
    (c : StreamIDComponents) : c.mergeHash hash = .ok (hash.entries.foldl setValue c) :=
  foldlM_set h c

/-- A String pair as an entry with a String key. -/
def strEntry (p : RString × RString) : Key × Value := (.str p.1, .str p.2)

theorem isSetting_strEntry (p : RString × RString) : IsSetting (strEntry p) := Or.inl ⟨p.2, rfl⟩

theorem foldl_setStr_eq (ps : List (RString × RString)) (c : StreamIDComponents) :
    ps.foldl setStr c = (ps.map strEntry).foldl setValue c := by
  rw [List.foldl_map]
  rfl

/-! ### The invariant -/

/-- What setting values leaves in an object. -/
structure Kept (c : StreamIDComponents) : Prop where
  mode : ∃ m ∈ modes, c.mode = .sym m
  hostName : c.hostName = .nil ∨ ∃ s, c.hostName = .str s
  hostStays : c.HostStays
  type : ∃ t ∈ types, c.type = .sym t
  extra : ∀ e ∈ c.extra.entries, Field.ofName e.1.toS = none

theorem kept_fresh : Kept fresh where
  mode := ⟨_, by decide, rfl⟩
  hostName := Or.inl rfl
  hostStays := Or.inl (by decide)
  type := ⟨_, by decide, rfl⟩
  extra := by simp [fresh]

/-- A host that is split keeps a slash only as its first character, and then there is a
resource. -/
theorem Kept.splitHost (h : Kept c) (v : RString) : Kept (c.splitHost v) := by
  rcases exists_cut v '/' with hslash | ⟨a, b, rfl, ha⟩
  · rw [splitHost_of_not_mem hslash]
    exact { h with hostName := Or.inr ⟨v, rfl⟩, hostStays := Or.inl hslash }
  · rw [splitHost_append ha]
    refine { h with hostName := Or.inr ⟨_, rfl⟩, hostStays := ?_ }
    by_cases hnil : a = []
    · refine Or.inr ⟨⟨b, by simp [hnil]⟩, ?_⟩
      by_cases hr : c.resourceName.truthy
      · simpa [hr] using Value.truthy_iff.mp hr
      · simp [hr]
    · exact Or.inl (by simpa [hnil] using ha)

theorem Kept.setValue (h : Kept c) {p : Key × Value} (hp : IsSetting p) : Kept (c.setValue p) := by
  rw [StreamIDComponents.setValue]
  cases hname : Field.ofName p.1.toS with
  | none =>
    refine { h with extra := fun e he => ?_ }
    rcases OrderedHash.mem_entries_aset he with rfl | ⟨he, -⟩
    · exact hname
    · exact h.extra e he
  | some f =>
    cases f with
    | resourceName =>
      exact { h with hostStays := h.hostStays.imp_right fun hstays => ⟨hstays.1, hp.ne_nil⟩ }
    | userName => exact { h with }
    | mode =>
      by_cases hv : p.2.toS ∈ modes
      · simpa [hv] using { h with mode := ⟨p.2.toS, hv, rfl⟩ }
      · simpa [hv] using h
    | hostName => exact h.splitHost p.2.toS
    | type =>
      by_cases hv : p.2.toS ∈ types
      · simpa [hv] using { h with type := ⟨p.2.toS, hv, rfl⟩ }
      · simpa [hv] using h
    | sessionid => exact { h with }

theorem kept_foldl {es : List (Key × Value)} (h : Kept c) (hes : ∀ e ∈ es, IsSetting e) :
    Kept (es.foldl StreamIDComponents.setValue c) := by
  induction es generalizing c with
  | nil => exact h
  | cons e es ih =>
    exact ih (h.setValue (hes e (by simp))) fun f hf => hes f (List.mem_cons_of_mem e hf)

/-! ### The snapshot -/

/-- The Symbols `to_h` uses for the standard fields. -/
def snapshotKeys : List Key :=
  [.sym "resource_name".toList, .sym "user_name".toList, .sym "mode".toList,
    .sym "host_name".toList, .sym "type".toList, .sym "sessionid".toList]

theorem keys_store (name : RString) (v : Value) :
    ((store name v).map Prod.fst).Sublist [.sym name] := by
  cases hv : v.truthy <;> simp [store, hv]

theorem keys_fieldEntries (c : StreamIDComponents) :
    (c.fieldEntries.map Prod.fst).Sublist snapshotKeys := by
  simp only [fieldEntries, List.map_append]
  exact (((((keys_store _ _).append (keys_store _ _)).append (keys_store _ _)).append
    (keys_store _ _)).append (keys_store _ _)).append (keys_store _ _)

/-- No custom value goes by the name of a standard field, so none is overwritten. -/
theorem Kept.entries_toH (h : Kept c) : c.toH.entries = c.extra.entries ++ c.fieldEntries := by
  have hdistinct : snapshotKeys.Nodup := by decide
  have hreserved : snapshotKeys.all fun k => Field.ofName k.toS ≠ none := by decide
  refine OrderedHash.entries_ofPairs ?_
  rw [List.map_append]
  refine List.nodup_append.mpr
    ⟨c.extra.nodup, hdistinct.sublist (keys_fieldEntries c), fun k hk k' hk' heq => ?_⟩
  subst heq
  obtain ⟨e, he, rfl⟩ := List.mem_map.mp hk
  have hname := List.all_eq_true.mp hreserved _ ((keys_fieldEntries c).subset hk')
  exact absurd (h.extra e he) (by simpa using hname)

theorem foldl_setValue_extra {es : List (Key × Value)}
    (hes : ∀ e ∈ es, Field.ofName e.1.toS = none) (d : StreamIDComponents) :
    es.foldl StreamIDComponents.setValue d = { d with extra := d.extra.asetAll es } := by
  induction es generalizing d with
  | nil => rfl
  | cons e es ih =>
    have hstep : d.setValue e = { d with extra := d.extra.aset e.1 e.2 } := by
      simp [StreamIDComponents.setValue, hes e (by simp)]
    rw [List.foldl_cons, hstep, ih fun f hf => hes f (List.mem_cons_of_mem e hf)]
    rfl

/-- Setting what has been stored of a value: `nil` has not been stored. -/
theorem foldl_setValue_store {name : RString} {v : Value} {d e : StreamIDComponents}
    (hset : v ≠ .nil → d.setValue (.sym name, v) = e) (hnil : v = .nil → d = e) :
    (store name v).foldl StreamIDComponents.setValue d = e := by
  by_cases hv : v = .nil
  · subst hv
    exact hnil rfl
  · rw [store, if_pos (Value.truthy_iff.mpr hv)]
    exact hset hv

/-- A mode is on the list. -/
theorem Kept.foldl_store_mode (h : Kept c) (d : StreamIDComponents) :
    (store "mode".toList c.mode).foldl StreamIDComponents.setValue d =
      { d with mode := c.mode } := by
  obtain ⟨m, hm, hmode⟩ := h.mode
  rw [hmode]
  refine foldl_setValue_store (fun _ => ?_) fun hnil => Value.noConfusion hnil
  change (if m ∈ modes then { d with mode := .sym m } else d) = _
  rw [if_pos hm]

/-- So is a type. -/
theorem Kept.foldl_store_type (h : Kept c) (d : StreamIDComponents) :
    (store "type".toList c.type).foldl StreamIDComponents.setValue d =
      { d with type := c.type } := by
  obtain ⟨t, ht, htype⟩ := h.type
  rw [htype]
  refine foldl_setValue_store (fun _ => ?_) fun hnil => Value.noConfusion hnil
  change (if t ∈ types then { d with type := .sym t } else d) = _
  rw [if_pos ht]

/-- A host is split, which changes nothing. -/
theorem Kept.foldl_store_hostName (h : Kept c) {d : StreamIDComponents} (hd : d.hostName = .nil)
    (hres : d.resourceName = c.resourceName) :
    (store "host_name".toList c.hostName).foldl StreamIDComponents.setValue d =
      { d with hostName := c.hostName } := by
  refine foldl_setValue_store (fun hne => ?_) fun hnil => by rw [hnil, ← hd]
  change d.splitHost c.hostName.toS = _
  rw [splitHost_of_hostStays h.hostStays (by simp [hres])]
  obtain ⟨s, hs⟩ := h.hostName.resolve_left hne
  rw [hs, Value.toS_str]

/-- **Setting the standard fields of a snapshot** gives them back. The resource comes before the
host, so that a host with a slash finds it set. -/
theorem Kept.foldl_fieldEntries (h : Kept c) (x : OrderedHash Key Value) :
    c.fieldEntries.foldl StreamIDComponents.setValue { fresh with extra := x } =
      { c with extra := x } := by
  -- the other three fields are stored as they stand
  have hr : ∀ d : StreamIDComponents, d.resourceName = .nil →
      (store "resource_name".toList c.resourceName).foldl StreamIDComponents.setValue d =
        { d with resourceName := c.resourceName } := fun d hd =>
    foldl_setValue_store (fun _ => rfl) fun hnil => by rw [hnil, ← hd]
  have hu : ∀ d : StreamIDComponents, d.userName = .nil →
      (store "user_name".toList c.userName).foldl StreamIDComponents.setValue d =
        { d with userName := c.userName } := fun d hd =>
    foldl_setValue_store (fun _ => rfl) fun hnil => by rw [hnil, ← hd]
  have hs : ∀ d : StreamIDComponents, d.sessionid = .nil →
      (store "sessionid".toList c.sessionid).foldl StreamIDComponents.setValue d =
        { d with sessionid := c.sessionid } := fun d hd =>
    foldl_setValue_store (fun _ => rfl) fun hnil => by rw [hnil, ← hd]
  rw [fieldEntries, List.foldl_append, List.foldl_append, List.foldl_append, List.foldl_append,
    List.foldl_append, hr _ (by rfl), hu _ (by rfl), h.foldl_store_mode,
    h.foldl_store_hostName (by rfl) (by rfl), h.foldl_store_type, hs _ (by rfl)]

theorem Kept.settable_toH (h : Kept c) : ∀ e ∈ c.toH.entries, Settable e := by
  have hstore : ∀ (name : RString) (v : Value), Field.ofName name ≠ some .hostName →
      ∀ e ∈ store name v, Settable e := by
    intro name v hname e he hhost
    cases v with
    | nil => simp [store] at he
    | str s =>
      obtain rfl : e = (.sym name, .str s) := by simpa [store] using he
      exact absurd hhost hname
    | sym s =>
      obtain rfl : e = (.sym name, .sym s) := by simpa [store] using he
      exact absurd hhost hname
  intro e he
  rw [h.entries_toH, fieldEntries] at he
  simp only [List.mem_append] at he
  rcases he with he | (((((he | he) | he) | he) | he) | he)
  · intro hhost
    rw [h.extra e he] at hhost
    cases hhost
  · exact hstore _ _ (by decide) e he
  · exact hstore _ _ (by decide) e he
  · exact hstore _ _ (by decide) e he
  · intro _
    rcases h.hostName with hhost | ⟨s, hhost⟩
    · simp [store, hhost] at he
    · obtain rfl : e = (.sym "host_name".toList, .str s) := by simpa [store, hhost] using he
      exact ⟨s, rfl⟩
  · exact hstore _ _ (by decide) e he
  · exact hstore _ _ (by decide) e he

/-- **A kept object is what its snapshot is merged into.** -/
theorem Kept.mergeHash_toH (h : Kept c) : fresh.mergeHash c.toH = .ok c := by
  rw [mergeHash_eq h.settable_toH, h.entries_toH, List.foldl_append,
    foldl_setValue_extra h.extra, h.foldl_fieldEntries]
  change Except.ok { c with extra := OrderedHash.ofPairs c.extra.entries } = _
  rw [OrderedHash.ofPairs_entries]

/-! ### The constructor -/

/-- The URI library hands out host names without a slash. -/
def PlainHostnames (lib : URILib) : Prop :=
  ∀ s uri host, lib.uri s = .ok uri → uri.hostname = some host → '/' ∉ host

/-- A String, or a hash with String or Symbol keys whose values are Strings, Symbols being
allowed for mode and type. -/
def Arg.IsDocumented : Arg → Prop
  | .hash h => ∀ e ∈ h.entries, IsSetting e
  | .value v => ∃ s, v = .str s

theorem isSetting_of_mem_hashOfForm {form : List (RString × RString)} {e : Key × Value}
    (he : e ∈ (hashOfForm form).entries) : IsSetting e := by
  obtain ⟨p, -, rfl⟩ := List.mem_map.mp (OrderedHash.mem_entries_ofPairs he)
  exact isSetting_strEntry p

theorem kept_mergeStr {s : RString} {d : StreamIDComponents} (h : Kept c)
    (hd : c.mergeStr s = .ok d) : Kept d := by
  rw [mergeStr_eq, foldl_setStr_eq] at hd
  obtain rfl := Except.ok.inj hd
  refine kept_foldl h fun e he => ?_
  obtain ⟨p, -, rfl⟩ := List.mem_map.mp he
  exact isSetting_strEntry p

theorem kept_mergeHash {hash : OrderedHash Key Value} {d : StreamIDComponents} (h : Kept c)
    (hhash : ∀ e ∈ hash.entries, IsSetting e) (hd : c.mergeHash hash = .ok d) : Kept d := by
  rw [mergeHash_eq fun e he => (hhash e he).settable] at hd
  obtain rfl := Except.ok.inj hd
  exact kept_foldl h hhash

/-- The object `merge_uri!` sets the query pairs on. -/
def atUri (c : StreamIDComponents) (uri : URI) : StreamIDComponents where
  resourceName := match uri.path with
    | some path => .ofSlice (slice path 1 (-1))
    | none => c.resourceName
  userName := c.userName
  mode := c.mode
  hostName := .ofSlice uri.hostname
  type := c.type
  sessionid := c.sessionid
  extra := c.extra

theorem mergeUri_eq (lib : URILib) (c : StreamIDComponents) (uri : URI) :
    c.mergeUri lib uri = match uri.query with
      | some query =>
        lib.decodeWwwForm query >>= fun form => (c.atUri uri).mergeHash (hashOfForm form)
      | none => .ok (c.atUri uri) := by
  obtain ⟨hostname, path, query⟩ := uri
  cases path <;> rfl

theorem Kept.atUri (h : Kept c) {uri : URI}
    (huri : ∀ host, uri.hostname = some host → '/' ∉ host) : Kept (c.atUri uri) where
  mode := h.mode
  hostName := by
    change Value.ofSlice uri.hostname = _ ∨ ∃ s, Value.ofSlice uri.hostname = _
    cases uri.hostname with
    | none => exact Or.inl rfl
    | some host => exact Or.inr ⟨host, rfl⟩
  hostStays := by
    left
    change '/' ∉ (Value.ofSlice uri.hostname).toS
    cases hhost : uri.hostname with
    | none => simp
    | some host => exact huri host hhost
  type := h.type
  extra := h.extra

theorem kept_mergeUri {lib : URILib} {uri : URI} {d : StreamIDComponents} (h : Kept c)
    (huri : ∀ host, uri.hostname = some host → '/' ∉ host) (hd : c.mergeUri lib uri = .ok d) :
    Kept d := by
  rw [mergeUri_eq] at hd
  split at hd
  · next query hquery =>
    cases hform : lib.decodeWwwForm query with
    | error e =>
      rw [hform] at hd
      cases hd
    | ok form =>
      rw [hform] at hd
      exact kept_mergeHash (h.atUri huri) (fun e he => isSetting_of_mem_hashOfForm he) hd
  · obtain rfl := Except.ok.inj hd
    exact h.atUri huri

theorem kept_new {lib : URILib} (hlib : PlainHostnames lib) {arg : Arg}
    (harg : arg.IsDocumented) (hc : new lib arg = .ok c) : Kept c := by
  cases arg with
  | hash h => exact kept_mergeHash kept_fresh harg hc
  | value v =>
    obtain ⟨s, rfl⟩ := harg
    change parse lib s = _ at hc
    by_cases hheader : header <+: s
    · rw [parse_eq, if_pos (List.isPrefixOf_iff_prefix.mpr hheader)] at hc
      exact kept_mergeStr kept_fresh hc
    · cases hregexp : lib.regexp s with
      | true =>
        rw [parse_of_regexp hheader hregexp] at hc
        cases huri : lib.uri s with
        | error e =>
          rw [huri] at hc
          cases hc
        | ok uri =>
          rw [huri] at hc
          exact kept_mergeUri kept_fresh (fun host hhost => hlib s uri host huri hhost) hc
      | false =>
        rw [parse_of_not_regexp hheader hregexp] at hc
        obtain rfl := Except.ok.inj hc
        have hhost : '/' ∉ fresh.hostName.toS := by decide
        exact { kept_fresh with hostStays := Or.inl hhost }

/-- **`to_h` is a faithful snapshot.** Whatever the constructor makes of a String or of a hash,
it makes again of that object's hash: the same six fields, and the same custom values under the
same keys in the same order. -/
theorem new_toH {lib : URILib} (hlib : PlainHostnames lib) {arg : Arg}
    (harg : arg.IsDocumented) (hc : new lib arg = .ok c) : new lib (.hash c.toH) = .ok c :=
  (kept_new hlib harg hc).mergeHash_toH

/-- An object with a host that begins with a slash. -/
def slashComponents : StreamIDComponents :=
  { fresh with
    hostName := .str "/live".toList
    resourceName := .str "live".toList
    extra := .ofPairs [(.str "foo".toList, .str "bar".toList)] }

theorem new_toH_slash :
    new noURILib (.hash slashComponents.toH) = .ok slashComponents := by
  have hread : new noURILib (.value (.str "#!::h=/live,foo=bar".toList)) = .ok slashComponents := by
    decide
  refine new_toH (fun _ _ _ huri _ => by cases huri) ?_ hread
  exact ⟨_, rfl⟩

end StreamIDComponents

end Rbsrt
