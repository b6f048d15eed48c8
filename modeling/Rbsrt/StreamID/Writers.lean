import Rbsrt.StreamID.Emission
import Rbsrt.StreamID.Hosts

/-!
# Writers

There are two ways to change a value by name, `obj.name = val` and `set(name, val)`. They do not
know of each other. `set` validates a mode and a type, splits a host and resolves aliases; the
accessors store what they are given, and `method_missing` does the same for every other name, the
aliases among them.

`method_missing` also serves the readers, and asks first whether the name it was called by is a
custom key. A writer is called by a name that ends in `=`, so a custom value under such a key,
which a query or a hash can bring along, makes the writer a reader: the write is lost.

## Main results

* `set_eq_write_iff` — where `obj.name = val` and `set(name, val)` do the same
* `isMapWrite_iff` — when a custom value is written and nothing else
* `mapWrites_iff` — the same for a whole run of writers
-/

namespace Rbsrt

open Backtrack Runs

namespace StreamIDComponents

variable {c : StreamIDComponents} {name v : RString}

/-! ### Names -/

/-- `[A-Za-z0-9_]+` -/
def IsWord (name : RString) : Prop := name ≠ [] ∧ ∀ d ∈ name, d.isAlphanum ∨ d = '_'

theorem IsWord.not_mem (h : IsWord name) {d : Char} (hd : ¬ (d.isAlphanum ∨ d = '_')) :
    d ∉ name := fun hmem => hd (h.2 d hmem)

theorem not_mem_comparisons (heq : '=' ∉ name) (hbang : '!' ∉ name) : name ∉ comparisons := by
  intro hmem
  simp only [comparisons, List.mem_cons, List.not_mem_nil, or_false] at hmem
  rcases hmem with rfl | rfl | rfl
  · exact heq (by decide)
  · exact heq (by decide)
  · exact hbang (by decide)

theorem IsWord.not_mem_comparisons (h : IsWord name) : name ∉ comparisons :=
  StreamIDComponents.not_mem_comparisons (h.not_mem (by decide)) (h.not_mem (by decide))

theorem ofName_of_accessors {f : Field} (h : accessors.lookup name = some f) :
    Field.ofName name = some f := by
  have hall : ∀ p ∈ accessors, Field.ofName p.1 = some p.2 := by decide
  obtain ⟨l₁, l₂, hsplit, -⟩ := List.lookup_eq_some_iff.mp h
  exact hall (name, f) (by simp [hsplit])

theorem accessors_lookup_of_custom (hcustom : Field.ofName name = none) :
    accessors.lookup name = none := by
  by_contra hsome
  obtain ⟨f, hf⟩ := Option.ne_none_iff_exists'.mp hsome
  rw [ofName_of_accessors hf] at hcustom
  cases hcustom

/-- What a writer that is not an accessor does for a name without a line break. -/
theorem write_of_dynamic (haccessor : accessors.lookup name = none) (hcmp : name ∉ comparisons)
    (hline : '\n' ∉ name) (val : Value) :
    c.write name val = if Key.str (name ++ ['=']) ∈ c.extra.keys then c
      else { c with extra := c.extra.aset (.str name) val } := by
  rw [write, haccessor]
  show (if name ∈ comparisons then c else (c.methodMissing (name ++ ['=']) [val]).1) = _
  rw [if_neg hcmp, methodMissing_writer, matchName_append hline]
  rfl

/-! ### Setting what is there -/

/-- The field has what `set` would give it. -/
def Holds (c : StreamIDComponents) (v : RString) : Field → Prop
  | .mode => v ∈ modes → c.mode = .sym v
  | .type => v ∈ types → c.type = .sym v
  | .hostName =>
    if '/' ∈ v then
      c.resourceName ≠ .nil ∧
        c.hostName = .str (if v.head? = some '/' then v else v.takeWhile (· ≠ '/'))
    else c.hostName = .str v
  | f => c.get f = .str v

theorem splitHost_eq_self_iff : c.splitHost v = c ↔ c.Holds v .hostName := by
  rw [Holds]
  rcases exists_cut v '/' with hslash | ⟨a, b, rfl, ha⟩
  · rw [splitHost_of_not_mem hslash, if_neg hslash]
    constructor
    · intro h
      exact (congrArg hostName h).symm
    · intro h
      rw [← h]
  · have hhost : (if (a ++ '/' :: b).head? = some '/' then a ++ '/' :: b
        else (a ++ '/' :: b).takeWhile (· ≠ '/')) = if a = [] then '/' :: b else a := by
      rw [takeWhile_host ha]
      by_cases hnil : a = []
      · rw [if_pos ((head?_host ha).mpr hnil), if_pos hnil, hnil, List.nil_append]
      · rw [if_neg ((head?_host ha).not.mpr hnil), if_neg hnil]
    have hmem : '/' ∈ a ++ '/' :: b := by simp
    rw [splitHost_append ha, if_pos hmem, hhost]
    constructor
    · intro h
      refine ⟨?_, (congrArg hostName h).symm⟩
      have hres := congrArg resourceName h
      rintro hnil
      simp [hnil] at hres
    · rintro ⟨hres, h⟩
      rw [if_pos (Value.truthy_iff.mpr hres), ← h]

/-- **Setting changes nothing** exactly if the field has the value. -/
theorem setStr_eq_self_iff {f : Field} (hname : Field.ofName name = some f) :
    c.setStr (name, v) = c ↔ c.Holds v f := by
  rw [setStr, hname]
  cases f with
  | mode =>
    show (if v ∈ modes then { c with mode := .sym v } else c) = c ↔ _
    by_cases hm : v ∈ modes
    · rw [if_pos hm, Holds]
      exact ⟨fun h _ => (congrArg mode h).symm, fun h => by rw [← h hm]⟩
    · simp [Holds, hm]
  | hostName => exact splitHost_eq_self_iff
  | type =>
    show (if v ∈ types then { c with type := .sym v } else c) = c ↔ _
    by_cases ht : v ∈ types
    · rw [if_pos ht, Holds]
      exact ⟨fun h _ => (congrArg type h).symm, fun h => by rw [← h ht]⟩
    · simp [Holds, ht]
  | resourceName => exact ⟨fun h => (congrArg resourceName h).symm, fun h => by rw [← h]; rfl⟩
  | userName => exact ⟨fun h => (congrArg userName h).symm, fun h => by rw [← h]; rfl⟩
  | sessionid => exact ⟨fun h => (congrArg sessionid h).symm, fun h => by rw [← h]; rfl⟩

/-! ### The two ways to write -/

/-- Where `obj.name = v` does what `set(name, v)` does. A resource, user or session is stored by
both. A mode or type must be one that `set` ignores and that is there already, a host must not be
one that `set` splits. An alias is never resolved, so both must do nothing; a custom name must not
occur with a `=` at its end. -/
def Agreeable (c : StreamIDComponents) (name v : RString) : Prop :=
  match accessors.lookup name, Field.ofName name with
  | some .mode, _ => v ∉ modes ∧ c.mode = .str v
  | some .type, _ => v ∉ types ∧ c.type = .str v
  | some .hostName, _ => '/' ∉ v ∨ v.head? = some '/' ∧ c.resourceName ≠ .nil
  | some _, _ => True
  | none, some f =>
    (Key.str (name ++ ['=']) ∈ c.extra.keys ∨ c.extra.lookup (.str name) = some (.str v)) ∧
      c.Holds v f
  | none, none =>
    Key.str (name ++ ['=']) ∉ c.extra.keys ∨ c.extra.lookup (.str name) = some (.str v)

theorem aset_extra_eq_self_iff {k : Key} {val : Value} :
    { c with extra := c.extra.aset k val } = c ↔ c.extra.lookup k = some val := by
  rw [← OrderedHash.aset_eq_self_iff]
  exact ⟨fun h => congrArg extra h, fun h => by rw [h]⟩

theorem splitHost_eq_attrWriter_iff :
    c.splitHost v = c.attrWriter .hostName (.str v) ↔
      '/' ∉ v ∨ v.head? = some '/' ∧ c.resourceName ≠ .nil := by
  rcases exists_cut v '/' with hslash | ⟨a, b, rfl, ha⟩
  · rw [splitHost_of_not_mem hslash]
    exact iff_of_true rfl (Or.inl hslash)
  · have hmem : ¬ '/' ∉ a ++ '/' :: b := by simp
    rw [splitHost_append ha, or_iff_right hmem, head?_host ha]
    constructor
    · intro h
      have hhost := congrArg hostName h
      have hres := congrArg resourceName h
      simp only [attrWriter] at hhost hres
      constructor
      · by_contra hne
        rw [if_neg hne] at hhost
        have hlen := congrArg List.length (Value.str.inj hhost)
        rw [List.length_append, List.length_cons] at hlen
        omega
      · intro hnil
        simp [hnil] at hres
    · rintro ⟨rfl, hres⟩
      rw [if_pos (Value.truthy_iff.mpr hres)]
      rfl

/-- The accessors. -/
theorem setStr_eq_attrWriter_iff {f : Field} (haccessor : accessors.lookup name = some f) :
    c.setStr (name, v) = c.attrWriter f (.str v) ↔ c.Agreeable name v := by
  rw [setStr, Agreeable, ofName_of_accessors haccessor, haccessor]
  cases f with
  | mode =>
    show (if v ∈ modes then { c with mode := .sym v } else c) = { c with mode := .str v } ↔ _
    by_cases hm : v ∈ modes
    · rw [if_pos hm]
      exact iff_of_false (fun h => by cases congrArg mode h) fun h => h.1 hm
    · rw [if_neg hm]
      exact ⟨fun h => ⟨hm, congrArg mode h⟩, fun h => by rw [← h.2]⟩
  | type =>
    show (if v ∈ types then { c with type := .sym v } else c) = { c with type := .str v } ↔ _
    by_cases ht : v ∈ types
    · rw [if_pos ht]
      exact iff_of_false (fun h => by cases congrArg type h) fun h => h.1 ht
    · rw [if_neg ht]
      exact ⟨fun h => ⟨ht, congrArg type h⟩, fun h => by rw [← h.2]⟩
  | hostName => exact splitHost_eq_attrWriter_iff
  | _ => exact iff_of_true rfl trivial

/-- The aliases. -/
theorem setStr_eq_write_of_alias_iff {f : Field} (haccessor : accessors.lookup name = none)
    (hfield : Field.ofName name = some f) (hname : IsWord name) :
    c.setStr (name, v) = c.write name (.str v) ↔ c.Agreeable name v := by
  have hextra : (c.setStr (name, v)).extra = c.extra :=
    extra_setValue_of_field (p := strEntry (name, v)) hfield
  rw [write_of_dynamic haccessor hname.not_mem_comparisons (hname.not_mem (by decide)),
    Agreeable, haccessor, hfield]
  show _ ↔ (_ ∨ _) ∧ c.Holds v f
  rw [← setStr_eq_self_iff hfield]
  by_cases hkey : Key.str (name ++ ['=']) ∈ c.extra.keys
  · simp [hkey]
  · rw [if_neg hkey, or_iff_right hkey]
    constructor
    · intro h
      have hself : { c with extra := c.extra.aset (.str name) (.str v) } = c :=
        aset_extra_eq_self_iff.mpr
          (OrderedHash.aset_eq_self_iff.mp ((congrArg extra h).symm.trans hextra))
      exact ⟨aset_extra_eq_self_iff.mp hself, h.trans hself⟩
    · rintro ⟨hlookup, h⟩
      rw [h, aset_extra_eq_self_iff.mpr hlookup]

/-- The custom names. -/
theorem setStr_eq_write_of_custom_iff (hfield : Field.ofName name = none) (hname : IsWord name) :
    c.setStr (name, v) = c.write name (.str v) ↔ c.Agreeable name v := by
  have haccessor := accessors_lookup_of_custom hfield
  rw [write_of_dynamic haccessor hname.not_mem_comparisons (hname.not_mem (by decide)),
    Agreeable, haccessor, hfield, setStr, hfield]
  show { c with extra := c.extra.aset (.str name) (.str v) } = _ ↔ _ ∉ _ ∨ _
  by_cases hkey : Key.str (name ++ ['=']) ∈ c.extra.keys
  · rw [if_pos hkey, or_iff_right (not_not.mpr hkey)]
    exact aset_extra_eq_self_iff
  · simp [hkey]

/-- **Where a writer and `set` do the same.** -/
theorem set_eq_write_iff (c : StreamIDComponents) (hname : IsWord name) (v : RString) :
    c.set (.str name) (.str v) = .ok (c.write name (.str v)) ↔ c.Agreeable name v := by
  rw [set_str, Except.ok.injEq]
  rcases haccessor : accessors.lookup name with _ | f
  · rcases hfield : Field.ofName name with _ | f
    · exact setStr_eq_write_of_custom_iff hfield hname
    · exact setStr_eq_write_of_alias_iff haccessor hfield hname
  · rw [write, haccessor]
    exact setStr_eq_attrWriter_iff haccessor

theorem set_eq_write_user :
    fresh.set (.str "user_name".toList) (.str "emma".toList) =
      .ok (fresh.write "user_name".toList (.str "emma".toList)) := by
  have hword : "user_name".toList.all (fun d => d.isAlphanum || d = '_') := by decide
  refine (set_eq_write_iff fresh ⟨by decide, fun d hd => ?_⟩ _).mpr trivial
  simpa using List.all_eq_true.mp hword d hd

/-- A mode that does not exist, a host with a path, an alias. -/
theorem set_ne_write :
    fresh.set (.str "mode".toList) (.str "live".toList) ≠
        .ok (fresh.write "mode".toList (.str "live".toList)) ∧
      fresh.set (.str "host_name".toList) (.str "recce.nl/live".toList) ≠
        .ok (fresh.write "host_name".toList (.str "recce.nl/live".toList)) ∧
      fresh.set (.str "r".toList) (.str "live".toList) ≠
        .ok (fresh.write "r".toList (.str "live".toList)) :=
  ⟨by decide, by decide, by decide⟩

/-! ### Custom values as a map -/

/-- A name that can be written with a dot in front: no digit first, then word characters. Letters
beyond ASCII are allowed. -/
def IsIdentifier (name : RString) : Prop :=
  ∃ d t, name = d :: t ∧ (d.isAlpha ∨ d = '_' ∨ 128 ≤ d.toNat) ∧
    ∀ e ∈ t, e.isAlphanum ∨ e = '_' ∨ 128 ≤ e.toNat

theorem IsIdentifier.not_mem (h : IsIdentifier name) {d : Char}
    (hd : ¬ (d.isAlphanum ∨ d = '_' ∨ 128 ≤ d.toNat)) : d ∉ name := by
  obtain ⟨e, t, rfl, he, ht⟩ := h
  rintro hmem
  rcases List.mem_cons.mp hmem with rfl | hmem
  · refine hd (he.imp_left fun halpha => ?_)
    simp [Char.isAlphanum, halpha]
  · exact hd (ht d hmem)

theorem IsIdentifier.not_mem_comparisons (h : IsIdentifier name) : name ∉ comparisons :=
  StreamIDComponents.not_mem_comparisons (h.not_mem (by decide)) (h.not_mem (by decide))

/-- `obj.name = val` stores the value where `obj.name` finds it, and nothing else changes. -/
structure IsMapWrite (c : StreamIDComponents) (name : RString) (val : Value) : Prop where
  value : (c.write name val).read name = val
  others : ∀ m, IsIdentifier m → Field.ofName m = none → m ≠ name →
    (c.write name val).read m = c.read m
  fields : ∀ f, (c.write name val).get f = c.get f

/-- What a writer of a custom name does. -/
theorem write_custom (hname : IsIdentifier name) (hcustom : Field.ofName name = none)
    (val : Value) :
    c.write name val = if Key.str (name ++ ['=']) ∈ c.extra.keys then c
      else { c with extra := c.extra.aset (.str name) val } :=
  write_of_dynamic (accessors_lookup_of_custom hcustom) hname.not_mem_comparisons
    (hname.not_mem (by decide)) val

theorem read_aset (c : StreamIDComponents) (k : Key) (val : Value) (m : RString) :
    ({ c with extra := c.extra.aset k val } : StreamIDComponents).read m =
      if Key.str m = k then val else c.read m := by
  rw [read, methodMissing_reader, read, methodMissing_reader, OrderedHash.lookup_aset]
  split <;> rfl

/-- **One write.** -/
theorem isMapWrite_iff (hname : IsIdentifier name) (hcustom : Field.ofName name = none)
    (val : Value) :
    c.IsMapWrite name val ↔
      Key.str (name ++ ['=']) ∉ c.extra.keys ∨ c.read name = val := by
  by_cases hkey : Key.str (name ++ ['=']) ∈ c.extra.keys
  · have hwrite : c.write name val = c := by rw [write_custom hname hcustom, if_pos hkey]
    rw [or_iff_right (not_not.mpr hkey)]
    constructor
    · intro h
      exact hwrite ▸ h.value
    · intro h
      exact ⟨hwrite.symm ▸ h, fun _ _ _ _ => by rw [hwrite], fun _ => by rw [hwrite]⟩
  · have hwrite : c.write name val = { c with extra := c.extra.aset (.str name) val } := by
      rw [write_custom hname hcustom, if_neg hkey]
    refine iff_of_true ⟨?_, fun m _ _ hm => ?_, fun f => ?_⟩ (Or.inl hkey)
    · rw [hwrite, read_aset, if_pos rfl]
    · rw [hwrite, read_aset, if_neg fun h => hm (Key.str.inj h)]
    · rw [hwrite]
      cases f <;> rfl

/-! ### Runs of writers -/

/-- `obj.name = val`, as a step. -/
def dynamicWrite (c : StreamIDComponents) (w : RString × Value) : StreamIDComponents :=
  c.write w.1 w.2

/-- Every write of a run is one that a map would make. -/
def MapWrites (c : StreamIDComponents) (ws : List (RString × Value)) : Prop :=
  Along dynamicWrite (fun c w => c.IsMapWrite w.1 w.2) c ws

/-- What decides about a writer does not change: the keys it could be mistaken for, and what its
reader gives if it is. -/
structure Settled (c d : StreamIDComponents) : Prop where
  keys : ∀ m, IsIdentifier m →
    (Key.str (m ++ ['=']) ∈ d.extra.keys ↔ Key.str (m ++ ['=']) ∈ c.extra.keys)
  read : ∀ m, IsIdentifier m → Key.str (m ++ ['=']) ∈ c.extra.keys → d.read m = c.read m

theorem Settled.dynamicWrite {d : StreamIDComponents} (h : Settled c d) {w : RString × Value}
    (hname : IsIdentifier w.1) (hcustom : Field.ofName w.1 = none) :
    Settled c (d.dynamicWrite w) := by
  rw [StreamIDComponents.dynamicWrite, write_custom hname hcustom]
  by_cases hkey : Key.str (w.1 ++ ['=']) ∈ d.extra.keys
  · rwa [if_pos hkey]
  · rw [if_neg hkey]
    constructor
    · intro m hm
      have hne : Key.str (m ++ ['=']) ≠ Key.str w.1 := by
        intro heq
        refine hname.not_mem (d := '=') (by decide) ?_
        rw [← Key.str.inj heq]
        simp
      show _ ∈ (d.extra.aset _ _).keys ↔ _
      rw [OrderedHash.mem_keys_aset, or_iff_right hne]
      exact h.keys m hm
    · intro m hm hmem
      have hne : Key.str m ≠ Key.str w.1 := by
        intro heq
        obtain rfl := Key.str.inj heq
        exact hkey ((h.keys _ hm).mpr hmem)
      rw [read_aset, if_neg hne]
      exact h.read m hm hmem

/-- **Which runs of writers are writes to a map.** Whatever the object was made of, and however
often it is written to: exactly those that never write a name that the object has with a `=` at
its end, unless they write the value it is read with already. -/
theorem mapWrites_iff (c : StreamIDComponents) {ws : List (RString × Value)}
    (hws : ∀ w ∈ ws, IsIdentifier w.1 ∧ Field.ofName w.1 = none) :
    c.MapWrites ws ↔
      ∀ w ∈ ws, Key.str (w.1 ++ ['=']) ∉ c.extra.keys ∨ c.read w.1 = w.2 := by
  have hconst : Along dynamicWrite
      (fun _ w => Key.str (w.1 ++ ['=']) ∉ c.extra.keys ∨ c.read w.1 = w.2) c ws ↔
      ∀ w ∈ ws, Key.str (w.1 ++ ['=']) ∉ c.extra.keys ∨ c.read w.1 = w.2 := along_const
  rw [← hconst]
  refine along_congr (I := Settled c)
    (A := fun _ w => IsIdentifier w.1 ∧ Field.ofName w.1 = none)
    (fun d w hd hw => hd.dynamicWrite hw.1 hw.2) (fun d w hd hw => ?_)
    ⟨fun _ _ => Iff.rfl, fun _ _ _ => rfl⟩ (along_const.mpr hws)
  rw [isMapWrite_iff hw.1 hw.2, hd.keys w.1 hw.1]
  by_cases hkey : Key.str (w.1 ++ ['=']) ∈ c.extra.keys
  · rw [hd.read w.1 hw.1 hkey]
  · simp [hkey]

/-- An object with one custom value, as a streamid has it. -/
def fooComponents : StreamIDComponents :=
  { fresh with extra := .ofPairs [(.str "foo".toList, .str "bar".toList)] }

/-- An object with a custom value under a key that ends in `=`, as a hash or a query may have it. -/
def blockedComponents : StreamIDComponents :=
  { fresh with extra := .ofPairs [(.str "foo=".toList, .str "1".toList)] }

theorem mapWrites_foo :
    fooComponents.MapWrites
      [("foo".toList, .str "baz".toList), ("t1".toList, .str "x".toList)] := by
  refine (mapWrites_iff fooComponents ?_).mpr ?_
  · refine List.forall_mem_cons.mpr ⟨⟨⟨'f', "oo".toList, rfl, by decide, ?_⟩, by decide⟩,
      List.forall_mem_singleton.mpr ⟨⟨'t', "1".toList, rfl, by decide, ?_⟩, by decide⟩⟩
    · exact List.forall_mem_cons.mpr ⟨by decide, List.forall_mem_singleton.mpr (by decide)⟩
    · exact List.forall_mem_singleton.mpr (by decide)
  · exact List.forall_mem_cons.mpr
      ⟨Or.inl (by decide), List.forall_mem_singleton.mpr (Or.inl (by decide))⟩

/-- The writer is taken for the reader of `foo=`, and the value is lost. -/
theorem not_mapWrites_blocked :
    new noURILib (.hash (.ofPairs [(.str "foo=".toList, .str "1".toList)])) =
        .ok blockedComponents ∧
      ¬ blockedComponents.MapWrites [("foo".toList, .str "bar".toList)] := by
  refine ⟨by decide, ?_⟩
  rintro ⟨h, -⟩
  have hlost : (blockedComponents.write "foo".toList (.str "bar".toList)).read "foo".toList =
      .nil := by decide
  exact absurd (hlost.symm.trans h.value) (by decide)

/-- **Where such a key cannot come from.** The names in an access-control streamid hold no `=`, so
no writer of an object parsed from one is taken for a reader. -/
theorem not_mem_keys_of_header {lib : URILib} {s : RString} (hs : header <+: s)
    (hc : parse lib s = .ok c) (name : RString) :
    Key.str (name ++ ['=']) ∉ c.extra.keys := by
  rw [parse_of_header lib hs, foldl_setStr_eq] at hc
  obtain rfl := Except.ok.inj hc
  rw [mem_keys_foldl_setValue]
  rintro (h | ⟨h, -⟩)
  · simp [fresh] at h
  · rw [List.map_map] at h
    obtain ⟨p, hp, hkey⟩ := List.mem_map.mp h
    have hname : p.1 = name ++ ['='] := Key.str.inj hkey
    refine isKeyChar_ne_eq ((isKey_of_mem_scan hp).2 '=' ?_) rfl
    rw [hname]
    simp

end StreamIDComponents

end Rbsrt
