import Rbsrt.StreamID.Order

/-!
# Three ways to build an object

The same pairs can reach the constructor as a hash with String keys, as a hash with Symbol keys
and as an access-control streamid. Standard fields go by `key.to_s` and end up the same. Custom
values are stored under the key as it is given, while a reader looks for the String: built from
Symbols, an object prints its custom values and hands them over in `to_h`, but does not give them
out by name.

## Main results

* `new_header_join` — the streamid and the hash with String keys build the same object
* `get_built`, `toS_built` — what the kind of the keys does not matter for
* `methodMissing_built_sym` — built from Symbols, an object has no readers for custom values
* `routesAgree_iff` — all observers agree exactly if there is no custom value
-/

namespace Rbsrt

open Backtrack

namespace StreamIDComponents

variable {key : RString → Key} {ps : List (RString × RString)}

/-! ### The objects -/

/-- The object built from pairs, their names turned into keys. -/
def built (key : RString → Key) (ps : List (RString × RString)) : StreamIDComponents :=
  (ps.map (entry key)).foldl setValue fresh

theorem new_hashOf (lib : URILib) (hkey : IsNaming key) (hdist : Distinct ps) :
    new lib (.hash (hashOf key ps)) = .ok (built key ps) :=
  hdist.mergeHash hkey fresh

/-- **The streamid** builds what the hash with String keys builds. -/
theorem new_header_join (lib : URILib) (hps : Scannable ps) :
    new lib (.value (.str (header ++ join ps))) = .ok (built .str ps) := by
  have hheader : header <+: header ++ join ps := List.prefix_append header (join ps)
  have hscan : scan pairRegexp (header ++ join ps) = ps := by
    rw [scan_header]
    exact scan_join fun p hp => (hps p hp).imp_right IsPlain.isVal
  change parse lib (header ++ join ps) = _
  rw [parse_of_header lib hheader, hscan, foldl_setStr_eq]
  rfl

/-! ### What the kind of the keys does not matter for -/

theorem get_built (hkey : IsNaming key) (ps : List (RString × RString)) (f : Field) :
    (built key ps).get f = (built .str ps).get f :=
  get_foldl_entry hkey ps fresh f

/-- The pairs with custom names. -/
def customs (ps : List (RString × RString)) : List (RString × RString) :=
  ps.filter fun p => Field.ofName p.1 = none

theorem customs_cons (p : RString × RString) (ps : List (RString × RString)) :
    customs (p :: ps) = if Field.ofName p.1 = none then p :: customs ps else customs ps := by
  simp [customs, List.filter_cons]

theorem extra_foldl_entry (hkey : IsNaming key) (ps : List (RString × RString))
    (c : StreamIDComponents) :
    ((ps.map (entry key)).foldl setValue c).extra =
      c.extra.asetAll ((customs ps).map (entry key)) := by
  induction ps generalizing c with
  | nil => rfl
  | cons p ps ih =>
    have hname : (entry key p).1.toS = p.1 := hkey p.1
    rw [List.map_cons, List.foldl_cons, ih, customs_cons]
    cases hp : Field.ofName p.1 with
    | none =>
      rw [extra_setValue_of_none (hname.symm ▸ hp), if_pos rfl]
      rfl
    | some f =>
      rw [extra_setValue_of_field (hname.symm ▸ hp), if_neg (by simp)]

theorem entries_built (hkey : IsNaming key) (hdist : Distinct ps) :
    (built key ps).extra.entries = (customs ps).map (entry key) := by
  have hcustoms : Distinct (customs ps) :=
    List.Nodup.sublist (List.filter_sublist.map _) hdist
  rw [built, extra_foldl_entry hkey]
  exact hcustoms.entries_hashOf hkey

theorem pairs_congr {d e : StreamIDComponents} (hget : ∀ f, d.get f = e.get f)
    (hextra : d.extra.entries.map (fun x => (x.1.toS, x.2.toS)) =
      e.extra.entries.map fun x => (x.1.toS, x.2.toS)) : d.pairs = e.pairs := by
  have hr : d.resourceName = e.resourceName := hget .resourceName
  have hu : d.userName = e.userName := hget .userName
  have hm : d.mode = e.mode := hget .mode
  have hh : d.hostName = e.hostName := hget .hostName
  have ht : d.type = e.type := hget .type
  have hs : d.sessionid = e.sessionid := hget .sessionid
  rw [pairs, pairs, hr, hu, hm, hh, ht, hs, hextra]

/-- **The compiled form** does not show the kind of the keys. -/
theorem toS_built (hkey : IsNaming key) (hdist : Distinct ps) :
    (built key ps).toS = (built .str ps).toS := by
  have hextra : (built key ps).extra.entries.map (fun e => (e.1.toS, e.2.toS)) =
      (built .str ps).extra.entries.map fun e => (e.1.toS, e.2.toS) := by
    rw [entries_built hkey hdist, entries_built isNaming_str hdist, List.map_map, List.map_map]
    refine List.map_congr_left fun p _ => ?_
    change ((key p.1).toS, p.2) = (p.1, p.2)
    rw [hkey p.1]
  rw [toS, toS, pairs_congr (get_built hkey ps) hextra]

/-- Without custom values, the objects are the same. -/
theorem built_eq (hkey : IsNaming key) (hdist : Distinct ps) (h : customs ps = []) :
    built key ps = built .str ps := by
  have hextra : (built key ps).extra = (built .str ps).extra := by
    refine OrderedHash.ext ?_
    rw [entries_built hkey hdist, entries_built isNaming_str hdist, h]
    rfl
  have hget := get_built hkey ps
  cases hd : built key ps
  cases he : built .str ps
  rw [hd, he] at hextra hget
  congr 1
  · exact hget .resourceName
  · exact hget .userName
  · exact hget .mode
  · exact hget .hostName
  · exact hget .type
  · exact hget .sessionid

/-! ### What it does matter for -/

theorem kept_built (key : RString → Key) (ps : List (RString × RString)) :
    Kept (built key ps) := by
  refine kept_foldl kept_fresh fun e he => ?_
  obtain ⟨p, -, rfl⟩ := List.mem_map.mp he
  exact Or.inl ⟨p.2, rfl⟩

/-- A reader gives the value under the String of its name. -/
theorem methodMissing_reader (c : StreamIDComponents) (name : RString) :
    (c.methodMissing name []).2 = (c.extra.lookup (.str name)).getD .nil := by
  rw [methodMissing]
  cases c.extra.lookup (.str name) with
  | some v => rfl
  | none =>
    by_cases hwriter : (matchName name).2
    · simp [hwriter]
    · simp [hwriter]

theorem lookup_built_of_mem (hkey : IsNaming key) (hdist : Distinct ps) {p : RString × RString}
    (hp : p ∈ ps) (hname : Field.ofName p.1 = none) :
    (built key ps).extra.lookup (key p.1) = some (.str p.2) := by
  rw [OrderedHash.lookup_eq_some_iff, entries_built hkey hdist]
  exact List.mem_map.mpr ⟨p, List.mem_filter.mpr ⟨hp, by simpa using hname⟩, rfl⟩

/-- **Built from Symbols**, an object has no custom value under a String. -/
theorem lookup_built_sym (hdist : Distinct ps) (name : RString) :
    (built .sym ps).extra.lookup (.str name) = none := by
  rw [OrderedHash.lookup_eq_none_iff, OrderedHash.keys, entries_built isNaming_sym hdist]
  intro hmem
  obtain ⟨e, he, hname⟩ := List.mem_map.mp hmem
  obtain ⟨p, -, rfl⟩ := List.mem_map.mp he
  cases hname

/-- None of its custom values can be read by name. -/
theorem methodMissing_built_sym (hdist : Distinct ps) (name : RString) :
    ((built .sym ps).methodMissing name []).2 = .nil := by
  rw [methodMissing_reader, lookup_built_sym hdist, Option.getD_none]

/-- The hash of an object built from Symbols has Symbol keys only. -/
theorem not_mem_keys_toH_built_sym (hdist : Distinct ps) (name : RString) :
    Key.str name ∉ (built .sym ps).toH.keys := by
  intro hmem
  rw [OrderedHash.keys, (kept_built .sym ps).entries_toH, List.map_append, List.mem_append] at hmem
  rcases hmem with hmem | hmem
  · exact OrderedHash.lookup_eq_none_iff.mp (lookup_built_sym hdist name) hmem
  · have hsym := (keys_fieldEntries _).subset hmem
    simp [snapshotKeys] at hsym

/-! ### All observers -/

/-- Two objects cannot be told apart by their readers, those of custom values included as far as
they are not methods of the class, by `to_s` and by `to_h`. -/
structure LooksLike (methods : RString → Prop) (d e : StreamIDComponents) : Prop where
  get : ∀ f, d.get f = e.get f
  reader : ∀ name, Field.ofName name = none → ¬ methods name →
    (d.methodMissing name []).2 = (e.methodMissing name []).2
  toS : d.toS = e.toS
  toH : d.toH = e.toH

/-- The three routes build objects that look alike. -/
def RoutesAgree (lib : URILib) (methods : RString → Prop) (ps : List (RString × RString)) :
    Prop :=
  ∃ d₁ d₂ d₃, new lib (.hash (hashOf .str ps)) = .ok d₁ ∧
    new lib (.hash (hashOf .sym ps)) = .ok d₂ ∧
    new lib (.value (.str (header ++ join ps))) = .ok d₃ ∧
    LooksLike methods d₁ d₂ ∧ LooksLike methods d₁ d₃

theorem LooksLike.refl (methods : RString → Prop) (d : StreamIDComponents) :
    LooksLike methods d d :=
  ⟨fun _ => rfl, fun _ _ _ => rfl, rfl, rfl⟩

/-- **Where the construction routes agree.** The three objects look alike exactly if every pair is
for a standard field. -/
theorem routesAgree_iff (lib : URILib) (methods : RString → Prop) (hps : Scannable ps)
    (hdist : Distinct ps) : RoutesAgree lib methods ps ↔ ∀ p ∈ ps, Field.ofName p.1 ≠ none := by
  constructor
  · rintro ⟨d₁, d₂, d₃, h₁, h₂, -, hlook, -⟩ p hp hname
    rw [new_hashOf lib isNaming_str hdist] at h₁
    rw [new_hashOf lib isNaming_sym hdist] at h₂
    obtain rfl := Except.ok.inj h₁
    obtain rfl := Except.ok.inj h₂
    -- the custom value is in one hash under a String, which the other does not have
    have hlookup := lookup_built_of_mem isNaming_str hdist hp hname
    have hmem : Key.str p.1 ∈ (built .str ps).toH.keys := by
      rw [OrderedHash.keys, (kept_built .str ps).entries_toH, List.map_append]
      exact List.mem_append_left _ (OrderedHash.mem_keys_iff.mpr ⟨_, hlookup⟩)
    rw [hlook.toH] at hmem
    exact not_mem_keys_toH_built_sym hdist p.1 hmem
  · intro h
    have hcustoms : customs ps = [] :=
      List.filter_eq_nil_iff.mpr fun p hp => by simpa using h p hp
    have hsame : built .sym ps = built .str ps := built_eq isNaming_sym hdist hcustoms
    refine ⟨_, _, _, new_hashOf lib isNaming_str hdist, new_hashOf lib isNaming_sym hdist,
      new_header_join lib hps, ?_, .refl methods _⟩
    rw [hsame]
    exact .refl methods _

theorem routesAgree_standard :
    RoutesAgree noURILib (fun _ => False) [("r".toList, "my_movie.ts".toList),
      ("user_name".toList, "admin".toList), ("host_name".toList, "stream.recce.nl".toList)] :=
  (routesAgree_iff noURILib _ (by decide) (by decide)).mpr (by decide)

/-- The custom value cannot be read by its name, and `to_h` has it under another key. -/
theorem not_routesAgree_custom :
    ¬ RoutesAgree noURILib (fun _ => False)
      [("some_custom_property".toList, "somevalue".toList)] := by
  rintro ⟨d₁, d₂, d₃, h₁, h₂, -, hlook, -⟩
  have hstr : new noURILib (.hash (hashOf .str
      [("some_custom_property".toList, "somevalue".toList)])) = .ok { fresh with
        extra := .ofPairs [(.str "some_custom_property".toList, .str "somevalue".toList)] } := by
    decide
  have hsym : new noURILib (.hash (hashOf .sym
      [("some_custom_property".toList, "somevalue".toList)])) = .ok { fresh with
        extra := .ofPairs [(.sym "some_custom_property".toList, .str "somevalue".toList)] } := by
    decide
  obtain rfl := Except.ok.inj (h₁.symm.trans hstr)
  obtain rfl := Except.ok.inj (h₂.symm.trans hsym)
  exact absurd (hlook.reader "some_custom_property".toList (by decide) id) (by decide)

end StreamIDComponents

end Rbsrt
