import Rbsrt.StreamID.Scan

/-!
# Setting String pairs, and reading a compiled object back

`set` can raise and dispatches on whatever key it is given. Called with two Strings, which is
how `merge_str!` calls it, it does neither: `setStr` is what it then does, and `merge_str!` is a
plain fold of it over the scanned pairs.

## Reading back

`reread` says what parsing the compiled form of an object gives, field by field: Strings for the
texts, the mode and the type if they are on their lists, and the custom values under String keys.
`foldl_setStr_pairs` proves it. It is stated for *any* object whose host does not invent a
resource and whose custom keys are custom, whatever its values are, so that round trips, the
comparison of two compiled objects and the recompilation of a parsed one are all instances.
-/

namespace Rbsrt

open Backtrack

/-- The names `set` reserves for the standard fields. -/
def reservedNames : List RString := fieldNames.map Prod.fst

theorem Field.ofName_eq_none_iff {s : RString} : Field.ofName s = none ↔ s ∉ reservedNames := by
  rw [Field.ofName, List.lookup_eq_none_iff, reservedNames, List.mem_map]
  constructor
  · rintro h ⟨p, hp, rfl⟩
    simpa using h p hp
  · intro h p hp
    simpa using fun hs : s = p.1 => h ⟨p, hp, hs.symm⟩

namespace StreamIDComponents

variable {c : StreamIDComponents}

/-! ### The host case -/

theorem splitHost_of_not_mem {v : RString} (h : '/' ∉ v) :
    c.splitHost v = { c with hostName := .str v } := by
  simp [splitHost, index_of_not_mem h]

/-- A host with a path. The part before the slash is the host, unless there is nothing before it:
then `val[0..-1]` is taken, which is everything. -/
theorem splitHost_append {a b : RString} (ha : '/' ∉ a) :
    c.splitHost (a ++ '/' :: b) =
      { c with
        hostName := .str (if a = [] then '/' :: b else a)
        resourceName := if c.resourceName.truthy then c.resourceName else .str b } := by
  have hpath : slice (a ++ '/' :: b) ((a.length : ℤ) + 1) (-1) = some b := by
    have := slice_to_end (s := a ++ '/' :: b) (n := a.length + 1) (by simp)
    simpa using this
  have hhost : slice (a ++ '/' :: b) 0 ((a.length : ℤ) - 1) =
      some (if a = [] then '/' :: b else a) := by
    by_cases hnil : a = []
    · subst hnil
      simpa using slice_zero_neg_one ('/' :: b)
    · rw [slice_zero_pred (List.length_pos_of_ne_nil hnil), if_neg hnil, List.take_left]
  simp only [splitHost, index_append ha, hpath, hhost, Value.ofSlice_some]
  by_cases hr : c.resourceName.truthy <;> simp [hr]

/-! ### Setting Strings -/

/-- `set` with a String key and a String value. -/
def setStr (c : StreamIDComponents) (p : RString × RString) : StreamIDComponents :=
  match Field.ofName p.1 with
  | some .resourceName => { c with resourceName := .str p.2 }
  | some .userName => { c with userName := .str p.2 }
  | some .mode => if p.2 ∈ modes then { c with mode := .sym p.2 } else c
  | some .hostName => c.splitHost p.2
  | some .type => if p.2 ∈ types then { c with type := .sym p.2 } else c
  | some .sessionid => { c with sessionid := .str p.2 }
  | none => { c with extra := c.extra.aset (.str p.1) (.str p.2) }

theorem set_str (c : StreamIDComponents) (k v : RString) :
    c.set (.str k) (.str v) = .ok (c.setStr (k, v)) := by
  rw [set, setStr, Key.toS]
  cases Field.ofName k with
  | none => rfl
  | some f =>
    cases f with
    | mode => by_cases hv : v ∈ modes <;> simp [hv, Value.toSym, Except.map]
    | type => by_cases hv : v ∈ types <;> simp [hv, Value.toSym, Except.map]
    | _ => rfl

theorem foldlM_set_str (ps : List (RString × RString)) (c : StreamIDComponents) :
    ps.foldlM (fun c p => c.set (.str p.1) (.str p.2)) c = .ok (ps.foldl setStr c) := by
  induction ps generalizing c with
  | nil => rfl
  | cons p ps ih =>
    rw [List.foldlM_cons, set_str, List.foldl_cons, ← ih]
    rfl

theorem mergeStr_eq (c : StreamIDComponents) (s : RString) :
    c.mergeStr s = .ok ((scan pairRegexp s).foldl setStr c) :=
  foldlM_set_str _ c

/-! ### The branches of the constructor -/

theorem parse_eq (lib : URILib) (s : RString) :
    parse lib s = if header.isPrefixOf s then fresh.mergeStr s
      else if lib.regexp s then lib.uri s >>= fresh.mergeUri lib
      else .ok { fresh with resourceName := .str s } := rfl

/-- An access-control streamid is parsed by setting its pairs one after the other. -/
theorem parse_of_header (lib : URILib) {s : RString} (hs : header <+: s) :
    parse lib s = .ok ((scan pairRegexp s).foldl setStr fresh) := by
  rw [parse_eq, if_pos (List.isPrefixOf_iff_prefix.mpr hs), mergeStr_eq]

/-- One that is written out pair by pair. -/
theorem parse_header_join (lib : URILib) {ps : List (RString × RString)}
    (hps : ∀ p ∈ ps, IsKey p.1 ∧ IsVal p.2) :
    parse lib (header ++ join ps) = .ok (ps.foldl setStr fresh) := by
  rw [parse_of_header lib (List.prefix_append header (join ps)), scan_header, scan_join hps]

/-- A string with a URI in it is parsed as one. -/
theorem parse_of_regexp {lib : URILib} {s : RString} (hheader : ¬ header <+: s)
    (hregexp : lib.regexp s = true) : parse lib s = lib.uri s >>= fresh.mergeUri lib := by
  rw [parse_eq, if_neg (by simpa using hheader), if_pos hregexp]

/-- Any other string is the resource name. -/
theorem parse_of_not_regexp {lib : URILib} {s : RString} (hheader : ¬ header <+: s)
    (hregexp : lib.regexp s = false) :
    parse lib s = .ok { fresh with resourceName := .str s } := by
  rw [parse_eq, if_neg (by simpa using hheader), if_neg (by simp [hregexp])]

theorem parse_toS (lib : URILib) (c : StreamIDComponents) :
    parse lib c.toS = .ok ((scan pairRegexp c.toS).foldl setStr fresh) :=
  parse_of_header lib (List.prefix_append header (join c.pairs))

/-! ### Reading back -/

/-- A text field after a round trip. -/
def rereadText (v : Value) : Value := if v.truthy then .str v.toS else .nil

/-- A mode or type after a round trip. -/
def rereadChoice (choices : List RString) (default v : Value) : Value :=
  if v.truthy ∧ v.toS ∈ choices then .sym v.toS else default

/-- Custom values after a round trip. -/
def rereadExtra (h : OrderedHash Key Value) : OrderedHash Key Value :=
  .ofPairs (h.entries.map fun e => (.str e.1.toS, .str e.2.toS))

/-- What parsing the compiled form of an object gives. -/
def reread (c : StreamIDComponents) : StreamIDComponents where
  resourceName := rereadText c.resourceName
  userName := rereadText c.userName
  mode := rereadChoice modes fresh.mode c.mode
  hostName := rereadText c.hostName
  type := rereadChoice types fresh.type c.type
  sessionid := rereadText c.sessionid
  extra := rereadExtra c.extra

/-- Setting the host again does not invent a resource: it has no slash, or it begins with one
and the resource is set by then. -/
def HostStays (c : StreamIDComponents) : Prop :=
  '/' ∉ c.hostName.toS ∨ ((∃ b, c.hostName.toS = '/' :: b) ∧ c.resourceName ≠ .nil)

theorem splitHost_of_hostStays {d : StreamIDComponents} (h : c.HostStays)
    (hd : c.resourceName ≠ .nil → d.resourceName ≠ .nil) :
    d.splitHost c.hostName.toS = { d with hostName := .str c.hostName.toS } := by
  rcases h with h | ⟨⟨b, hb⟩, hr⟩
  · exact splitHost_of_not_mem h
  · have htruthy : d.resourceName.truthy = true := Value.truthy_iff.mpr (hd hr)
    rw [hb]
    simpa [htruthy] using splitHost_append (c := d) (a := []) (b := b) (by simp)

theorem foldl_setStr_extra {es : List (Key × Value)}
    (hes : ∀ e ∈ es, Field.ofName e.1.toS = none) (d : StreamIDComponents) :
    (es.map fun e => (e.1.toS, e.2.toS)).foldl setStr d =
      { d with extra := d.extra.asetAll (es.map fun e => (.str e.1.toS, .str e.2.toS)) } := by
  induction es generalizing d with
  | nil => rfl
  | cons e es ih =>
    have hstep : d.setStr (e.1.toS, e.2.toS) =
        { d with extra := d.extra.aset (.str e.1.toS) (.str e.2.toS) } := by
      simp [setStr, hes e (by simp)]
    rw [List.map_cons, List.foldl_cons, hstep, ih fun f hf => hes f (List.mem_cons_of_mem e hf)]
    rfl

theorem foldl_setStr_emit (name : RString) (v : Value) (d : StreamIDComponents) :
    (emit name v).foldl setStr d = if v.truthy then d.setStr (name, v.toS) else d := by
  cases h : v.truthy <;> simp [emit, h]

theorem foldl_setStr_emit_mode {d : StreamIDComponents} (hd : d.mode = fresh.mode) (v : Value) :
    (emit "m".toList v).foldl setStr d =
      { d with mode := rereadChoice modes fresh.mode v } := by
  have hset : d.setStr ("m".toList, v.toS) =
      if v.toS ∈ modes then { d with mode := .sym v.toS } else d := rfl
  rw [foldl_setStr_emit, hset, ← hd]
  by_cases hv : v.truthy <;> by_cases hmem : v.toS ∈ modes <;> simp [rereadChoice, hv, hmem]

theorem foldl_setStr_emit_type {d : StreamIDComponents} (hd : d.type = fresh.type) (v : Value) :
    (emit "t".toList v).foldl setStr d =
      { d with type := rereadChoice types fresh.type v } := by
  have hset : d.setStr ("t".toList, v.toS) =
      if v.toS ∈ types then { d with type := .sym v.toS } else d := rfl
  rw [foldl_setStr_emit, hset, ← hd]
  by_cases hv : v.truthy <;> by_cases hmem : v.toS ∈ types <;> simp [rereadChoice, hv, hmem]

theorem foldl_setStr_emit_hostName {d : StreamIDComponents} (hd : d.hostName = .nil)
    (hhost : c.HostStays) (hres : d.resourceName = rereadText c.resourceName) :
    (emit "h".toList c.hostName).foldl setStr d =
      { d with hostName := rereadText c.hostName } := by
  have hset : d.setStr ("h".toList, c.hostName.toS) = d.splitHost c.hostName.toS := rfl
  have hstill : c.resourceName ≠ .nil → d.resourceName ≠ .nil := by
    intro hr
    rw [hres, rereadText, if_pos (Value.truthy_iff.mpr hr)]
    simp
  rw [foldl_setStr_emit, hset, splitHost_of_hostStays hhost hstill]
  by_cases hv : c.hostName.truthy <;> simp [rereadText, hv, ← hd]

/-- **Reading the compiled pairs back.** -/
theorem foldl_setStr_pairs (hhost : c.HostStays)
    (hextra : ∀ e ∈ c.extra.entries, Field.ofName e.1.toS = none) :
    c.pairs.foldl setStr fresh = c.reread := by
  -- the three fields that are stored as they stand
  have hr : ∀ d : StreamIDComponents, d.resourceName = .nil →
      (emit "r".toList c.resourceName).foldl setStr d =
        { d with resourceName := rereadText c.resourceName } := by
    rintro ⟨⟩ rfl
    cases c.resourceName <;> rfl
  have hu : ∀ d : StreamIDComponents, d.userName = .nil →
      (emit "u".toList c.userName).foldl setStr d =
        { d with userName := rereadText c.userName } := by
    rintro ⟨⟩ rfl
    cases c.userName <;> rfl
  have hs : ∀ d : StreamIDComponents, d.sessionid = .nil →
      (emit "s".toList c.sessionid).foldl setStr d =
        { d with sessionid := rereadText c.sessionid } := by
    rintro ⟨⟩ rfl
    cases c.sessionid <;> rfl
  rw [pairs, List.foldl_append, List.foldl_append, List.foldl_append, List.foldl_append,
    List.foldl_append, List.foldl_append, hr fresh rfl, hu _ (by rfl),
    foldl_setStr_emit_mode (by rfl), foldl_setStr_emit_hostName (by rfl) hhost (by rfl),
    foldl_setStr_emit_type (by rfl), hs _ (by rfl), foldl_setStr_extra hextra]
  rfl

end StreamIDComponents

end Rbsrt
