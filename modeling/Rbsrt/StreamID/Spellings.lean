import Rbsrt.StreamID.Classify

/-!
# Three spellings of one streamid

`srt://host/resource?key=value` is taken apart by Ruby's URI library, `#!::h=host,r=resource,...` by
a regexp, and a hash is not taken apart at all. The first stores host and resource itself and leaves
only the query to `set`; the other two go through `set` for everything, which splits hosts and lets
the resource be.

They come to the same as long as the texts are ones the regexp can match and the host of the URL has
no slash, which is where `set` would do something that `merge_uri!` does not. The query may name any
field, also the two that the URL has set already, and in any order.

## Main results

* `StreamIDComponents.atUri_fresh` — host and path, as pairs that are set
* `StreamIDComponents.spellings_agree` — the three spellings
-/

namespace Rbsrt

open Backtrack

/-- The host and the path of a URI, under the short names of their fields. A path without its first
character is the resource, and an empty one is none. -/
def URI.place (uri : URI) : List (RString × RString) :=
  (match uri.hostname with
    | some host => [("h".toList, host)]
    | none => []) ++
  match uri.path with
  | some (_ :: path) => [("r".toList, path)]
  | _ => []

/-- All that a URI says: its place, and then what its query sets. -/
def URI.written (uri : URI) (form : List (RString × RString)) : List (RString × RString) :=
  uri.place ++ StreamIDComponents.queryPairs form

/-- The texts of a URI are ones the regexp can match, and the host stays a host. -/
structure URI.Writable (uri : URI) (form : List (RString × RString)) : Prop where
  host : ∀ host, uri.hostname = some host → IsVal host ∧ '/' ∉ host
  path : ∀ c path, uri.path = some (c :: path) → IsVal path
  query : ∀ p ∈ StreamIDComponents.queryPairs form, IsKey p.1 ∧ IsVal p.2

namespace StreamIDComponents

variable {lib : URILib} {uri : URI} {form : List (RString × RString)} {s : RString}

theorem isVal_of_mem_written (h : uri.Writable form) :
    ∀ p ∈ uri.written form, IsKey p.1 ∧ IsVal p.2 := by
  have hname : IsKey "h".toList ∧ IsKey "r".toList := by decide
  intro p hp
  rw [URI.written, URI.place, List.mem_append, List.mem_append] at hp
  rcases hp with (hp | hp) | hp
  · cases hhost : uri.hostname with
    | none => simp [hhost] at hp
    | some host =>
      rw [hhost] at hp
      obtain rfl := List.mem_singleton.mp hp
      exact ⟨hname.1, (h.host host hhost).1⟩
  · rcases hpath : uri.path with _ | _ | ⟨c, path⟩
    · simp [hpath] at hp
    · simp [hpath] at hp
    · rw [hpath] at hp
      obtain rfl := List.mem_singleton.mp hp
      exact ⟨hname.2, h.path c path hpath⟩
  · exact h.query p hp

/-- **Host and path**, as `merge_uri!` stores them, are what `set` would store for them. -/
theorem atUri_fresh (hhost : ∀ host, uri.hostname = some host → '/' ∉ host) :
    fresh.atUri uri = uri.place.foldl setStr fresh := by
  obtain ⟨hostname, path, query⟩ := uri
  have hname : Field.ofName "h".toList = some .hostName := by decide
  have hresource : Field.ofName "r".toList = some .resourceName := by decide
  have hplace : (match hostname with
      | some host => [("h".toList, host)]
      | none => []).foldl setStr fresh = { fresh with hostName := .ofSlice hostname } := by
    cases hostname with
    | none => rfl
    | some host =>
      rw [List.foldl_cons, List.foldl_nil, setStr, hname]
      exact splitHost_of_not_mem (hhost host rfl)
  rw [URI.place, List.foldl_append, hplace]
  rcases path with _ | _ | ⟨c, path⟩
  · rfl
  · simp only [atUri, slice_one_nil]
    rfl
  · simp only [List.foldl_cons, List.foldl_nil, setStr, hresource, atUri, slice_one_cons]
    rfl

/-! ### The other two spellings -/

theorem new_hash_strEntry (lib : URILib) {ps : List (RString × RString)}
    (hps : (ps.map Prod.fst).Nodup) :
    new lib (.hash (.ofPairs (ps.map strEntry))) = .ok (ps.foldl setStr fresh) := by
  have hkeys : ((ps.map strEntry).map Prod.fst).Nodup := by
    have hstr : (ps.map strEntry).map Prod.fst = (ps.map Prod.fst).map Key.str := by
      rw [List.map_map, List.map_map]
      rfl
    rw [hstr]
    exact hps.map fun _ _ h => Key.str.inj h
  show fresh.mergeHash (.ofPairs (ps.map strEntry)) = _
  rw [mergeHash, OrderedHash.entries_ofPairs hkeys, List.foldlM_map]
  exact foldlM_set_str ps fresh

/-- The string is a URL that the library takes apart into a URI and a decoded query. -/
structure Spells (lib : URILib) (s : RString) (uri : URI) (form : List (RString × RString)) :
    Prop where
  noHeader : ¬ header <+: s
  regexp : lib.regexp s = true
  parts : lib.uri s = .ok uri
  query : uri.query = none ∧ form = [] ∨
    ∃ query, uri.query = some query ∧ lib.decodeWwwForm query = .ok form

theorem parse_of_spells (h : Spells lib s uri form) :
    parse lib s = .ok ((queryPairs form).foldl setStr (fresh.atUri uri)) := by
  rw [parse_of_regexp h.noHeader h.regexp, h.parts]
  refine mergeUri_ok_iff.mpr ?_
  rcases h.query with ⟨hquery, rfl⟩ | ⟨query, hquery, hform⟩
  · exact Or.inl ⟨hquery, rfl⟩
  · exact Or.inr ⟨query, form, hquery, hform, rfl⟩

/-- **Three spellings.** A URL is parsed into the object that its parts make when they are written
out behind a header, and, if none is named twice, when they are given as a hash. -/
theorem spellings_agree (h : Spells lib s uri form) (hwritable : uri.Writable form) :
    parse lib s = parse lib (header ++ join (uri.written form)) ∧
      (((uri.written form).map Prod.fst).Nodup →
        parse lib s = new lib (.hash (.ofPairs ((uri.written form).map strEntry)))) := by
  have hurl : parse lib s = .ok ((uri.written form).foldl setStr fresh) := by
    rw [parse_of_spells h, atUri_fresh fun host hhost => (hwritable.host host hhost).2, URI.written,
      List.foldl_append]
  refine ⟨?_, fun hnames => ?_⟩
  · rw [hurl, parse_header_join lib (isVal_of_mem_written hwritable)]
  · rw [hurl, new_hash_strEntry lib hnames]

/-- `srt://recce.nl/cam1?m=publish&angle=wide` -/
def urlCam : RString := "srt://recce.nl/cam1?m=publish&angle=wide".toList

/-- The parts of it. -/
def uriCam : URI :=
  ⟨some "recce.nl".toList, some "/cam1".toList, some "m=publish&angle=wide".toList⟩

/-- Its query, decoded. -/
def formCam : List (RString × RString) :=
  [("m".toList, "publish".toList), ("angle".toList, "wide".toList)]

/-- A URI library that knows the one URL. -/
def libCam : URILib where
  regexp := fun s => s = urlCam
  uri := fun s => if s = urlCam then .ok uriCam else .error .invalidURI
  decodeWwwForm := fun q => if some q = uriCam.query then .ok formCam else .error .invalidURI

/-- Nothing is named twice, so the hash is one of the three spellings. -/
theorem spellings_urlCam :
    parse libCam urlCam = parse libCam (header ++ join (uriCam.written formCam)) ∧
      parse libCam urlCam =
        new libCam (.hash (.ofPairs ((uriCam.written formCam).map strEntry))) := by
  have hquery : ∀ p ∈ queryPairs formCam, IsKey p.1 ∧ IsPlain p.2 := by decide
  have hspells : Spells libCam urlCam uriCam formCam :=
    ⟨by decide, by decide, by decide, Or.inr ⟨_, rfl, by decide⟩⟩
  have hwritable : uriCam.Writable formCam := by
    refine ⟨?_, ?_, fun p hp => ⟨(hquery p hp).1, (hquery p hp).2.isVal⟩⟩
    · intro host hhost
      obtain rfl := Option.some.inj hhost
      exact ⟨IsPlain.isVal (by decide), by decide⟩
    · intro c path hpath
      obtain ⟨-, rfl⟩ := List.cons.inj (Option.some.inj hpath)
      exact IsPlain.isVal (by decide)
  exact (spellings_agree hspells hwritable).imp_right fun hhash => hhash (by decide)

end StreamIDComponents

end Rbsrt
