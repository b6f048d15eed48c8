import Rbsrt.StreamID.Recompile
import Rbsrt.StreamID.Snapshot

/-!
# Which kind of streamid it is

The constructor decides what a String is in three steps. It looks for the header at the front; it
looks for an absolute URI *anywhere* in the string; and if it finds one, it parses the *whole*
string as a URI. Only a string in which none is found becomes a resource name.

The second test and the third do not ask the same question. A name that merely contains a URI is
not one and raises. A name such as `live:camera` is a URI, but an opaque one that has neither host
nor path, and leaves nothing of itself in the object. What the two have in common is that the
resource is never the streamid: whatever `merge_uri!` stores there is a proper part of it
(`parse_ne_plain`), so the streamids classified as they should be can be told exactly.

## Main results

* `shorter_foldl` — a resource taken from a part of the string stays one
* `exists_parse_iff` — when there is an object at all
* `classified_iff` — when it is the right one
-/

namespace Rbsrt

open Backtrack

/-- The URI library takes a string apart: a path is a part of it, a query is one behind a question
mark, and decoding makes no value longer. -/
structure URILib.Decomposes (lib : URILib) : Prop where
  path : ∀ s uri path, lib.uri s = .ok uri → uri.path = some path → path.length ≤ s.length
  query : ∀ s uri query, lib.uri s = .ok uri → uri.query = some query → query.length < s.length
  value : ∀ query form, lib.decodeWwwForm query = .ok form →
    ∀ p ∈ form, p.2.length ≤ query.length

namespace StreamIDComponents

variable {lib : URILib} {s : RString}

/-! ### What is asked of the constructor -/

/-- A letter, then letters, digits, `+`, `-` and `.`. -/
def IsScheme (s : RString) : Prop :=
  ∃ c t, s = c :: t ∧ c.isAlpha ∧ ∀ d ∈ t, d.isAlphanum ∨ d = '+' ∨ d = '-' ∨ d = '.'

/-- As a whole a hierarchical URL, `scheme://...`. -/
def IsURL (lib : URILib) (s : RString) : Prop :=
  (∃ scheme rest, IsScheme scheme ∧ s = scheme ++ "://".toList ++ rest) ∧
    ∃ uri, lib.uri s = .ok uri

/-- The string is classified: there is an object, and if the string has no header and is not a
URL, it is the resource name and all other fields keep their defaults. -/
def Classified (lib : URILib) (s : RString) : Prop :=
  (∃ c, parse lib s = .ok c) ∧
    (¬ header <+: s → ¬ IsURL lib s →
      parse lib s = .ok { fresh with resourceName := .str s })

/-- The query of a URI, if it has one, can be decoded. -/
def QueryDecodes (lib : URILib) (s : RString) : Prop :=
  ∀ uri query, lib.uri s = .ok uri → uri.query = some query →
    ∃ form, lib.decodeWwwForm query = .ok form

/-! ### The three branches -/

/-- What `merge_uri!` makes of a URI: the object of its host and path, with the decoded query set
on it. -/
theorem mergeUri_ok_iff {c d : StreamIDComponents} {uri : URI} :
    c.mergeUri lib uri = .ok d ↔
      uri.query = none ∧ d = c.atUri uri ∨
        ∃ query form, uri.query = some query ∧ lib.decodeWwwForm query = .ok form ∧
          d = (queryPairs form).foldl setStr (c.atUri uri) := by
  rw [mergeUri_eq]
  rcases uri.query with _ | query
  · simp [eq_comm]
  show (lib.decodeWwwForm query >>= fun form => (c.atUri uri).mergeHash (hashOfForm form)) =
    .ok d ↔ _
  rcases hform : lib.decodeWwwForm query with e | form
  · constructor
    · intro h
      cases h
    · rintro (⟨h, -⟩ | ⟨q, form, hq, hform', -⟩)
      · cases h
      · obtain rfl := Option.some.inj hq
        cases hform.symm.trans hform'
  · show (c.atUri uri).mergeHash (hashOfForm form) = .ok d ↔ _
    rw [mergeHash_hashOfForm]
    constructor
    · intro h
      exact Or.inr ⟨query, form, rfl, hform, (Except.ok.inj h).symm⟩
    · rintro (⟨h, -⟩ | ⟨q, form', hq, hform', rfl⟩)
      · cases h
      · obtain rfl := Option.some.inj hq
        rw [Except.ok.inj (hform.symm.trans hform')]

/-- **When a string with a URI in it is made into an object.** -/
theorem exists_parse_iff (hheader : ¬ header <+: s) (hregexp : lib.regexp s = true) :
    (∃ c, parse lib s = .ok c) ↔ (∃ uri, lib.uri s = .ok uri) ∧ QueryDecodes lib s := by
  rw [parse_of_regexp hheader hregexp]
  cases huri : lib.uri s with
  | error e =>
    constructor
    · rintro ⟨c, hc⟩
      cases hc
    · rintro ⟨⟨uri, h⟩, -⟩
      cases h
  | ok uri =>
    change (∃ c, fresh.mergeUri lib uri = .ok c) ↔ _
    constructor
    · rintro ⟨c, hc⟩
      refine ⟨⟨uri, rfl⟩, fun uri' query huri' hquery => ?_⟩
      obtain rfl := Except.ok.inj (huri.symm.trans huri')
      rcases mergeUri_ok_iff.mp hc with ⟨hnone, -⟩ | ⟨q, form, hq, hform, -⟩
      · rw [hnone] at hquery
        cases hquery
      · obtain rfl := Option.some.inj (hq.symm.trans hquery)
        exact ⟨form, hform⟩
    · rintro ⟨-, hdecodes⟩
      cases hquery : uri.query with
      | none => exact ⟨_, mergeUri_ok_iff.mpr (Or.inl ⟨hquery, rfl⟩)⟩
      | some query =>
        obtain ⟨form, hform⟩ := hdecodes uri query huri hquery
        exact ⟨_, mergeUri_ok_iff.mpr (Or.inr ⟨query, form, hquery, hform, rfl⟩)⟩

/-! ### A resource that is a part of the string -/

/-- Nothing, or a text of fewer than `n` characters. -/
def Shorter (n : ℕ) (v : Value) : Prop := v = .nil ∨ ∃ r : RString, v = .str r ∧ r.length < n

theorem shorter_setStr {n : ℕ} {c : StreamIDComponents} (h : Shorter n c.resourceName)
    {p : RString × RString} (hp : p.2.length < n) : Shorter n (c.setStr p).resourceName := by
  rw [setStr]
  cases Field.ofName p.1 with
  | none => exact h
  | some f =>
    cases f with
    | resourceName => exact Or.inr ⟨p.2, rfl, hp⟩
    | mode =>
      by_cases hm : p.2 ∈ modes
      · simpa only [if_pos hm] using h
      · simpa only [if_neg hm] using h
    | type =>
      by_cases ht : p.2 ∈ types
      · simpa only [if_pos ht] using h
      · simpa only [if_neg ht] using h
    | hostName =>
      -- only the part behind a slash can become the resource
      rcases exists_cut p.2 '/' with hslash | ⟨a, b, hcut, ha⟩
      · simpa only [splitHost_of_not_mem hslash] using h
      · have hb : b.length < n := by
          rw [hcut, List.length_append, List.length_cons] at hp
          omega
        simp only [hcut, splitHost_append ha]
        by_cases hr : c.resourceName.truthy
        · simpa only [if_pos hr] using h
        · exact Or.inr ⟨b, if_neg hr, hb⟩
    | _ => exact h

theorem shorter_foldl {n : ℕ} {c : StreamIDComponents} (h : Shorter n c.resourceName)
    {ps : List (RString × RString)} (hps : ∀ p ∈ ps, p.2.length < n) :
    Shorter n (ps.foldl setStr c).resourceName := by
  induction ps generalizing c with
  | nil => exact h
  | cons p ps ih =>
    exact ih (shorter_setStr h (hps p (by simp))) fun q hq => hps q (List.mem_cons_of_mem p hq)

theorem shorter_slice (path : RString) :
    Shorter path.length (.ofSlice (slice path 1 (-1))) := by
  cases path with
  | nil =>
    rw [slice_one_nil]
    exact Or.inl rfl
  | cons d path =>
    rw [slice_one_cons]
    exact Or.inr ⟨path, rfl, by simp⟩

theorem Shorter.mono {m n : ℕ} {v : Value} (h : Shorter m v) (hmn : m ≤ n) : Shorter n v :=
  h.imp_right fun ⟨r, hr, hlt⟩ => ⟨r, hr, lt_of_lt_of_le hlt hmn⟩

theorem shorter_atUri (hlib : lib.Decomposes) {uri : URI} (huri : lib.uri s = .ok uri) :
    Shorter s.length (fresh.atUri uri).resourceName := by
  rw [atUri]
  cases hpath : uri.path with
  | none => exact Or.inl rfl
  | some path => exact (shorter_slice path).mono (hlib.path s uri path huri hpath)

/-- **The streamid is not kept.** A string with a URI in it never becomes the resource name. -/
theorem parse_ne_plain (hlib : lib.Decomposes) (hheader : ¬ header <+: s)
    (hregexp : lib.regexp s = true) :
    parse lib s ≠ .ok { fresh with resourceName := .str s } := by
  intro h
  rw [parse_of_regexp hheader hregexp] at h
  cases huri : lib.uri s with
  | error e =>
    rw [huri] at h
    cases h
  | ok uri =>
    rw [huri] at h
    have hshort : Shorter s.length (.str s) := by
      rcases mergeUri_ok_iff.mp h with ⟨-, hc⟩ | ⟨query, form, hquery, hform, hc⟩
      · have hres : _ = Value.str s := (congrArg resourceName hc).symm
        rw [← hres]
        exact shorter_atUri hlib huri
      · have hres : _ = Value.str s := (congrArg resourceName hc).symm
        rw [← hres]
        refine shorter_foldl (shorter_atUri hlib huri) fun p hp => ?_
        exact lt_of_le_of_lt (hlib.value query form hform p (mem_of_mem_queryPairs hp))
          (hlib.query s uri query huri hquery)
    rcases hshort with hnil | ⟨r, hr, hlt⟩
    · cases hnil
    · obtain rfl := Value.str.inj hr
      exact absurd hlt (lt_irrefl _)

/-! ### The classification -/

/-- **Which streamids are classified.** Exactly the access-control streamids, the strings in which
no URI is found, and the URLs whose query can be decoded. -/
theorem classified_iff (hlib : lib.Decomposes) (s : RString) :
    Classified lib s ↔
      header <+: s ∨ lib.regexp s = false ∨ IsURL lib s ∧ QueryDecodes lib s := by
  by_cases hheader : header <+: s
  · have hparse := parse_of_header lib hheader
    exact iff_of_true ⟨⟨_, hparse⟩, fun hnot => absurd hheader hnot⟩ (Or.inl hheader)
  by_cases hregexp : lib.regexp s = false
  · have hparse := parse_of_not_regexp hheader hregexp
    exact iff_of_true ⟨⟨_, hparse⟩, fun _ _ => hparse⟩ (Or.inr (Or.inl hregexp))
  have htrue : lib.regexp s = true := by simpa using hregexp
  rw [Classified, exists_parse_iff hheader htrue]
  constructor
  · rintro ⟨⟨-, hdecodes⟩, hplain⟩
    have hurl : IsURL lib s := by
      by_contra hnot
      exact parse_ne_plain hlib hheader htrue (hplain hheader hnot)
    exact Or.inr (Or.inr ⟨hurl, hdecodes⟩)
  · rintro (h | h | ⟨hurl, hdecodes⟩)
    · exact absurd h hheader
    · exact absurd h hregexp
    · exact ⟨⟨hurl.2, hdecodes⟩, fun _ hnot => absurd hurl hnot⟩

/-- The URI library on three strings a peer can send: an opaque URI, a sentence with a URL in it and
a URL. -/
def peerURILib : URILib where
  regexp := fun s =>
    s ∈ ["live:camera".toList, "see srt://recce.nl/live".toList,
      "srt://recce.nl/live?u=admin".toList]
  uri := fun s =>
    if s = "live:camera".toList then .ok ⟨none, none, none⟩
    else if s = "srt://recce.nl/live?u=admin".toList then
      .ok ⟨some "recce.nl".toList, some "/live".toList, some "u=admin".toList⟩
    else .error .invalidURI
  decodeWwwForm := fun q =>
    if q = "u=admin".toList then .ok [("u".toList, "admin".toList)]
    else .error (.argument "invalid data of application/x-www-form-urlencoded")

theorem decomposes_peerURILib : peerURILib.Decomposes where
  path := by
    intro s uri path huri hpath
    simp only [peerURILib] at huri
    split at huri
    · obtain rfl := Except.ok.inj huri
      cases hpath
    · split at huri
      · next hs =>
        obtain rfl := Except.ok.inj huri
        obtain rfl := Option.some.inj hpath
        rw [hs]
        decide
      · cases huri
  query := by
    intro s uri query huri hquery
    simp only [peerURILib] at huri
    split at huri
    · obtain rfl := Except.ok.inj huri
      cases hquery
    · split at huri
      · next hs =>
        obtain rfl := Except.ok.inj huri
        obtain rfl := Option.some.inj hquery
        rw [hs]
        decide
      · cases huri
  value := by
    intro q form hform p hp
    simp only [peerURILib] at hform
    split at hform
    · next hq =>
      obtain rfl := Except.ok.inj hform
      obtain rfl := List.mem_singleton.mp hp
      rw [hq]
      decide
    · cases hform

theorem classified_url : Classified peerURILib "srt://recce.nl/live?u=admin".toList := by
  have hurl : IsURL peerURILib "srt://recce.nl/live?u=admin".toList :=
    ⟨⟨"srt".toList, "recce.nl/live?u=admin".toList, ⟨'s', "rt".toList, rfl, by decide,
      List.forall_mem_cons.mpr ⟨by decide, List.forall_mem_singleton.mpr (by decide)⟩⟩, by decide⟩,
      ⟨_, rfl⟩⟩
  refine (classified_iff decomposes_peerURILib _).mpr (Or.inr (Or.inr ⟨hurl, ?_⟩))
  intro uri query huri hquery
  obtain rfl : uri = ⟨some "recce.nl".toList, some "/live".toList, some "u=admin".toList⟩ :=
    (Except.ok.inj huri).symm
  obtain rfl := Option.some.inj hquery
  exact ⟨_, rfl⟩

/-- The sentence raises; the opaque URI leaves an object without a resource name. -/
theorem not_classified_peer :
    ¬ Classified peerURILib "see srt://recce.nl/live".toList ∧
      ¬ Classified peerURILib "live:camera".toList := by
  constructor
  · rintro ⟨⟨c, hc⟩, -⟩
    have hraise : parse peerURILib "see srt://recce.nl/live".toList = .error .invalidURI := by
      decide
    cases hc.symm.trans hraise
  · rintro ⟨-, hplain⟩
    have hlost : parse peerURILib "live:camera".toList = .ok fresh := by decide
    have hnot : ¬ IsURL peerURILib "live:camera".toList := by
      rintro ⟨⟨scheme, rest, -, hs⟩, -⟩
      have hslash : '/' ∈ "live:camera".toList := by
        rw [hs]
        simp
      exact absurd hslash (by decide)
    have hname := (hplain (by decide) hnot).symm.trans hlost
    exact absurd hname (by decide)

end StreamIDComponents

end Rbsrt
