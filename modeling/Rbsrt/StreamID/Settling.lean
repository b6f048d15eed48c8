import Rbsrt.StreamID.Recompile

/-!
# Compiling and parsing over and over

An access-control streamid may name a host with nothing behind its slash, and then the resource is
the empty string. Compiled, that is `r=,m=...`, and the regexp takes the comma for the first
character of a value, and with it the mode for a part of the resource. So the object that is parsed
next is another one, with a mode that may have fallen back to its default.

That happens once. What has been compiled and parsed again has a resource that is not empty, and
stays as it is from then on. In particular whoever forwards a streamid by parsing and compiling it
changes it no more than the first to do so.

## Main results

* `StreamIDComponents.resourceName_ne_of_parse_toS` — the second parsing leaves no resource empty
* `StreamIDComponents.settles` — after it nothing changes
-/

namespace Rbsrt

open Backtrack

namespace StreamIDComponents

variable {c d : StreamIDComponents} {lib : URILib} {s : RString}

theorem pairs_of_mem_scan {s : RString} : ∀ p ∈ scan pairRegexp s, IsKey p.1 ∧ IsVal p.2 :=
  fun _ hp => ⟨isKey_of_mem_scan hp, isVal_of_mem_scan hp⟩

theorem readable_of_parse (hs : header <+: s) (hc : parse lib s = .ok c) : Readable c := by
  rw [parse_of_header lib hs] at hc
  obtain rfl := Except.ok.inj hc
  exact readable_foldl readable_fresh pairs_of_mem_scan

/-- What a streamid with the header is parsed into has a host name, or none, but not an empty
one. -/
theorem hostName_ne_of_parse (hs : header <+: s) (hc : parse lib s = .ok c) :
    c.hostName ≠ .str [] := by
  rw [parse_of_header lib hs] at hc
  obtain rfl := Except.ok.inj hc
  intro hempty
  rw [foldl_setStr_hostName fun p hp => (pairs_of_mem_scan p hp).2] at hempty
  exact absurd hempty.2 (by decide)

/-- **The second parsing leaves no resource empty.** Either the first has not, and then nothing has
changed, or the comma has got into it. -/
theorem resourceName_ne_of_parse_toS (hs : header <+: s) (hc : parse lib s = .ok c)
    (hd : parse lib c.toS = .ok d) : d.resourceName ≠ .str [] := by
  have hreadable := readable_of_parse hs hc
  by_cases hempty : c.resourceName = .str []
  · rw [parse_toS] at hd
    obtain rfl := Except.ok.inj hd
    intro hstill
    rw [foldl_setStr_resourceName fun p hp => (pairs_of_mem_scan p hp).2] at hstill
    exact hstill.1 (namesResource_of_empty_resource hreadable hempty)
  · have hsame := (hreadable.parse_toS_iff lib).mpr ⟨hempty, hostName_ne_of_parse hs hc⟩
    obtain rfl := Except.ok.inj (hd.symm.trans hsame)
    exact hempty

/-- **Settling.** A streamid with the header is parsed, compiled and parsed again; what results is
parsed and compiled into itself. -/
theorem settles (lib : URILib) (hs : header <+: s) :
    ∃ c d, parse lib s = .ok c ∧ parse lib c.toS = .ok d ∧ parse lib d.toS = .ok d := by
  have hc := parse_of_header lib hs
  have hd := parse_toS lib ((scan pairRegexp s).foldl setStr fresh)
  have hheader := List.prefix_append header (join ((scan pairRegexp s).foldl setStr fresh).pairs)
  refine ⟨_, _, hc, hd, ((readable_of_parse hheader hd).parse_toS_iff lib).mpr ⟨?_, ?_⟩⟩
  · exact resourceName_ne_of_parse_toS hs hc hd
  · exact hostName_ne_of_parse hheader hd

/-- A host with a slash at its end, and a mode that gets lost on the way. -/
theorem settles_slash :
    ∃ c d, parse noURILib "#!::h=recce.nl/,m=publish".toList = .ok c ∧
      parse noURILib c.toS = .ok d ∧ parse noURILib d.toS = .ok d :=
  settles noURILib ⟨"h=recce.nl/,m=publish".toList, rfl⟩

end StreamIDComponents

end Rbsrt
