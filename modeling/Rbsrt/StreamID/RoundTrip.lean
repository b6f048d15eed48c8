import Rbsrt.StreamID.Merge

/-!
# Compiling and parsing back

A components object whose texts can stand between two commas is recovered from its compiled
form.

Three things can go wrong with an object in general, and they are kept apart. Its texts may not
survive the scan (`Compilable`); its values may not be of the kinds parsing produces (`Typed`);
and its host may be split on the way back (`HostStays`). The first decides what is scanned, the
other two what the scanned pairs are stored as.

## Main results

* `parse_toS_of_compilable` — what parsing a compiled object gives, whatever its values
* `parse_toS_of_wellFormed` — the round trip
-/

namespace Rbsrt

instance (k : RString) : Decidable (IsKey k) :=
  decidable_of_iff (k ≠ [] ∧ k.all isKeyChar) (and_congr_right fun _ => List.all_eq_true)

namespace StreamIDComponents

variable {c : StreamIDComponents}

/-! ### Objects whose compiled form is scanned into its own pairs -/

/-- Every text is one the scanner can match, and every custom value has a custom name. -/
structure Compilable (c : StreamIDComponents) : Prop where
  field : ∀ f, c.get f ≠ .nil → IsVal (c.get f).toS
  extra : ∀ e ∈ c.extra.entries, IsKey e.1.toS ∧ Field.ofName e.1.toS = none ∧ IsVal e.2.toS

theorem mem_emit {name : RString} {v : Value} {p : RString × RString} :
    p ∈ emit name v ↔ v ≠ .nil ∧ p = (name, v.toS) := by
  rw [emit]
  split
  · next h => simp [Value.truthy_iff.mp h]
  · next h => simp [Value.truthy_iff.not_left.mp h]

/-- What has to be asked of an object for its pairs to be scanned. -/
theorem isKey_isVal_of_mem_pairs (hfield : ∀ f, c.get f ≠ .nil → IsVal (c.get f).toS)
    (hextra : ∀ e ∈ c.extra.entries, IsKey e.1.toS ∧ IsVal e.2.toS) :
    ∀ p ∈ c.pairs, IsKey p.1 ∧ IsVal p.2 := by
  have hemit : ∀ (name : RString) (f : Field), IsKey name →
      ∀ p ∈ emit name (c.get f), IsKey p.1 ∧ IsVal p.2 := by
    intro name f hname p hp
    obtain ⟨hf, rfl⟩ := mem_emit.mp hp
    exact ⟨hname, hfield f hf⟩
  intro p hp
  simp only [StreamIDComponents.pairs, List.mem_append, List.mem_map] at hp
  rcases hp with (((((hp | hp) | hp) | hp) | hp) | hp) | ⟨e, he, rfl⟩
  · exact hemit _ .resourceName (by decide) p hp
  · exact hemit _ .userName (by decide) p hp
  · exact hemit _ .mode (by decide) p hp
  · exact hemit _ .hostName (by decide) p hp
  · exact hemit _ .type (by decide) p hp
  · exact hemit _ .sessionid (by decide) p hp
  · exact hextra e he

theorem Compilable.pairs (h : Compilable c) : ∀ p ∈ c.pairs, IsKey p.1 ∧ IsVal p.2 :=
  isKey_isVal_of_mem_pairs h.field fun e he => ⟨(h.extra e he).1, (h.extra e he).2.2⟩

/-- **Parsing a compiled object.** -/
theorem parse_toS_of_compilable (lib : URILib) (h : Compilable c) (hhost : c.HostStays) :
    parse lib c.toS = .ok c.reread := by
  rw [parse_toS, scan_toS h.pairs, foldl_setStr_pairs hhost fun e he => (h.extra e he).2.1]

/-! ### Objects that are what they are read back as -/

/-- Texts are Strings, mode and type are Symbols from their lists, custom values are Strings
under String keys. -/
structure Typed (c : StreamIDComponents) : Prop where
  resourceName : c.resourceName = .nil ∨ ∃ s, c.resourceName = .str s
  userName : c.userName = .nil ∨ ∃ s, c.userName = .str s
  mode : ∃ m ∈ modes, c.mode = .sym m
  hostName : c.hostName = .nil ∨ ∃ s, c.hostName = .str s
  type : ∃ t ∈ types, c.type = .sym t
  sessionid : c.sessionid = .nil ∨ ∃ s, c.sessionid = .str s
  extra : ∀ e ∈ c.extra.entries, ∃ k v, e = (.str k, .str v)

theorem rereadText_eq_self {v : Value} (h : v = .nil ∨ ∃ s, v = .str s) : rereadText v = v := by
  rcases h with rfl | ⟨s, rfl⟩ <;> rfl

theorem rereadChoice_eq_self {choices : List RString} {default v : Value}
    (h : ∃ m ∈ choices, v = .sym m) : rereadChoice choices default v = v := by
  obtain ⟨m, hm, rfl⟩ := h
  simp [rereadChoice, hm]

theorem rereadExtra_eq_self {h : OrderedHash Key Value}
    (hes : ∀ e ∈ h.entries, ∃ k v, e = (Key.str k, Value.str v)) : rereadExtra h = h := by
  have hid : ∀ e ∈ h.entries, (Key.str e.1.toS, Value.str e.2.toS) = e := by
    intro e he
    obtain ⟨k, v, rfl⟩ := hes e he
    rfl
  rw [rereadExtra, List.map_congr_left hid, List.map_id', OrderedHash.ofPairs_entries]

theorem Typed.reread (h : Typed c) : c.reread = c := by
  rw [StreamIDComponents.reread, rereadText_eq_self h.resourceName,
    rereadText_eq_self h.userName, rereadChoice_eq_self h.mode, rereadText_eq_self h.hostName,
    rereadChoice_eq_self h.type, rereadText_eq_self h.sessionid, rereadExtra_eq_self h.extra]

/-! ### The round trip -/

/-- A text that holds neither separator. -/
def IsPlain (s : RString) : Prop := s ≠ [] ∧ ',' ∉ s ∧ '\n' ∉ s

theorem IsPlain.isVal {s : RString} (h : IsPlain s) : IsVal s := .of_not_mem h.1 h.2.1 h.2.2

instance (s : RString) : Decidable (IsPlain s) := inferInstanceAs (Decidable (_ ∧ _ ∧ _))

/-- The objects that can be expressed as a streamid. -/
structure WellFormed (c : StreamIDComponents) : Prop where
  resourceName : c.resourceName = .nil ∨ ∃ s, c.resourceName = .str s ∧ IsPlain s
  userName : c.userName = .nil ∨ ∃ s, c.userName = .str s ∧ IsPlain s
  mode : ∃ m ∈ modes, c.mode = .sym m
  hostName : c.hostName = .nil ∨ ∃ s, c.hostName = .str s ∧ IsPlain s ∧ '/' ∉ s
  type : ∃ t ∈ types, c.type = .sym t
  sessionid : c.sessionid = .nil ∨ ∃ s, c.sessionid = .str s ∧ IsPlain s
  extra : ∀ e ∈ c.extra.entries,
    ∃ k v, e = (.str k, .str v) ∧ IsKey k ∧ k ∉ reservedNames ∧ IsPlain v

theorem WellFormed.typed (h : WellFormed c) : Typed c where
  resourceName := h.resourceName.imp_right fun ⟨s, hs, _⟩ => ⟨s, hs⟩
  userName := h.userName.imp_right fun ⟨s, hs, _⟩ => ⟨s, hs⟩
  mode := h.mode
  hostName := h.hostName.imp_right fun ⟨s, hs, _⟩ => ⟨s, hs⟩
  type := h.type
  sessionid := h.sessionid.imp_right fun ⟨s, hs, _⟩ => ⟨s, hs⟩
  extra := fun e he => by
    obtain ⟨k, v, rfl, -⟩ := h.extra e he
    exact ⟨k, v, rfl⟩

theorem isVal_of_mem_modes {m : RString} (h : m ∈ modes) : IsVal m := by
  have hplain : ∀ m ∈ modes, IsPlain m := by decide
  exact (hplain m h).isVal

theorem isVal_of_mem_types {t : RString} (h : t ∈ types) : IsVal t := by
  have hplain : ∀ t ∈ types, IsPlain t := by decide
  exact (hplain t h).isVal

theorem WellFormed.compilable (h : WellFormed c) : Compilable c where
  field := by
    have htext : ∀ v : Value, (v = .nil ∨ ∃ s, v = .str s ∧ IsPlain s) → v ≠ .nil →
        IsVal v.toS := by
      rintro v (rfl | ⟨s, rfl, hs⟩) hv
      · exact absurd rfl hv
      · exact hs.isVal
    intro f hf
    cases f with
    | resourceName => exact htext _ h.resourceName hf
    | userName => exact htext _ h.userName hf
    | mode =>
      obtain ⟨m, hm, hmode⟩ := h.mode
      simpa [get, hmode] using isVal_of_mem_modes hm
    | hostName =>
      exact htext _ (h.hostName.imp_right fun ⟨s, hs, hplain, _⟩ => ⟨s, hs, hplain⟩) hf
    | type =>
      obtain ⟨t, ht, htype⟩ := h.type
      simpa [get, htype] using isVal_of_mem_types ht
    | sessionid => exact htext _ h.sessionid hf
  extra := fun e he => by
    obtain ⟨k, v, rfl, hk, hres, hv⟩ := h.extra e he
    exact ⟨hk, Field.ofName_eq_none_iff.mpr hres, hv.isVal⟩

theorem WellFormed.hostStays (h : WellFormed c) : c.HostStays := by
  left
  rcases h.hostName with hnil | ⟨s, hs, -, hslash⟩
  · simp [hnil]
  · simpa [hs] using hslash

/-- **The round trip.** A well-formed object is what its compiled form is parsed into: the same
standard fields, and the same custom values in the same order. -/
theorem parse_toS_of_wellFormed (lib : URILib) (h : WellFormed c) :
    parse lib c.toS = .ok c := by
  rw [parse_toS_of_compilable lib h.compilable h.hostStays, h.typed.reread]

/-- A URI library that is never reached: access-control streamids do not need one. -/
def noURILib : URILib where
  regexp := fun _ => false
  uri := fun _ => .error .invalidURI
  decodeWwwForm := fun _ => .error .invalidURI

/-- An object with all fields set and one custom value. -/
def fullComponents : StreamIDComponents where
  resourceName := .str "myresource".toList
  userName := .str "emma".toList
  mode := .sym "publish".toList
  hostName := .str "stream2.recce.nl".toList
  type := .sym "file".toList
  sessionid := .str "bcde".toList
  extra := .ofPairs [(.str "baz".toList, .str "bar".toList)]

theorem parse_toS_fullComponents :
    parse noURILib fullComponents.toS = .ok fullComponents :=
  parse_toS_of_wellFormed noURILib
    { resourceName := Or.inr ⟨_, rfl, by decide⟩
      userName := Or.inr ⟨_, rfl, by decide⟩
      mode := ⟨"publish".toList, by decide, rfl⟩
      hostName := Or.inr ⟨_, rfl, by decide, by decide⟩
      type := ⟨"file".toList, by decide, rfl⟩
      sessionid := Or.inr ⟨_, rfl, by decide⟩
      extra := fun e he => by
        have he : e ∈ [(Key.str "baz".toList, Value.str "bar".toList)] := he
        obtain rfl := List.mem_singleton.mp he
        exact ⟨_, _, rfl, by decide, by decide, by decide⟩ }

end StreamIDComponents

end Rbsrt
