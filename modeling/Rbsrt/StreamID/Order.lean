import Rbsrt.General.Slots
import Rbsrt.StreamID.Snapshot

/-!
# The order of pairs

A pair is meant for one place: a standard field, under any of its names, or a custom value under
its key. As long as no two pairs are meant for the same place, the order in which they are set
does not matter, although the host has a side effect on the resource.

## Places

A `Slot` is a standard field or a custom key, and `view` is what an object has there. Seen so,
setting a value acts slot by slot (`actsBySlot_setValue`), the custom values being a map rather
than a list. The host writes to two slots, and its path goes into the second one only if that is
still empty; `effect` says so in one line. The pairs that meet in a slot are then a host and a
resource, and these commute: whichever comes first, the resource stays.

## Main results

* `actsBySlot_setValue` — the object as slots
* `commuteBySlot_effect` — pairs for different slots commute
* `pair_order` — pairs in any order, merged as a string or as a hash
-/

namespace Rbsrt

open Backtrack Slots

namespace StreamIDComponents

variable {c : StreamIDComponents}

/-! ### Slots -/

/-- A standard field or a custom key. -/
abbrev Slot := Field ⊕ Key

/-- The slot a key is meant for. -/
def slot (k : Key) : Slot :=
  match Field.ofName k.toS with
  | some f => .inl f
  | none => .inr k

/-- What an object has in a slot. -/
def view (c : StreamIDComponents) : Slot → Option Value
  | .inl f => some (c.get f)
  | .inr k => c.extra.lookup k

/-- The host in a `host_name` value. -/
def hostOf (v : RString) : Value :=
  match index v '/' with
  | some sep => .ofSlice (slice v 0 ((sep : ℤ) - 1))
  | none => .str v

/-- The resource in a `host_name` value. -/
def pathOf (v : RString) : Value :=
  match index v '/' with
  | some sep => .ofSlice (slice v ((sep : ℤ) + 1) (-1))
  | none => .nil

/-- What a pair leaves in its own slot, where `x` was before. -/
def written (p : Key × Value) (x : Option Value) : Option Value :=
  match Field.ofName p.1.toS with
  | some .mode => if p.2.toS ∈ modes then some (.sym p.2.toS) else x
  | some .hostName => some (hostOf p.2.toS)
  | some .type => if p.2.toS ∈ types then some (.sym p.2.toS) else x
  | _ => some p.2

/-- What a pair leaves in a slot. -/
def effect (p : Key × Value) (i : Slot) (x : Option Value) : Option Value :=
  if i = slot p.1 then written p x
  else if slot p.1 = .inl .hostName ∧ i = .inl .resourceName ∧ x = some .nil then
    some (pathOf p.2.toS)
  else x

theorem splitHost_eq (c : StreamIDComponents) (v : RString) :
    c.splitHost v =
      { c with
        hostName := hostOf v
        resourceName := if c.resourceName.truthy then c.resourceName else pathOf v } := by
  rw [splitHost, hostOf, pathOf]
  cases index v '/' with
  | some sep => by_cases hr : c.resourceName.truthy <;> simp [hr]
  | none =>
    by_cases hr : c.resourceName.truthy
    · simp [hr]
    · have hnil : c.resourceName = .nil := Value.truthy_iff.not_left.mp hr
      simp [← hnil]

theorem slot_of_ofName {k : Key} {f : Field} (h : Field.ofName k.toS = some f) :
    slot k = .inl f := by rw [slot, h]

theorem slot_of_ofName_none {k : Key} (h : Field.ofName k.toS = none) : slot k = .inr k := by
  rw [slot, h]

theorem ofName_eq_some_iff {k : Key} {f : Field} :
    Field.ofName k.toS = some f ↔ slot k = .inl f := by
  rw [slot]
  cases Field.ofName k.toS <;> simp

/-- **Setting acts slot by slot.** -/
theorem actsBySlot_setValue : ActsBySlot view setValue effect := by
  intro c p i
  rw [setValue]
  cases hname : Field.ofName p.1.toS with
  | none =>
    rw [effect, slot_of_ofName_none hname]
    cases i with
    | inl f => simp [view, get]
    | inr k => simp [view, written, hname, OrderedHash.lookup_aset]
  | some f =>
    rw [effect, slot_of_ofName hname]
    cases f with
    | hostName =>
      simp only [splitHost_eq]
      cases i with
      | inr k => simp [view]
      | inl g =>
        cases g with
        | hostName => simp [view, get, written, hname]
        | resourceName =>
          by_cases hr : c.resourceName.truthy
          · simp [view, get, hr, Value.truthy_iff.mp hr]
          · simp [view, get, Value.truthy_iff.not_left.mp hr]
        | _ => simp [view, get]
    | mode =>
      cases i with
      | inr k => by_cases hm : p.2.toS ∈ modes <;> simp [view, hm]
      | inl g => cases g <;> by_cases hm : p.2.toS ∈ modes <;> simp [view, get, written, hname, hm]
    | type =>
      cases i with
      | inr k => by_cases ht : p.2.toS ∈ types <;> simp [view, ht]
      | inl g => cases g <;> by_cases ht : p.2.toS ∈ types <;> simp [view, get, written, hname, ht]
    | _ =>
      cases i with
      | inr k => simp [view]
      | inl g => cases g <;> simp [view, get, written, hname]

/-! ### The custom values -/

theorem extra_setValue_of_field {p : Key × Value} {f : Field}
    (h : Field.ofName p.1.toS = some f) : (c.setValue p).extra = c.extra := by
  rw [setValue, h]
  cases f with
  | mode => by_cases hm : p.2.toS ∈ modes <;> simp [hm]
  | hostName => simp [splitHost_eq]
  | type => by_cases ht : p.2.toS ∈ types <;> simp [ht]
  | _ => rfl

theorem extra_setValue_of_none {p : Key × Value}
    (h : Field.ofName p.1.toS = none) : (c.setValue p).extra = c.extra.aset p.1 p.2 := by
  rw [setValue, h]

/-! ### Two pairs -/

theorem effect_self (p : Key × Value) (x : Option Value) :
    effect p (slot p.1) x = written p x := by
  rw [effect, if_pos rfl]

theorem effect_of_ne {p : Key × Value} {i : Slot} (hi : i ≠ slot p.1)
    (hhost : ¬ (slot p.1 = .inl .hostName ∧ i = .inl .resourceName)) (x : Option Value) :
    effect p i x = x := by
  rw [effect, if_neg hi, if_neg fun h => hhost ⟨h.1, h.2.1⟩]

theorem effect_resource {p : Key × Value} (h : slot p.1 = .inl .resourceName) (x : Option Value) :
    effect p (.inl .resourceName) x = some p.2 := by
  rw [← h, effect_self, written, ofName_eq_some_iff.mpr h]

/-- A host gives its path to the resource only if there is none. -/
theorem effect_host_resource {p : Key × Value} (h : slot p.1 = .inl .hostName)
    (x : Option Value) :
    effect p (.inl .resourceName) x = if x = some .nil then some (pathOf p.2.toS) else x := by
  have hne : (.inl .resourceName : Slot) ≠ slot p.1 := by simp [h]
  rw [effect, if_neg hne]
  simp [h]

/-- Two pairs in the slot that the first is meant for. -/
theorem effect_comm_of_slot {p q : Key × Value} (hpq : slot p.1 ≠ slot q.1) (hp : p.2 ≠ .nil)
    (x : Option Value) :
    effect p (slot p.1) (effect q (slot p.1) x) = effect q (slot p.1) (effect p (slot p.1) x) := by
  by_cases hhost : slot q.1 = .inl .hostName ∧ slot p.1 = .inl .resourceName
  · obtain ⟨hq, hres⟩ := hhost
    rw [hres, effect_resource hres, effect_resource hres, effect_host_resource hq,
      if_neg (by simpa using hp)]
  · rw [effect_of_ne hpq hhost, effect_of_ne hpq hhost]

/-- **Pairs for different slots commute.** They meet only where one is a host and the other a
resource, and there the resource stays whichever comes first. -/
theorem commuteBySlot_effect {p q : Key × Value} (hpq : slot p.1 ≠ slot q.1) (hp : p.2 ≠ .nil)
    (hq : q.2 ≠ .nil) : CommuteBySlot effect p q := by
  intro i x
  by_cases hip : i = slot p.1
  · subst hip
    exact effect_comm_of_slot hpq hp x
  by_cases hiq : i = slot q.1
  · subst hiq
    exact (effect_comm_of_slot hpq.symm hq x).symm
  by_cases hhost : slot p.1 = .inl .hostName
  · have hother : ¬ (slot q.1 = .inl .hostName ∧ i = .inl .resourceName) := fun h =>
      hpq (hhost.trans h.1.symm)
    rw [effect_of_ne hiq hother, effect_of_ne hiq hother]
  · have hother : ¬ (slot p.1 = .inl .hostName ∧ i = .inl .resourceName) := fun h => hhost h.1
    rw [effect_of_ne hip hother, effect_of_ne hip hother]

theorem pairwise_commuteBySlot {es : List (Key × Value)}
    (hdist : (es.map fun e => slot e.1).Nodup) (hes : ∀ e ∈ es, e.2 ≠ .nil) :
    es.Pairwise (CommuteBySlot effect) := by
  have hne : es.Pairwise fun e f => slot e.1 ≠ slot f.1 := List.pairwise_map.mp hdist
  exact hne.imp_of_mem fun he hf hslot => commuteBySlot_effect hslot (hes _ he) (hes _ hf)

/-! ### Pairs as entries -/

/-- A pair as an entry, its name turned into a key. -/
def entry (key : RString → Key) (p : RString × RString) : Key × Value := (key p.1, .str p.2)

/-- The hash of a list of pairs. -/
def hashOf (key : RString → Key) (ps : List (RString × RString)) : OrderedHash Key Value :=
  .ofPairs (ps.map (entry key))

/-- Every name becomes a String or a Symbol of that name. -/
def IsNaming (key : RString → Key) : Prop := ∀ name, (key name).toS = name

theorem isNaming_str : IsNaming .str := fun _ => rfl

theorem isNaming_sym : IsNaming .sym := fun _ => rfl

/-- At most one pair for each field and each custom name. -/
def Distinct (ps : List (RString × RString)) : Prop := (ps.map fun p => slot (.str p.1)).Nodup

variable {key : RString → Key} {ps qs : List (RString × RString)}

/-- Names that turn into keys for one slot are for one slot as they stand. -/
theorem IsNaming.slot_inj (hkey : IsNaming key) {m n : RString} (h : slot (key m) = slot (key n)) :
    slot (.str m) = slot (.str n) := by
  have hname : Field.ofName m = Field.ofName n ∧ (Field.ofName m = none → m = n) := by
    rw [slot, slot, hkey m, hkey n] at h
    cases hm : Field.ofName m with
    | some f =>
      cases hn : Field.ofName n with
      | some g => simpa [hm, hn] using h
      | none => simp [hm, hn] at h
    | none =>
      cases hn : Field.ofName n with
      | some g => simp [hm, hn] at h
      | none =>
        have heq : key m = key n := by simpa [hm, hn] using h
        exact ⟨rfl, fun _ => by rw [← hkey m, ← hkey n, heq]⟩
  rw [slot, slot]
  change (match Field.ofName m with | some f => _ | none => _) =
    (match Field.ofName n with | some f => _ | none => _)
  rw [← hname.1]
  cases hm : Field.ofName m with
  | some f => rfl
  | none => rw [hname.2 hm]

theorem Distinct.slots (hkey : IsNaming key) (h : Distinct ps) :
    ((ps.map (entry key)).map fun e => slot e.1).Nodup := by
  rw [List.map_map]
  refine List.pairwise_map.mpr ((List.pairwise_map.mp h).imp ?_)
  intro p q hne heq
  exact hne (hkey.slot_inj heq)

theorem Distinct.perm (h : Distinct ps) (hperm : qs.Perm ps) : Distinct qs :=
  (hperm.map _).nodup_iff.mpr h

theorem Distinct.entries_hashOf (hkey : IsNaming key) (h : Distinct ps) :
    (hashOf key ps).entries = ps.map (entry key) := by
  refine OrderedHash.entries_ofPairs ?_
  refine List.Nodup.of_map slot ?_
  simpa [List.map_map, Function.comp_def] using h.slots hkey

theorem entry_ne_nil : ∀ e ∈ ps.map (entry key), e.2 ≠ .nil := by
  intro e he
  obtain ⟨p, -, rfl⟩ := List.mem_map.mp he
  simp [entry]

theorem Distinct.commute (hkey : IsNaming key) (h : Distinct ps) :
    (ps.map (entry key)).Pairwise (CommuteBySlot effect) :=
  pairwise_commuteBySlot (h.slots hkey) entry_ne_nil

/-! ### Merging pairs -/

theorem Distinct.mergeHash (hkey : IsNaming key) (h : Distinct ps) (c : StreamIDComponents) :
    c.mergeHash (hashOf key ps) = .ok ((ps.map (entry key)).foldl setValue c) := by
  have hset : ∀ e ∈ (hashOf key ps).entries, Settable e := by
    intro e he
    rw [h.entries_hashOf hkey] at he
    obtain ⟨p, -, rfl⟩ := List.mem_map.mp he
    exact fun _ => ⟨p.2, rfl⟩
  rw [mergeHash_eq hset, h.entries_hashOf hkey]

/-- Names that can be scanned and non-empty values without separators. -/
def Scannable (ps : List (RString × RString)) : Prop := ∀ p ∈ ps, IsKey p.1 ∧ IsPlain p.2

theorem Scannable.mergeStr (h : Scannable ps) (c : StreamIDComponents) :
    c.mergeStr (join ps) = .ok ((ps.map (entry .str)).foldl setValue c) := by
  have hscan : scan pairRegexp (join ps) = ps :=
    scan_join fun p hp => (h p hp).imp_right IsPlain.isVal
  rw [mergeStr_eq, hscan, foldl_setStr_eq]
  rfl

/-- The same standard fields, and the same custom values as a map. -/
def SameState (d e : StreamIDComponents) : Prop :=
  (∀ f, d.get f = e.get f) ∧ ∀ k, d.extra.lookup k = e.extra.lookup k

theorem sameState_of_view {d e : StreamIDComponents} (h : ∀ i, view d i = view e i) :
    SameState d e :=
  ⟨fun f => Option.some.inj (h (.inl f)), fun k => h (.inr k)⟩

/-- Setting the entries of a permuted list. -/
theorem Distinct.sameState (hkey : IsNaming key) (h : Distinct ps) (hperm : qs.Perm ps)
    (c : StreamIDComponents) :
    SameState ((qs.map (entry key)).foldl setValue c) ((ps.map (entry key)).foldl setValue c) :=
  sameState_of_view fun i =>
    actsBySlot_setValue.foldl_perm (hperm.map _) ((h.perm hperm).commute hkey) c i

/-- What a pair leaves in a standard field does not depend on the kind of its key. -/
theorem effect_entry_field (hkey : IsNaming key) (p : RString × RString) (f : Field)
    (x : Option Value) :
    effect (entry key p) (.inl f) x = effect (entry .str p) (.inl f) x := by
  have hstr : (Key.str p.1).toS = p.1 := rfl
  simp only [effect, written, slot, entry, hkey p.1, hstr]
  cases Field.ofName p.1 with
  | none => simp
  | some g => cases g <;> rfl

theorem get_foldl_entry (hkey : IsNaming key) (ps : List (RString × RString))
    (c : StreamIDComponents) (f : Field) :
    ((ps.map (entry key)).foldl setValue c).get f =
      ((ps.map (entry .str)).foldl setValue c).get f := by
  have hview : view ((ps.map (entry key)).foldl setValue c) (.inl f) =
      view ((ps.map (entry .str)).foldl setValue c) (.inl f) := by
    rw [actsBySlot_setValue.foldl, actsBySlot_setValue.foldl, List.foldl_map, List.foldl_map]
    exact congrArg (fun g => ps.foldl g _)
      (funext fun x => funext fun p => effect_entry_field hkey p f x)
  exact Option.some.inj hview

/-! ### The resource -/

/-- Where the resource comes from: a pair that names it; if there is none, what it was before;
and only if it was not set either, the path of a host. -/
structure ResourceRule (c : StreamIDComponents) (ps : List (RString × RString))
    (d : StreamIDComponents) : Prop where
  named : ∀ p ∈ ps, Field.ofName p.1 = some .resourceName → d.resourceName = .str p.2
  before : (∀ p ∈ ps, Field.ofName p.1 ≠ some .resourceName) → c.resourceName ≠ .nil →
    d.resourceName = c.resourceName
  path : (∀ p ∈ ps, Field.ofName p.1 ≠ some .resourceName) → c.resourceName = .nil →
    ∀ p ∈ ps, Field.ofName p.1 = some .hostName → d.resourceName = pathOf p.2
  absent : (∀ p ∈ ps, Field.ofName p.1 ≠ some .resourceName) → c.resourceName = .nil →
    (∀ p ∈ ps, Field.ofName p.1 ≠ some .hostName) → d.resourceName = .nil

theorem slot_entry_str {p : RString × RString} {f : Field} :
    slot (entry .str p).1 = .inl f ↔ Field.ofName p.1 = some f :=
  (ofName_eq_some_iff (k := .str p.1)).symm

/-- A pair that names neither the resource nor the host leaves the resource alone, and so does a
host that finds it set. -/
theorem effect_entry_resource {p : RString × RString} (hr : Field.ofName p.1 ≠ some .resourceName)
    {v : Value} (hv : Field.ofName p.1 = some .hostName → v ≠ .nil) :
    effect (entry .str p) (.inl .resourceName) (some v) = some v := by
  by_cases hh : Field.ofName p.1 = some .hostName
  · rw [effect_host_resource (slot_entry_str.mpr hh), if_neg (by simpa using hv hh)]
  · exact effect_of_ne (fun h => hr (slot_entry_str.mp h.symm))
      (fun h => hh (slot_entry_str.mp h.1)) _

theorem Distinct.resourceRule (h : Distinct ps) (c : StreamIDComponents) :
    ResourceRule c ps ((ps.map (entry .str)).foldl setValue c) := by
  have hcomm := h.commute isNaming_str
  have hview : ∀ v, (ps.map (entry .str)).foldl
      (fun x e => effect e (.inl .resourceName) x) (some c.resourceName) = some v →
        ((ps.map (entry .str)).foldl setValue c).resourceName = v := by
    intro v hv
    have hfold := actsBySlot_setValue.foldl (ps.map (entry .str)) c (.inl .resourceName)
    exact Option.some.inj (hfold.trans hv)
  have hstays : (∀ p ∈ ps, Field.ofName p.1 ≠ some .resourceName) →
      (∀ p ∈ ps, Field.ofName p.1 = some .hostName → c.resourceName ≠ .nil) →
        ((ps.map (entry .str)).foldl setValue c).resourceName = c.resourceName := by
    intro hr hh
    refine hview _ (foldl_act_eq_self fun e he => ?_)
    obtain ⟨p, hp, rfl⟩ := List.mem_map.mp he
    exact effect_entry_resource (hr p hp) (hh p hp)
  refine ⟨fun p hp hname => ?_, fun hr hc => hstays hr fun _ _ _ => hc, fun hr hc p hp hname => ?_,
    fun hr hc hh => (hstays hr fun p hp hname => absurd hname (hh p hp)).trans hc⟩
  · exact hview _ (foldl_of_mem_const (List.mem_map_of_mem hp) hcomm
      (effect_resource (slot_entry_str.mpr hname)) _)
  · -- the host is taken first, and the other pairs leave the resource alone
    obtain ⟨l, r, rfl⟩ := List.append_of_mem hp
    have hfirst : (l ++ p :: r).Perm (p :: (l ++ r)) := List.perm_middle
    have hother : ∀ q ∈ l ++ r, Field.ofName q.1 ≠ some .hostName := by
      intro q hq hq'
      have hnodup : Distinct (p :: (l ++ r)) := h.perm hfirst.symm
      refine (List.nodup_cons.mp hnodup).1 (List.mem_map.mpr ⟨q, hq, ?_⟩)
      exact (slot_of_ofName (k := .str q.1) hq').trans (slot_of_ofName (k := .str p.1) hname).symm
    refine hview _ ?_
    rw [foldl_act_perm (hfirst.map _) hcomm, List.map_cons, List.foldl_cons,
      effect_host_resource (slot_entry_str.mpr hname), if_pos (by rw [hc])]
    refine foldl_act_eq_self fun e he => ?_
    obtain ⟨q, hq, rfl⟩ := List.mem_map.mp he
    exact effect_entry_resource (hr q (hfirst.symm.subset (List.mem_cons_of_mem p hq)))
      fun hq' => absurd hq' (hother q hq)

/-- In whatever order the pairs are set, as a string or as a hash with String keys, they leave
the same fields and the same custom values as a map, and the resource follows its rule. A hash
with Symbols for some of the names leaves the same fields, and in every order the same custom
values. -/
def MergesInAnyOrder (c : StreamIDComponents) (ps : List (RString × RString)) : Prop :=
  ∃ d, ResourceRule c ps d ∧
    (∀ qs, qs.Perm ps →
      (∃ e, c.mergeStr (join qs) = .ok e ∧ SameState e d) ∧
        ∃ e, c.mergeHash (hashOf .str qs) = .ok e ∧ SameState e d) ∧
    ∀ key, IsNaming key → ∃ d', (∀ f, d'.get f = d.get f) ∧
      ∀ qs, qs.Perm ps → ∃ e, c.mergeHash (hashOf key qs) = .ok e ∧ SameState e d'

/-- **The order of pairs does not matter**, whatever object they are merged into. -/
theorem pair_order (c : StreamIDComponents) (hps : Scannable ps) (hdist : Distinct ps) :
    MergesInAnyOrder c ps := by
  refine ⟨_, hdist.resourceRule c, fun qs hperm => ⟨?_, ?_⟩, fun key hkey => ?_⟩
  · have hqs : Scannable qs := fun p hp => hps p (hperm.subset hp)
    exact ⟨_, hqs.mergeStr c, hdist.sameState isNaming_str hperm c⟩
  · exact ⟨_, (hdist.perm hperm).mergeHash isNaming_str c, hdist.sameState isNaming_str hperm c⟩
  · refine ⟨_, get_foldl_entry hkey ps c, fun qs hperm => ?_⟩
    exact ⟨_, (hdist.perm hperm).mergeHash hkey c, hdist.sameState hkey hperm c⟩

instance (ps : List (RString × RString)) : Decidable (Scannable ps) :=
  inferInstanceAs (Decidable (∀ p ∈ ps, _ ∧ _))

instance (ps : List (RString × RString)) : Decidable (Distinct ps) :=
  inferInstanceAs (Decidable (List.Nodup _))

/-- A host with a path, a resource and a custom value. -/
theorem pair_order_host :
    MergesInAnyOrder fresh [("h".toList, "stream.recce.nl/my/movie.ts".toList),
      ("r".toList, "foo".toList), ("baz".toList, "bar".toList)] :=
  pair_order fresh (by decide) (by decide)

end StreamIDComponents

end Rbsrt
