import Rbsrt.StreamID.Operations
import Rbsrt.StreamID.Routes

/-!
# No key twice

`to_s` emits the six standard fields under their short names and then the custom values under
theirs. A streamid that names a field twice is read back with the later value, so no two of the
emitted keys should mean the same.

Two things bring that about. The writers of `method_missing` do not know the names that `set`
reserves, so `obj.r = val` stores a custom value called `r` beside the resource name. And custom
values are stored under the key they came with, so a String and a Symbol of the same name are two
keys. An object in which neither has happened emits every key once, and `EmitsOnce.step_iff` says
for every single assignment whether it is one that does it.

## Main results

* `emitsOnce_iff` — the property in terms of the custom keys
* `EmitsOnce.step_iff`, `EmitsOnce.steps_iff` — which assignments keep it
* `emitsOnce_new_iff` — which constructor calls establish it
* `emitsOnce_run` — runs of operations
-/

namespace Rbsrt

open Backtrack Runs

/-- What an emitted key means: a standard field, by any of its names, or a custom name. -/
def meaning (name : RString) : Field ⊕ RString :=
  match Field.ofName name with
  | some f => .inl f
  | none => .inr name

theorem meaning_eq_inl_iff {name : RString} {f : Field} :
    meaning name = .inl f ↔ Field.ofName name = some f := by
  rw [meaning]
  cases Field.ofName name <;> simp

theorem meaning_of_none {name : RString} (h : Field.ofName name = none) :
    meaning name = .inr name := by rw [meaning, h]

namespace StreamIDComponents

variable {c d : StreamIDComponents}

/-- No two of the keys that `to_s` emits mean the same. -/
def EmitsOnce (c : StreamIDComponents) : Prop := (c.pairs.map fun p => meaning p.1).Nodup

instance (c : StreamIDComponents) : Decidable c.EmitsOnce :=
  inferInstanceAs (Decidable (List.Nodup _))

/-- A custom value goes by a name of this field. -/
def Names (c : StreamIDComponents) (f : Field) : Prop :=
  ∃ k ∈ c.extra.keys, Field.ofName k.toS = some f

instance (c : StreamIDComponents) (f : Field) : Decidable (c.Names f) :=
  inferInstanceAs (Decidable (∃ k ∈ c.extra.keys, Field.ofName k.toS = some f))

/-! ### The emitted keys -/

/-- The standard fields that are emitted, in order. -/
def fieldsEmitted (c : StreamIDComponents) : List Field :=
  [.resourceName, .userName, .mode, .hostName, .type, .sessionid].filter fun f => (c.get f).truthy

theorem mem_fieldsEmitted {f : Field} : f ∈ c.fieldsEmitted ↔ c.get f ≠ .nil := by
  rw [fieldsEmitted, List.mem_filter, Value.truthy_iff]
  cases f <;> simp

theorem meanings_emit (name : RString) (v : Value) :
    (emit name v).map (fun p => meaning p.1) = if v.truthy then [meaning name] else [] := by
  rw [emit]
  split <;> rfl

theorem meanings_pairs (c : StreamIDComponents) :
    c.pairs.map (fun p => meaning p.1) =
      c.fieldsEmitted.map Sum.inl ++ c.extra.keys.map fun k => meaning k.toS := by
  have hextra : (c.extra.entries.map fun e => (e.1.toS, e.2.toS)).map (fun p => meaning p.1) =
      c.extra.keys.map fun k => meaning k.toS := by
    rw [OrderedHash.keys, List.map_map, List.map_map]
    rfl
  rw [pairs]
  simp only [List.map_append, meanings_emit, hextra]
  congr 1
  simp only [fieldsEmitted, List.filter_cons, List.filter_nil, get]
  cases c.resourceName.truthy <;> cases c.userName.truthy <;> cases c.mode.truthy <;>
    cases c.hostName.truthy <;> cases c.type.truthy <;> cases c.sessionid.truthy <;> rfl

theorem nodup_fieldsEmitted (c : StreamIDComponents) :
    (c.fieldsEmitted.map (Sum.inl (β := RString))).Nodup :=
  (List.Nodup.filter _ (by decide)).map fun _ _ h => Sum.inl.inj h

/-- **What it takes to emit every key once.** The custom names are different, and none of them is
a name of a field that is set. -/
theorem emitsOnce_iff :
    c.EmitsOnce ↔ (c.extra.keys.map fun k => meaning k.toS).Nodup ∧
      ∀ f, c.get f ≠ .nil → ¬ c.Names f := by
  rw [EmitsOnce, meanings_pairs, List.nodup_append]
  constructor
  · rintro ⟨-, hextra, hdisjoint⟩
    refine ⟨hextra, fun f hf ⟨k, hk, hname⟩ => ?_⟩
    exact hdisjoint _ (List.mem_map_of_mem (mem_fieldsEmitted.mpr hf)) _
      (List.mem_map_of_mem hk) (meaning_eq_inl_iff.mpr hname).symm
  · rintro ⟨hextra, hnames⟩
    refine ⟨nodup_fieldsEmitted c, hextra, fun x hx y hy hxy => ?_⟩
    obtain ⟨f, hf, rfl⟩ := List.mem_map.mp hx
    obtain ⟨k, hk, rfl⟩ := List.mem_map.mp hy
    exact hnames f (mem_fieldsEmitted.mp hf) ⟨k, hk, meaning_eq_inl_iff.mp hxy.symm⟩

/-! ### Changing fields -/

theorem names_congr (h : d.extra = c.extra) (f : Field) : d.Names f ↔ c.Names f := by
  rw [Names, Names, h]

theorem EmitsOnce.of_extra (hc : c.EmitsOnce) (h : d.extra = c.extra) :
    d.EmitsOnce ↔ ∀ f, d.get f ≠ .nil → ¬ c.Names f := by
  rw [emitsOnce_iff, h]
  simp only [names_congr h, (emitsOnce_iff.mp hc).1, true_and]

/-- One field changed. -/
theorem EmitsOnce.of_field (hc : c.EmitsOnce) (h : d.extra = c.extra) {f : Field}
    (hget : ∀ g ≠ f, d.get g = c.get g) :
    d.EmitsOnce ↔ (d.get f ≠ .nil → ¬ c.Names f) := by
  rw [hc.of_extra h]
  refine ⟨fun hd => hd f, fun hd g hg => ?_⟩
  by_cases hgf : g = f
  · exact hgf ▸ hd (hgf ▸ hg)
  · exact (emitsOnce_iff.mp hc).2 g (hget g hgf ▸ hg)

/-- **A field** may be set unless a custom value goes by one of its names. -/
theorem EmitsOnce.attrWriter_iff (hc : c.EmitsOnce) (f : Field) (v : Value) :
    (c.attrWriter f v).EmitsOnce ↔ (v ≠ .nil → ¬ c.Names f) := by
  rw [hc.of_field (extra_attrWriter c f v) fun g hg => get_attrWriter_of_ne hg v,
    get_attrWriter_self]

/-- A host is set, and with it a resource if it has a path and there is none. -/
def HostFits (c : StreamIDComponents) (v : RString) : Prop :=
  ¬ c.Names .hostName ∧ ('/' ∈ v → c.resourceName = .nil → ¬ c.Names .resourceName)

theorem EmitsOnce.splitHost_iff (hc : c.EmitsOnce) (v : RString) :
    (c.splitHost v).EmitsOnce ↔ c.HostFits v := by
  rw [HostFits]
  rcases exists_cut v '/' with hslash | ⟨a, b, rfl, ha⟩
  · have hwriter : c.splitHost v = c.attrWriter .hostName (.str v) := splitHost_of_not_mem hslash
    rw [hwriter, hc.attrWriter_iff]
    simp [hslash]
  · by_cases hr : c.resourceName = .nil
    · rw [hc.of_extra (by rw [splitHost_append ha])]
      have hmem : '/' ∈ a ++ '/' :: b := by simp
      simp only [splitHost_append ha, hr, hmem, Value.truthy_nil, true_implies]
      constructor
      · intro hd
        exact ⟨hd .hostName (by simp [get]), hd .resourceName (by simp [get])⟩
      · rintro ⟨hhost, hres⟩ f hf
        cases f with
        | hostName => exact hhost
        | resourceName => exact hres
        | userName => exact (emitsOnce_iff.mp hc).2 .userName hf
        | mode => exact (emitsOnce_iff.mp hc).2 .mode hf
        | type => exact (emitsOnce_iff.mp hc).2 .type hf
        | sessionid => exact (emitsOnce_iff.mp hc).2 .sessionid hf
    · have hwriter : c.splitHost (a ++ '/' :: b) =
          c.attrWriter .hostName (.str (if a = [] then '/' :: b else a)) := by
        rw [splitHost_append ha, if_pos (Value.truthy_iff.mpr hr)]
        rfl
      rw [hwriter, hc.attrWriter_iff]
      simp [hr]

/-! ### Storing custom values -/

/-- The key is there already, or nothing of its meaning is emitted. -/
def KeyFits (c : StreamIDComponents) (k : Key) : Prop :=
  k ∈ c.extra.keys ∨ ∀ p ∈ c.pairs, meaning p.1 ≠ meaning k.toS

instance (c : StreamIDComponents) (k : Key) : Decidable (c.KeyFits k) :=
  inferInstanceAs (Decidable (_ ∨ ∀ p ∈ c.pairs, meaning p.1 ≠ meaning k.toS))

theorem emitsOnce_aset_iff (hc : c.EmitsOnce) (k : Key) (v : Value) :
    ({ c with extra := c.extra.aset k v } : StreamIDComponents).EmitsOnce ↔ c.KeyFits k := by
  have hfields : ({ c with extra := c.extra.aset k v } : StreamIDComponents).fieldsEmitted =
      c.fieldsEmitted := rfl
  rw [EmitsOnce, meanings_pairs, hfields, KeyFits]
  show (_ ++ (c.extra.aset k v).keys.map _).Nodup ↔ _
  rw [OrderedHash.keys_aset]
  by_cases hk : k ∈ c.extra.keys
  · rw [if_pos hk, ← meanings_pairs]
    exact iff_of_true hc (Or.inl hk)
  · have hold : (∀ p ∈ c.pairs, meaning p.1 ≠ meaning k.toS) ↔
        meaning k.toS ∉ c.pairs.map fun p => meaning p.1 := by
      simp only [List.mem_map, not_exists, not_and]
    rw [if_neg hk, List.map_append, ← List.append_assoc, ← meanings_pairs, hold, List.map_singleton,
      List.nodup_append_comm, List.singleton_append, List.nodup_cons]
    simp only [hk, false_or]
    exact and_iff_left hc

/-! ### Single assignments -/

/-- What a pair may be set on: a field that gets a value has no custom value under its names, and
a custom value has a new meaning or its old key. -/
def SetFits (c : StreamIDComponents) (p : Key × Value) : Prop :=
  match Field.ofName p.1.toS with
  | some .mode => p.2.toS ∈ modes → ¬ c.Names .mode
  | some .hostName => c.HostFits p.2.toS
  | some .type => p.2.toS ∈ types → ¬ c.Names .type
  | some f => p.2 ≠ .nil → ¬ c.Names f
  | none => c.KeyFits p.1

theorem EmitsOnce.setValue_iff (hc : c.EmitsOnce) (p : Key × Value) :
    (c.setValue p).EmitsOnce ↔ c.SetFits p := by
  rw [StreamIDComponents.setValue, SetFits]
  rcases Field.ofName p.1.toS with _ | f
  · exact emitsOnce_aset_iff hc p.1 p.2
  · cases f with
    | resourceName => exact hc.attrWriter_iff .resourceName p.2
    | userName => exact hc.attrWriter_iff .userName p.2
    | mode =>
      by_cases hm : p.2.toS ∈ modes
      · simpa [hm, attrWriter] using hc.attrWriter_iff .mode (.sym p.2.toS)
      · simpa [hm] using hc
    | hostName => exact hc.splitHost_iff p.2.toS
    | type =>
      by_cases ht : p.2.toS ∈ types
      · simpa [ht, attrWriter] using hc.attrWriter_iff .type (.sym p.2.toS)
      · simpa [ht] using hc
    | sessionid => exact hc.attrWriter_iff .sessionid p.2

/-- What a writer may be called on: an accessor as `set`, and `method_missing` if it does not
store, or stores under a key with a new meaning or its old key. -/
def WriteFits (c : StreamIDComponents) (name : RString) (val : Value) : Prop :=
  match accessors.lookup name with
  | some f => val ≠ .nil → ¬ c.Names f
  | none => name ∈ comparisons ∨ Key.str (name ++ ['=']) ∈ c.extra.keys ∨
      (matchName (name ++ ['='])).2 = false ∨ c.KeyFits (.str (matchName (name ++ ['='])).1)

theorem EmitsOnce.write_iff (hc : c.EmitsOnce) (name : RString) (val : Value) :
    (c.write name val).EmitsOnce ↔ c.WriteFits name val := by
  rw [write, WriteFits]
  rcases accessors.lookup name with _ | f
  · by_cases hcmp : name ∈ comparisons
    · simpa [hcmp] using hc
    · simp only [hcmp, if_false, false_or, methodMissing_writer]
      by_cases hkey : Key.str (name ++ ['=']) ∈ c.extra.keys
      · simpa [hkey] using hc
      · by_cases hm : (matchName (name ++ ['='])).2
        · simpa [hkey, hm] using emitsOnce_aset_iff hc _ val
        · simpa [hkey, hm] using hc
  · exact hc.attrWriter_iff f val

/-- The condition on an assignment. -/
def StepFits (c : StreamIDComponents) : Step → Prop
  | .set p => c.SetFits p
  | .write name val => c.WriteFits name val

/-- **One assignment.** -/
theorem EmitsOnce.step_iff (hc : c.EmitsOnce) (s : Step) :
    (c.step s).EmitsOnce ↔ c.StepFits s := by
  cases s with
  | set p => exact hc.setValue_iff p
  | write name val => exact hc.write_iff name val

/-- **A sequence of assignments** leaves only objects that emit every key once exactly if each of
them fits. -/
theorem EmitsOnce.steps_iff (hc : c.EmitsOnce) (ss : List Step) :
    (∀ t ∈ states step c ss, t.EmitsOnce) ↔ Along step StepFits c ss :=
  forall_mem_states_iff (I := EmitsOnce) (A := fun _ _ => True)
    (fun _ s ht _ hfits => (ht.step_iff s).mpr hfits) (fun _ s ht _ => ht.step_iff s) hc
    (along_const.mpr fun _ _ => trivial)

/-! ### The constructor -/

/-- No custom name occurs under two keys, once as a String and once as a Symbol. -/
def Arg.NamesOnce : Arg → Prop
  | .hash h => ∀ k ∈ h.keys, ∀ k' ∈ h.keys, Field.ofName k.toS = none → k.toS = k'.toS → k = k'
  | .value _ => True

/-- The custom values of an object are the pairs set under custom names. -/
theorem mem_keys_foldl_setValue {ps : List (Key × Value)} {k : Key} :
    k ∈ (ps.foldl StreamIDComponents.setValue c).extra.keys ↔
      k ∈ c.extra.keys ∨ k ∈ ps.map Prod.fst ∧ Field.ofName k.toS = none := by
  induction ps generalizing c with
  | nil => simp
  | cons p ps ih =>
    rw [List.foldl_cons, ih, List.map_cons, List.mem_cons]
    rcases hname : Field.ofName p.1.toS with _ | f
    · rw [extra_setValue_of_none hname, OrderedHash.mem_keys_aset]
      constructor
      · rintro ((rfl | h) | h)
        exacts [Or.inr ⟨Or.inl rfl, hname⟩, Or.inl h, Or.inr ⟨Or.inr h.1, h.2⟩]
      · rintro (h | ⟨rfl | h, hk⟩)
        exacts [Or.inl (Or.inr h), Or.inl (Or.inl rfl), Or.inr ⟨h, hk⟩]
    · rw [extra_setValue_of_field hname]
      have hne : k = p.1 → Field.ofName k.toS ≠ none := by
        rintro rfl
        simp [hname]
      constructor
      · rintro (h | h)
        exacts [Or.inl h, Or.inr ⟨Or.inr h.1, h.2⟩]
      · rintro (h | ⟨h | h, hk⟩)
        exacts [Or.inl h, absurd hk (hne h), Or.inr ⟨h, hk⟩]

/-- An object whose custom values have custom names emits every key once exactly if no name occurs
under two keys. -/
theorem emitsOnce_iff_of_custom (hnames : ∀ k ∈ c.extra.keys, Field.ofName k.toS = none) :
    c.EmitsOnce ↔ ∀ k ∈ c.extra.keys, ∀ k' ∈ c.extra.keys, k.toS = k'.toS → k = k' := by
  have hnone : ∀ f, c.get f ≠ .nil → ¬ c.Names f := by
    rintro f - ⟨k, hk, hf⟩
    rw [hnames k hk] at hf
    cases hf
  rw [emitsOnce_iff, and_iff_left hnone, List.nodup_map_iff_inj_on c.extra.nodup_keys]
  refine forall₄_congr fun k hk k' hk' => ?_
  rw [meaning_of_none (hnames k hk), meaning_of_none (hnames k' hk'), Sum.inr.injEq]

/-- **What the constructor builds** emits every key once exactly if no custom name of the hash
occurs under two keys. -/
theorem emitsOnce_new_iff {lib : URILib} {arg : Arg} (h : new lib arg = .ok c) :
    c.EmitsOnce ↔ arg.NamesOnce := by
  obtain ⟨d, ps, hstart, -, rfl⟩ := exists_start h
  have hextra : d.extra = .empty := by
    cases arg with
    | hash hash =>
      obtain ⟨rfl, -⟩ := Prod.mk.inj (Except.ok.inj hstart)
      rfl
    | value v => exact (start_value hstart).1.extra
  have hkeys : ∀ k, k ∈ (ps.foldl StreamIDComponents.setValue d).extra.keys ↔
      k ∈ ps.map Prod.fst ∧ Field.ofName k.toS = none := by
    intro k
    rw [mem_keys_foldl_setValue, hextra]
    simp
  rw [emitsOnce_iff_of_custom fun k hk => ((hkeys k).mp hk).2]
  cases arg with
  | hash hash =>
    obtain ⟨-, rfl⟩ := Prod.mk.inj (Except.ok.inj hstart)
    constructor
    · intro hinj k hk k' hk' hname heq
      exact hinj k ((hkeys k).mpr ⟨hk, hname⟩) k' ((hkeys k').mpr ⟨hk', heq ▸ hname⟩) heq
    · intro hinj k hk k' hk' heq
      exact hinj k ((hkeys k).mp hk).1 k' ((hkeys k').mp hk').1 ((hkeys k).mp hk).2 heq
  | value v =>
    refine iff_of_true (fun k hk k' hk' heq => ?_) trivial
    obtain ⟨p, hp, rfl⟩ := List.mem_map.mp ((hkeys k).mp hk).1
    obtain ⟨p', hp', rfl⟩ := List.mem_map.mp ((hkeys k').mp hk').1
    obtain ⟨q, rfl⟩ := (start_value hstart).2 p hp
    obtain ⟨q', rfl⟩ := (start_value hstart).2 p' hp'
    exact congrArg Key.str heq

/-! ### Runs -/

/-- The condition on an operation: every assignment it makes fits. -/
def OpFits (c : StreamIDComponents) (op : Op) : Prop := Along step StepFits c op.steps

theorem EmitsOnce.apply (hc : c.EmitsOnce) {op : Op} (h : c.OpFits op) :
    (c.apply op).EmitsOnce := by
  rw [apply_eq_exec]
  rcases exec_mem_states step c op.steps with heq | hmem
  · rw [heq]
    exact hc
  · exact (hc.steps_iff op.steps).mpr h _ hmem

/-- Every object of a run emits every key once. -/
def EmitsOnceAlong (c : StreamIDComponents) (ops : List Op) : Prop :=
  ∀ t ∈ c :: states apply c ops, t.EmitsOnce

instance (c : StreamIDComponents) (ops : List Op) : Decidable (EmitsOnceAlong c ops) :=
  inferInstanceAs (Decidable (∀ t ∈ c :: states apply c ops, t.EmitsOnce))

/-- **Every key once, in every run.** An object that was constructed without a custom name under
two keys, and operated on by operations that fit, emits every key once, and did so all along. -/
theorem emitsOnce_run {lib : URILib} {arg : Arg} {ops : List Op} (hnew : new lib arg = .ok c)
    (harg : arg.NamesOnce) (hops : Along StreamIDComponents.apply OpFits c ops) :
    EmitsOnceAlong c ops := by
  have hc : c.EmitsOnce := (emitsOnce_new_iff hnew).mpr harg
  refine List.forall_mem_cons.mpr ⟨hc, ?_⟩
  exact forall_mem_states (fun _ _ ht hfits => ht.apply hfits) hc hops

/-- An object made from a plain name. -/
def camComponents : StreamIDComponents := { fresh with resourceName := .str "cam1".toList }

/-- A custom value, a resource by its alias and a host. -/
theorem emitsOnce_cam :
    EmitsOnceAlong camComponents
      [.write "title".toList (.str "x".toList), .set (.str "r".toList) (.str "cam2".toList),
        .mergeHash (.ofPairs [(.sym "host_name".toList, .str "recce.nl".toList)])] := by
  have hnew : new noURILib (.value (.str "cam1".toList)) = .ok camComponents := by decide
  refine emitsOnce_run hnew trivial ⟨⟨?_, trivial⟩, ⟨fun _ => ?_, trivial⟩, ⟨⟨?_, ?_⟩, trivial⟩,
    trivial⟩
  · exact Or.inr (Or.inr (Or.inr (by decide)))
  · decide
  · decide
  · decide

/-- The alias of a field is stored beside it, and so is a name beside the Symbol it is equal to. -/
theorem not_emitsOnce_alias :
    new noURILib (.value (.str "cam1".toList)) = .ok camComponents ∧
      ¬ EmitsOnceAlong camComponents [.write "r".toList (.str "cam2".toList)] ∧
      ¬ EmitsOnceAlong camComponents
        [.set (.sym "title".toList) (.str "x".toList), .write "title".toList (.str "y".toList)] :=
  ⟨by decide, by decide, by decide⟩

end StreamIDComponents

end Rbsrt
