import Rbsrt.StreamID.RoundTrip

/-!
# Merging compiled streamids

`merge_str!` takes any text with pairs in it, also the compiled form of another object. Then it lays
that object over the one it is called on: what the other has is taken from there, and what it has
not stays. A mode and a type every object has.

Several objects can be merged one after the other, and as far as they can be expressed as a streamid
at all, that is no different from laying them over each other first and merging the one result.

## Main results

* `StreamIDComponents.mergeStr_toS` — merging a compiled object
* `StreamIDComponents.overlay_assoc`, `WellFormed.overlay` — laying objects over each other
* `StreamIDComponents.mergeStr_collapse` — merging many
-/

namespace Rbsrt

open Backtrack

namespace StreamIDComponents

/-- The upper value, or else the lower one. -/
def onTop (lower upper : Value) : Value := if upper.truthy then upper else lower

theorem onTop_assoc (u v w : Value) : onTop (onTop u v) w = onTop u (onTop v w) := by
  cases w <;> rfl

/-- One object over another. -/
def overlay (b c : StreamIDComponents) : StreamIDComponents where
  resourceName := onTop b.resourceName c.resourceName
  userName := onTop b.userName c.userName
  mode := onTop b.mode c.mode
  hostName := onTop b.hostName c.hostName
  type := onTop b.type c.type
  sessionid := onTop b.sessionid c.sessionid
  extra := b.extra.update c.extra

variable {b c d : StreamIDComponents}

theorem overlay_assoc (b c d : StreamIDComponents) :
    (b.overlay c).overlay d = b.overlay (c.overlay d) := by
  simp only [overlay, onTop_assoc, OrderedHash.update_assoc]

/-! ### Merging one -/

theorem foldl_setStr_extra_update (hc : WellFormed c) (d : StreamIDComponents) :
    (c.extra.entries.map fun e => (e.1.toS, e.2.toS)).foldl setStr d =
      { d with extra := d.extra.update c.extra } := by
  have hnames : ∀ e ∈ c.extra.entries, Field.ofName e.1.toS = none := by
    intro e he
    obtain ⟨k, v, rfl, -, hcustom, -⟩ := hc.extra e he
    exact Field.ofName_eq_none_iff.mpr hcustom
  have hid : ∀ e ∈ c.extra.entries, (Key.str e.1.toS, Value.str e.2.toS) = e := by
    intro e he
    obtain ⟨k, v, rfl, -⟩ := hc.extra e he
    rfl
  rw [foldl_setStr_extra hnames, List.map_congr_left hid, List.map_id']
  rfl

/-- **Setting the pairs of a compiled object** on another one. -/
theorem foldl_setStr_overlay (hc : WellFormed c) (b : StreamIDComponents) :
    c.pairs.foldl setStr b = b.overlay c := by
  have hr : ∀ d : StreamIDComponents, (emit "r".toList c.resourceName).foldl setStr d =
      { d with resourceName := onTop d.resourceName c.resourceName } := by
    rcases hc.resourceName with h | ⟨s, h, -⟩ <;> rw [h] <;> exact fun d => rfl
  have hu : ∀ d : StreamIDComponents, (emit "u".toList c.userName).foldl setStr d =
      { d with userName := onTop d.userName c.userName } := by
    rcases hc.userName with h | ⟨s, h, -⟩ <;> rw [h] <;> exact fun d => rfl
  have hm : ∀ d : StreamIDComponents, (emit "m".toList c.mode).foldl setStr d =
      { d with mode := onTop d.mode c.mode } := by
    obtain ⟨m, hm, hmode⟩ := hc.mode
    intro d
    rw [hmode, foldl_setStr_emit]
    exact if_pos hm
  -- a host without a slash is stored as it is
  have hh : ∀ d : StreamIDComponents, (emit "h".toList c.hostName).foldl setStr d =
      { d with hostName := onTop d.hostName c.hostName } := by
    rcases hc.hostName with h | ⟨s, h, -, hslash⟩
    · rw [h]
      exact fun d => rfl
    · rw [h]
      exact fun d => splitHost_of_not_mem hslash
  have ht : ∀ d : StreamIDComponents, (emit "t".toList c.type).foldl setStr d =
      { d with type := onTop d.type c.type } := by
    obtain ⟨t, ht, htype⟩ := hc.type
    intro d
    rw [htype, foldl_setStr_emit]
    exact if_pos ht
  have hs : ∀ d : StreamIDComponents, (emit "s".toList c.sessionid).foldl setStr d =
      { d with sessionid := onTop d.sessionid c.sessionid } := by
    rcases hc.sessionid with h | ⟨s, h, -⟩ <;> rw [h] <;> exact fun d => rfl
  rw [pairs, List.foldl_append, List.foldl_append, List.foldl_append, List.foldl_append,
    List.foldl_append, List.foldl_append, hr, hu, hm, hh, ht, hs, foldl_setStr_extra_update hc]
  rfl

/-- **Merging a compiled object** lays it over. -/
theorem mergeStr_toS (hc : WellFormed c) (b : StreamIDComponents) :
    b.mergeStr c.toS = .ok (b.overlay c) := by
  rw [mergeStr_eq, scan_toS hc.compilable.pairs, foldl_setStr_overlay hc]

/-! ### Merging many -/

theorem onTop_text {P : RString → Prop} {v w : Value} (hv : v = .nil ∨ ∃ s, v = .str s ∧ P s)
    (hw : w = .nil ∨ ∃ s, w = .str s ∧ P s) : onTop v w = .nil ∨ ∃ s, onTop v w = .str s ∧ P s := by
  rcases hw with rfl | ⟨s, rfl, hs⟩
  · exact hv
  · exact Or.inr ⟨s, rfl, hs⟩

theorem onTop_choice {choices : List RString} {v w : Value} (hw : ∃ m ∈ choices, w = .sym m) :
    ∃ m ∈ choices, onTop v w = .sym m := by
  obtain ⟨m, hm, rfl⟩ := hw
  exact ⟨m, hm, rfl⟩

/-- Objects that can be expressed as a streamid still can when they are laid over each other. -/
theorem WellFormed.overlay (hb : WellFormed b) (hc : WellFormed c) : WellFormed (b.overlay c) where
  resourceName := onTop_text hb.resourceName hc.resourceName
  userName := onTop_text hb.userName hc.userName
  mode := onTop_choice hc.mode
  hostName := onTop_text hb.hostName hc.hostName
  type := onTop_choice hc.type
  sessionid := onTop_text hb.sessionid hc.sessionid
  extra := fun e he => by
    rcases OrderedHash.mem_entries_asetAll he with he | he
    · exact hb.extra e he
    · exact hc.extra e he

theorem foldlM_mergeStr {cs : List StreamIDComponents} (hcs : ∀ c ∈ cs, WellFormed c)
    (b : StreamIDComponents) :
    cs.foldlM (fun b c => b.mergeStr c.toS) b = .ok (cs.foldl StreamIDComponents.overlay b) := by
  induction cs generalizing b with
  | nil => rfl
  | cons c cs ih =>
    obtain ⟨hc, hcs⟩ := List.forall_mem_cons.mp hcs
    rw [List.foldlM_cons, mergeStr_toS hc]
    exact ih hcs (b.overlay c)

theorem foldl_overlay (b c : StreamIDComponents) (cs : List StreamIDComponents) :
    cs.foldl StreamIDComponents.overlay (b.overlay c) =
      b.overlay (cs.foldl StreamIDComponents.overlay c) := by
  induction cs generalizing c with
  | nil => rfl
  | cons d cs ih => rw [List.foldl_cons, overlay_assoc, ih, List.foldl_cons]

theorem WellFormed.foldl_overlay {cs : List StreamIDComponents} (hc : WellFormed c)
    (hcs : ∀ d ∈ cs, WellFormed d) : WellFormed (cs.foldl StreamIDComponents.overlay c) := by
  induction cs generalizing c with
  | nil => exact hc
  | cons d cs ih =>
    obtain ⟨hd, hcs⟩ := List.forall_mem_cons.mp hcs
    exact ih (hc.overlay hd) hcs

/-- **Merging many compiled objects** one after the other, into whatever object, is merging one: the
object they make when they are laid over each other. -/
theorem mergeStr_collapse {cs : List StreamIDComponents} (hc : WellFormed c)
    (hcs : ∀ d ∈ cs, WellFormed d) (b : StreamIDComponents) :
    (c :: cs).foldlM (fun b c => b.mergeStr c.toS) b =
      b.mergeStr (cs.foldl StreamIDComponents.overlay c).toS := by
  rw [foldlM_mergeStr (List.forall_mem_cons.mpr ⟨hc, hcs⟩), mergeStr_toS (hc.foldl_overlay hcs),
    List.foldl_cons, StreamIDComponents.foldl_overlay]

/-- A name and a custom value. -/
def titled (name title : RString) : StreamIDComponents :=
  { fresh with userName := .str name, extra := .ofPairs [(.str "title".toList, .str title)] }

theorem wellFormed_titled {name title : RString} (hname : IsPlain name) (htitle : IsPlain title) :
    WellFormed (titled name title) where
  resourceName := Or.inl rfl
  userName := Or.inr ⟨name, rfl, hname⟩
  mode := ⟨_, by decide, rfl⟩
  hostName := Or.inl rfl
  type := ⟨_, by decide, rfl⟩
  sessionid := Or.inl rfl
  extra := fun e he => by
    have he : e ∈ [(Key.str "title".toList, Value.str title)] := he
    obtain rfl := List.mem_singleton.mp he
    exact ⟨_, _, rfl, by decide, by decide, htitle⟩

theorem mergeStr_collapse_titled :
    [titled "emma".toList "one".toList, titled "noor".toList "two".toList].foldlM
        (fun b c => b.mergeStr c.toS) fullComponents =
      fullComponents.mergeStr ([titled "noor".toList "two".toList].foldl
        StreamIDComponents.overlay (titled "emma".toList "one".toList)).toS :=
  mergeStr_collapse (wellFormed_titled (by decide) (by decide))
    (List.forall_mem_singleton.mpr (wellFormed_titled (by decide) (by decide))) fullComponents

end StreamIDComponents

end Rbsrt
