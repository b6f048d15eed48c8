import Rbsrt.StreamID.Operations
import Rbsrt.StreamID.Order

/-!
# Merging twice

Settings are often read again: a configuration is merged into an object that it was merged into
before, a streamid is parsed once more into the object it was parsed into. That is safe. Whatever
`set`, the three merges and the accessors have done to an object, doing all of it once more changes
nothing, not even the order of the custom values.

A mode that is not on the list is ignored both times, a host that brings a path along finds the
resource set, and a merge that raises stops at the same pair again. What it comes to is that every
assignment either writes to a slot or fills it if it is empty; the resource is the only slot that is
filled, and it is also written to.

The writers of custom values are different. `obj.foo = 1` stores nothing once there is a value under
`foo=`, so what comes before it is not overwritten the second time.

## Main results

* `actsBySlot_make` — the assignments, slot by slot
* `update_eq` — the methods as the assignments they make
* `run_twice` — a repeated sequence of methods
-/

namespace Rbsrt

open Backtrack Runs Slots

namespace StreamIDComponents

variable {c d : StreamIDComponents} {lib : URILib}

/-! ### The methods -/

/-- The public methods that assign values by name, other than the writers of `method_missing`. -/
inductive Update
  | set (key : Key) (val : Value)
  | mergeStr (streamid : RString)
  | mergeHash (hash : OrderedHash Key Value)
  | mergeUri (streamid : RString)
  | accessor (f : Field) (val : Value)

/-- The object after a method was called, whether it has raised or not. -/
def update (lib : URILib) (c : StreamIDComponents) : Update → StreamIDComponents
  | .set key val => c.apply (.set key val)
  | .mergeStr streamid => c.apply (.mergeStr streamid)
  | .mergeHash hash => c.apply (.mergeHash hash)
  | .mergeUri streamid => c.call lib (.mergeUri streamid)
  | .accessor f val => c.attrWriter f val

/-! ### The assignments -/

/-- A pair that is set, or a field that gets a value as it is. -/
inductive Assignment
  | set (p : Key × Value)
  | store (f : Field) (val : Value)

/-- What an assignment does. -/
def make (c : StreamIDComponents) : Assignment → StreamIDComponents
  | .set p => c.setValue p
  | .store f val => c.attrWriter f val

/-- What it leaves in a slot. -/
def makeEffect : Assignment → Slot → Option Value → Option Value
  | .set p, i, x => effect p i x
  | .store f val, i, x => if i = .inl f then some val else x

/-- **Assigning acts slot by slot.** -/
theorem actsBySlot_make : ActsBySlot view make makeEffect := by
  intro c a i
  cases a with
  | set p => exact actsBySlot_setValue c p i
  | store f val =>
    cases i with
    | inr k =>
      show (c.attrWriter f val).extra.lookup k = c.extra.lookup k
      rw [extra_attrWriter]
    | inl g =>
      show some ((c.attrWriter f val).get g) = if (.inl g : Slot) = .inl f then _ else _
      by_cases hg : g = f
      · rw [hg, get_attrWriter_self, if_pos rfl]
      · rw [get_attrWriter_of_ne hg, if_neg fun h => hg (Sum.inl.inj h)]
        rfl

/-- A value on a list replaces what is there, and any other value leaves it. -/
theorem writesOrFills_choice {choices : List RString} (v : RString) :
    WritesOrFills (some .nil) fun x : Option Value =>
      if v ∈ choices then some (.sym v) else x := by
  by_cases hv : v ∈ choices
  · exact Or.inl ⟨some (.sym v), fun x => if_pos hv⟩
  · exact Or.inr fun x _ => if_neg hv

/-- **Every assignment writes to a slot or fills it.** -/
theorem writesOrFills_make (a : Assignment) (i : Slot) :
    WritesOrFills (some .nil) (makeEffect a i) := by
  cases a with
  | store f val =>
    by_cases hi : i = .inl f
    · exact Or.inl ⟨some val, fun x => if_pos hi⟩
    · exact Or.inr fun x _ => if_neg hi
  | set p =>
    change WritesOrFills (some .nil) (effect p i)
    by_cases hi : i = slot p.1
    · subst hi
      have hwritten : effect p (slot p.1) = written p := funext fun x => effect_self p x
      rw [hwritten]
      unfold written
      split
      · exact writesOrFills_choice p.2.toS
      · exact Or.inl ⟨_, fun x => rfl⟩
      · exact writesOrFills_choice p.2.toS
      · exact Or.inl ⟨_, fun x => rfl⟩
    · refine Or.inr fun x hx => ?_
      rw [effect, if_neg hi, if_neg fun h => hx h.2.2]

/-! ### The order of the custom values -/

/-- The custom key an assignment stores under. -/
def Assignment.key? : Assignment → Option Key
  | .set p => if Field.ofName p.1.toS = none then some p.1 else none
  | .store _ _ => none

theorem keys_make (c : StreamIDComponents) (a : Assignment) :
    (c.make a).extra.keys =
      match a.key? with
      | some k => if k ∈ c.extra.keys then c.extra.keys else c.extra.keys ++ [k]
      | none => c.extra.keys := by
  cases a with
  | store f val =>
    show (c.attrWriter f val).extra.keys = c.extra.keys
    rw [extra_attrWriter]
  | set p =>
    rw [Assignment.key?]
    cases hname : Field.ofName p.1.toS with
    | none =>
      rw [if_pos rfl]
      show (c.setValue p).extra.keys = _
      rw [extra_setValue_of_none hname]
      exact OrderedHash.keys_aset _ _ _
    | some f =>
      rw [if_neg (by simp)]
      show (c.setValue p).extra.keys = _
      rw [extra_setValue_of_field hname]

/-- Keys stay. -/
theorem mem_keys_foldl_make {as : List Assignment} {k : Key} (hk : k ∈ c.extra.keys) :
    k ∈ (as.foldl make c).extra.keys := by
  induction as generalizing c with
  | nil => exact hk
  | cons a as ih =>
    refine ih ?_
    rw [keys_make]
    split
    · split
      · exact hk
      · exact List.mem_append_left _ hk
    · exact hk

/-- The keys that were stored under are there. -/
theorem key_mem_foldl_make {as : List Assignment} {a : Assignment} (ha : a ∈ as) {k : Key}
    (hk : a.key? = some k) : k ∈ (as.foldl make c).extra.keys := by
  induction as generalizing c with
  | nil => cases ha
  | cons b as ih =>
    rcases List.mem_cons.mp ha with rfl | ha
    · have hkey : k ∈ (c.make a).extra.keys := by
        rw [keys_make, hk]
        by_cases hmem : k ∈ c.extra.keys <;> simp [hmem]
      rw [List.foldl_cons]
      exact mem_keys_foldl_make hkey
    · exact ih ha

/-- **Storing under keys that are there** leaves their order alone. -/
theorem keys_foldl_make_of_mem {as : List Assignment}
    (h : ∀ a ∈ as, ∀ k, a.key? = some k → k ∈ c.extra.keys) :
    (as.foldl make c).extra.keys = c.extra.keys := by
  induction as generalizing c with
  | nil => rfl
  | cons a as ih =>
    have hkeys : (c.make a).extra.keys = c.extra.keys := by
      rw [keys_make]
      split
      · next k hk => rw [if_pos (h a (by simp) k hk)]
      · rfl
    rw [List.foldl_cons, ih fun b hb k hk => hkeys ▸ h b (List.mem_cons_of_mem a hb) k hk, hkeys]

/-- What is in the slots, and the order of the keys, is all there is. -/
theorem eq_of_view (hview : ∀ i, view c i = view d i) (hkeys : c.extra.keys = d.extra.keys) :
    c = d := by
  have hget : ∀ f, c.get f = d.get f := fun f => Option.some.inj (hview (.inl f))
  have hextra : c.extra = d.extra := OrderedHash.ext_lookup hkeys fun k => hview (.inr k)
  obtain ⟨r, u, m, h, t, s, extra⟩ := c
  obtain ⟨r', u', m', h', t', s', extra'⟩ := d
  obtain rfl : r = r' := hget .resourceName
  obtain rfl : u = u' := hget .userName
  obtain rfl : m = m' := hget .mode
  obtain rfl : h = h' := hget .hostName
  obtain rfl : t = t' := hget .type
  obtain rfl : s = s' := hget .sessionid
  obtain rfl : extra = extra' := hextra
  rfl

/-- Assignments that are made twice. -/
theorem foldl_make_twice (as : List Assignment) (c : StreamIDComponents) :
    as.foldl make (as.foldl make c) = as.foldl make c :=
  eq_of_view (actsBySlot_make.replay (fun a _ i => writesOrFills_make a i) c)
    (keys_foldl_make_of_mem fun _ ha _ hk => key_mem_foldl_make ha hk)

/-! ### The methods as assignments -/

/-- The assignments `merge_uri!` makes. -/
def uriAssignments (lib : URILib) (uri : URI) : List Assignment :=
  .store .hostName (.ofSlice uri.hostname) ::
    (uri.path.toList.map fun path => .store .resourceName (.ofSlice (slice path 1 (-1)))) ++
      match queryEntries lib uri with
      | .ok ps => (settable ps).map .set
      | .error _ => []

/-- The assignments a method makes. They do not depend on the object. -/
def Update.assignments (lib : URILib) : Update → List Assignment
  | .set key val => (settable [(key, val)]).map .set
  | .mergeStr streamid => (settable ((scan pairRegexp streamid).map strEntry)).map .set
  | .mergeHash hash => (settable hash.entries).map .set
  | .mergeUri streamid =>
    match lib.uri streamid with
    | .ok uri => uriAssignments lib uri
    | .error _ => []
  | .accessor f val => [.store f val]

theorem foldl_make_set (ps : List (Key × Value)) (c : StreamIDComponents) :
    (ps.map Assignment.set).foldl make c = ps.foldl setValue c := by
  rw [List.foldl_map]
  rfl

theorem leftByUri_eq (uri : URI) :
    c.leftByUri lib uri = (uriAssignments lib uri).foldl make c := by
  have hat : (.store .hostName (.ofSlice uri.hostname) :: (uri.path.toList.map fun path =>
      Assignment.store .resourceName (.ofSlice (slice path 1 (-1))))).foldl make c =
        c.atUri uri := by
    rw [atUri]
    cases uri.path <;> rfl
  rw [leftByUri, uriAssignments, List.foldl_append, hat]
  rcases queryEntries lib uri with e | ps
  · rfl
  · exact (setEach_state _ ps).trans (foldl_make_set _ _).symm

/-- **A method** makes its assignments. -/
theorem update_eq (c : StreamIDComponents) (u : Update) :
    c.update lib u = (u.assignments lib).foldl make c := by
  cases u with
  | set key val => exact (setEach_state c _).trans (foldl_make_set _ _).symm
  | mergeStr streamid => exact (setEach_state c _).trans (foldl_make_set _ _).symm
  | mergeHash hash => exact (setEach_state c _).trans (foldl_make_set _ _).symm
  | mergeUri streamid =>
    rw [update, call, Update.assignments]
    rcases lib.uri streamid with e | uri
    · rfl
    · exact leftByUri_eq uri
  | accessor f val => rfl

theorem exec_update (c : StreamIDComponents) (us : List Update) :
    exec (update lib) c us = (us.flatMap (Update.assignments lib)).foldl make c := by
  induction us generalizing c with
  | nil => rfl
  | cons u us ih => rw [exec_cons, ih, update_eq, List.flatMap_cons, List.foldl_append]

/-- **A sequence of methods that is repeated changes nothing**, whatever the object and whichever of
them raise. -/
theorem run_twice (lib : URILib) (us : List Update) (c : StreamIDComponents) :
    exec (update lib) (exec (update lib) c us) us = exec (update lib) c us := by
  rw [exec_update, exec_update, foldl_make_twice]

/-- With a writer of `method_missing` among them it may. -/
example :
    let ops : List Op := [.set (.str "foo".toList) (.str "2".toList),
      .write "foo".toList (.str "1".toList), .set (.str "foo=".toList) (.str "3".toList)]
    exec apply (exec apply fresh ops) ops ≠ exec apply fresh ops := by decide

end StreamIDComponents

end Rbsrt
