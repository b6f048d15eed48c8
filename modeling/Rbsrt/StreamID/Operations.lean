import Rbsrt.General.Runs
import Mathlib.Data.List.TakeWhile
import Rbsrt.StreamID.Snapshot

/-!
# What can be done to an object

An object is constructed and then changed through its public methods. Four of them set the pairs
they are given, or write a value: `set`, `merge_str!`, `merge_hash!` and `obj.name = val` (`Op`).
The last one is an accessor for six names and `method_missing` for all others. The fifth,
`merge_uri!`, asks the URI library first (`Method`).

A merge sets its pairs one after the other. If one of them raises, the ones before it have been
set and the object stays as it is then, so an operation always leaves an object behind, whether it
raises or not. `setEach` is that loop; it raises what the merge raises (`setEach_eq`).

Seen from further away everything is a sequence of single assignments (`Step`), those of a merge
ending before the first pair that raises. `apply_eq_exec` says so for the operations and
`new_eq_setAll` for the constructor, which differs only in the object it starts from.

## Main results

* `setEach_eq`, `setEach_state` — the loop of a merge
* `apply_eq_exec` — an operation as the assignments it makes
* `leftByUri_of_mergeUri` — what `merge_uri!` leaves behind, if it does not raise
* `new_eq_setAll`, `exists_start` — the constructor as the pairs it sets
-/

namespace Rbsrt

open Backtrack Runs

namespace StreamIDComponents

variable {c : StreamIDComponents}

/-! ### Writers -/

/-- The writers of the standard fields: `obj.resource_name = val` and so on. -/
def attrWriter (c : StreamIDComponents) : Field → Value → StreamIDComponents
  | .resourceName, val => { c with resourceName := val }
  | .userName, val => { c with userName := val }
  | .mode, val => { c with mode := val }
  | .hostName, val => { c with hostName := val }
  | .type, val => { c with type := val }
  | .sessionid, val => { c with sessionid := val }

@[simp] theorem get_attrWriter_self (c : StreamIDComponents) (f : Field) (v : Value) :
    (c.attrWriter f v).get f = v := by cases f <;> rfl

theorem get_attrWriter_of_ne {f g : Field} (h : g ≠ f) (v : Value) :
    (c.attrWriter f v).get g = c.get g := by
  cases f <;> cases g <;> first | rfl | exact absurd rfl h

@[simp] theorem extra_attrWriter (c : StreamIDComponents) (f : Field) (v : Value) :
    (c.attrWriter f v).extra = c.extra := by cases f <;> rfl

/-- The `attr_accessor` declarations. -/
def accessors : List (RString × Field) :=
  [("resource_name".toList, .resourceName), ("user_name".toList, .userName),
    ("mode".toList, .mode), ("host_name".toList, .hostName), ("type".toList, .type),
    ("sessionid".toList, .sessionid)]

/-- What stands before the last `=` of the comparisons every object has: `==`, `===`, `!=`. -/
def comparisons : List RString := ["=".toList, "==".toList, "!".toList]

/-- `obj.name = val` -/
def write (c : StreamIDComponents) (name : RString) (val : Value) : StreamIDComponents :=
  match accessors.lookup name with
  | some f => c.attrWriter f val
  | none =>
    if name ∈ comparisons then c else (c.methodMissing (name ++ ['=']) [val]).1

/-- `obj.name`, for a name that is not a method. -/
def read (c : StreamIDComponents) (name : RString) : Value := (c.methodMissing name []).2

/-- The name a writer is called by is cut where it was put together. -/
theorem matchName_append {name : RString} (h : '\n' ∉ name) :
    matchName (name ++ ['=']) = (name, true) := by
  have hline : (name ++ ['=']).takeWhile isDot = name ++ ['='] := by
    refine List.takeWhile_eq_self_iff.mpr fun d hd => ?_
    rcases List.mem_append.mp hd with hd | hd
    · have hne : d ≠ '\n' := fun heq => h (heq ▸ hd)
      simp [isDot, hne]
    · obtain rfl := List.mem_singleton.mp hd
      decide
  simp [matchName, hline]

/-- A writer that is not an accessor finds its own name with the `=` among the custom values, and
does nothing, or it stores. -/
theorem methodMissing_writer (c : StreamIDComponents) (name : RString) (val : Value) :
    (c.methodMissing (name ++ ['=']) [val]).1 =
      if Key.str (name ++ ['=']) ∈ c.extra.keys then c
      else if (matchName (name ++ ['='])).2 then
        { c with extra := c.extra.aset (.str (matchName (name ++ ['='])).1) val }
      else c := by
  rw [methodMissing]
  cases hlookup : c.extra.lookup (.str (name ++ ['='])) with
  | some v => rw [if_pos (OrderedHash.mem_keys_iff.mpr ⟨v, hlookup⟩)]
  | none =>
    rw [if_neg (OrderedHash.lookup_eq_none_iff.mp hlookup)]
    by_cases hm : (matchName (name ++ ['='])).2 <;> simp [hm]

/-! ### Operations -/

/-- A public method that changes the object, with its arguments, other than `merge_uri!`. -/
inductive Op
  | set (key : Key) (val : Value)
  | mergeStr (streamid : RString)
  | mergeHash (hash : OrderedHash Key Value)
  | write (name : RString) (val : Value)

/-- `pairs.each { |key, val| set(key, val) }`: the object it leaves behind, and the exception that
ended it. -/
def setEach (c : StreamIDComponents) : List (Key × Value) → StreamIDComponents × Option RubyError
  | [] => (c, none)
  | p :: ps =>
    match c.set p.1 p.2 with
    | .ok d => setEach d ps
    | .error e => (c, some e)

/-- The object after one of these methods was called. -/
def apply (c : StreamIDComponents) : Op → StreamIDComponents
  | .set key val => (c.setEach [(key, val)]).1
  | .mergeStr streamid => (c.setEach ((scan pairRegexp streamid).map strEntry)).1
  | .mergeHash hash => (c.setEach hash.entries).1
  | .write name val => c.write name val

/-- The loop raises what the merge raises, and if it does not, leaves what the merge leaves. -/
theorem setEach_eq (c : StreamIDComponents) (ps : List (Key × Value)) :
    ps.foldlM (fun c p => c.set p.1 p.2) c =
      match c.setEach ps with
      | (d, none) => .ok d
      | (_, some e) => .error e := by
  induction ps generalizing c with
  | nil => rfl
  | cons p ps ih =>
    rw [List.foldlM_cons, setEach]
    cases hset : c.set p.1 p.2 with
    | ok d => exact ih d
    | error e => rfl

/-! ### Single assignments -/

/-- `set` does not raise: a host must be a String. -/
def isSettable (p : Key × Value) : Bool :=
  match Field.ofName p.1.toS, p.2 with
  | some .hostName, .str _ => true
  | some .hostName, _ => false
  | _, _ => true

theorem isSettable_iff {p : Key × Value} : isSettable p = true ↔ Settable p := by
  obtain ⟨k, v⟩ := p
  rw [isSettable, Settable]
  rcases Field.ofName k.toS with _ | f
  · simp
  · cases f <;> cases v <;> simp

theorem set_of_not_settable {p : Key × Value} (h : ¬ Settable p) :
    ∃ e, c.set p.1 p.2 = .error e := by
  obtain ⟨k, v⟩ := p
  rw [Settable, Classical.not_imp] at h
  obtain ⟨hname, hv⟩ := h
  simp only [set, hname]
  rcases v with _ | s | s
  · exact ⟨_, rfl⟩
  · exact absurd ⟨s, rfl⟩ hv
  · exact ⟨_, rfl⟩

/-- What the loop of a merge gets to set. -/
def settable (ps : List (Key × Value)) : List (Key × Value) := ps.takeWhile isSettable

/-- **The loop of a merge** sets the pairs up to the first one that raises. -/
theorem setEach_state (c : StreamIDComponents) (ps : List (Key × Value)) :
    (c.setEach ps).1 = (settable ps).foldl setValue c := by
  induction ps generalizing c with
  | nil => rfl
  | cons p ps ih =>
    rw [setEach, settable]
    by_cases hp : Settable p
    · rw [set_of_settable c hp, List.takeWhile_cons_of_pos (isSettable_iff.mpr hp)]
      exact ih (c.setValue p)
    · obtain ⟨e, he⟩ := set_of_not_settable (c := c) hp
      rw [he, List.takeWhile_cons_of_neg (isSettable_iff.not.mpr hp)]
      rfl

/-- One assignment: a pair that is set, or a writer. -/
inductive Step
  | set (p : Key × Value)
  | write (name : RString) (val : Value)

/-- What an assignment does. -/
def step (c : StreamIDComponents) : Step → StreamIDComponents
  | .set p => c.setValue p
  | .write name val => c.write name val

/-- The pairs an operation sets. -/
def Op.pairs : Op → List (Key × Value)
  | .set key val => [(key, val)]
  | .mergeStr streamid => (scan pairRegexp streamid).map strEntry
  | .mergeHash hash => hash.entries
  | .write _ _ => []

/-- The assignments an operation makes. -/
def Op.steps : Op → List Step
  | .write name val => [.write name val]
  | op => (settable op.pairs).map Step.set

theorem exec_set (c : StreamIDComponents) (ps : List (Key × Value)) :
    exec step c (ps.map Step.set) = ps.foldl setValue c := by
  rw [exec, List.foldl_map]
  rfl

/-- **An operation** as the assignments it makes. -/
theorem apply_eq_exec (c : StreamIDComponents) (op : Op) : c.apply op = exec step c op.steps := by
  cases op with
  | write name val => rfl
  | _ =>
    rw [Op.steps, exec_set, ← setEach_state]
    · rfl
    · intro name val h
      cases h

/-! ### The constructor -/

/-- The pairs in the query of a URI. -/
def queryEntries (lib : URILib) (uri : URI) : Except RubyError (List (Key × Value)) :=
  match uri.query with
  | some query => (lib.decodeWwwForm query).map fun form => (hashOfForm form).entries
  | none => .ok []

/-- The object the constructor sets pairs on, and the pairs. -/
def Arg.start (lib : URILib) : Arg → Except RubyError (StreamIDComponents × List (Key × Value))
  | .value .nil => .ok (fresh, [])
  | .hash h => .ok (fresh, h.entries)
  | .value v =>
    if header.isPrefixOf v.toS then .ok (fresh, (scan pairRegexp v.toS).map strEntry)
    else if lib.regexp v.toS then do
      let uri ← lib.uri v.toS
      let ps ← queryEntries lib uri
      .ok (fresh.atUri uri, ps)
    else .ok ({ fresh with resourceName := .str v.toS }, [])

/-- Set all of the pairs, or raise. -/
def setAll (p : StreamIDComponents × List (Key × Value)) : Except RubyError StreamIDComponents :=
  p.2.foldlM (fun c e => c.set e.1 e.2) p.1

theorem mergeUri_eq_setAll (lib : URILib) (c : StreamIDComponents) (uri : URI) :
    c.mergeUri lib uri = queryEntries lib uri >>= fun ps => setAll (c.atUri uri, ps) := by
  rw [mergeUri_eq, queryEntries]
  cases uri.query with
  | none => rfl
  | some query =>
    show (lib.decodeWwwForm query >>= fun form => (c.atUri uri).mergeHash (hashOfForm form)) =
      (lib.decodeWwwForm query).map (fun form => (hashOfForm form).entries) >>= _
    cases lib.decodeWwwForm query <;> rfl

theorem mergeStr_eq_setAll (c : StreamIDComponents) (s : RString) :
    c.mergeStr s = setAll (c, (scan pairRegexp s).map strEntry) := by
  rw [setAll, List.foldlM_map]
  rfl

/-- **The constructor** sets pairs on an object that does not depend on them. -/
theorem new_eq_setAll (lib : URILib) (arg : Arg) : new lib arg = arg.start lib >>= setAll := by
  have hvalue : ∀ v : Value, v ≠ .nil → (if header.isPrefixOf v.toS then fresh.mergeStr v.toS
        else if lib.regexp v.toS then lib.uri v.toS >>= fresh.mergeUri lib
        else .ok { fresh with resourceName := .str v.toS }) =
      (Arg.value v).start lib >>= setAll := by
    intro v hv
    rw [Arg.start]
    · by_cases hheader : header.isPrefixOf v.toS
      · rw [if_pos hheader, if_pos hheader]
        exact mergeStr_eq_setAll fresh v.toS
      · rw [if_neg hheader, if_neg hheader]
        by_cases hregexp : lib.regexp v.toS
        · rw [if_pos hregexp, if_pos hregexp]
          rcases lib.uri v.toS with e | uri
          · rfl
          show fresh.mergeUri lib uri = (queryEntries lib uri >>= _) >>= setAll
          rw [mergeUri_eq_setAll]
          rcases queryEntries lib uri with e | ps <;> rfl
        · rw [if_neg hregexp, if_neg hregexp]
          rfl
    · exact hv
  rcases arg with h | v
  · rfl
  rcases v with _ | s | s
  · rfl
  · exact hvalue (.str s) (by simp)
  · exact hvalue (.sym s) (by simp)

/-- An object the constructor starts from, given something else than a hash. -/
def Arg.IsStart (lib : URILib) (v : Value) (d : StreamIDComponents) : Prop :=
  d = fresh ∨ (∃ uri, lib.uri v.toS = .ok uri ∧ d = fresh.atUri uri) ∨
    d = { fresh with resourceName := .str v.toS }

theorem Arg.IsStart.extra {lib : URILib} {v : Value} {d : StreamIDComponents}
    (h : Arg.IsStart lib v d) : d.extra = .empty := by
  rcases h with rfl | ⟨uri, -, rfl⟩ | rfl <;> rfl

theorem mem_queryEntries {lib : URILib} {uri : URI} {ps : List (Key × Value)}
    (h : queryEntries lib uri = .ok ps) : ∀ p ∈ ps, ∃ q, p = strEntry q := by
  rw [queryEntries] at h
  intro p hp
  split at h
  · next query _ =>
    rcases hform : lib.decodeWwwForm query with e | form
    · rw [hform] at h
      cases h
    · rw [hform] at h
      obtain rfl := Except.ok.inj h
      obtain ⟨q, -, rfl⟩ := List.mem_map.mp (OrderedHash.mem_entries_ofPairs hp)
      exact ⟨q, rfl⟩
  · obtain rfl := Except.ok.inj h
    cases hp

/-- Given something else than a hash, the constructor sets String pairs. -/
theorem start_value {lib : URILib} {v : Value} {d : StreamIDComponents} {ps : List (Key × Value)}
    (h : (Arg.value v).start lib = .ok (d, ps)) :
    Arg.IsStart lib v d ∧ ∀ p ∈ ps, ∃ q, p = strEntry q := by
  by_cases hv : v = .nil
  · subst hv
    obtain ⟨rfl, rfl⟩ := Prod.mk.inj (Except.ok.inj h)
    exact ⟨Or.inl rfl, by simp⟩
  rw [Arg.start] at h
  · split at h
    · obtain ⟨rfl, rfl⟩ := Prod.mk.inj (Except.ok.inj h)
      refine ⟨Or.inl rfl, fun p hp => ?_⟩
      obtain ⟨q, -, rfl⟩ := List.mem_map.mp hp
      exact ⟨q, rfl⟩
    · split at h
      · rcases huri : lib.uri v.toS with e | uri
        · rw [huri] at h
          cases h
        · rw [huri] at h
          change (queryEntries lib uri >>= fun ps => .ok (fresh.atUri uri, ps)) = .ok (d, ps) at h
          rcases hps : queryEntries lib uri with e | qs
          · rw [hps] at h
            cases h
          · rw [hps] at h
            obtain ⟨rfl, rfl⟩ := Prod.mk.inj (Except.ok.inj h)
            exact ⟨Or.inr (Or.inl ⟨uri, huri, rfl⟩), mem_queryEntries hps⟩
      · obtain ⟨rfl, rfl⟩ := Prod.mk.inj (Except.ok.inj h)
        exact ⟨Or.inr (Or.inr rfl), by simp⟩
  · exact hv

/-- Pairs that could all be set were set one after the other. -/
theorem setAll_eq_ok {p : StreamIDComponents × List (Key × Value)} {d : StreamIDComponents}
    (h : setAll p = .ok d) : (∀ e ∈ p.2, Settable e) ∧ d = p.2.foldl setValue p.1 := by
  obtain ⟨c, ps⟩ := p
  induction ps generalizing c with
  | nil => exact ⟨by simp, (Except.ok.inj h).symm⟩
  | cons e ps ih =>
    rw [setAll, List.foldlM_cons] at h
    by_cases he : Settable e
    · rw [set_of_settable c he] at h
      obtain ⟨hps, hd⟩ := ih (c.setValue e) h
      exact ⟨List.forall_mem_cons.mpr ⟨he, hps⟩, hd⟩
    · obtain ⟨err, herr⟩ := set_of_not_settable (c := c) he
      rw [herr] at h
      cases h

theorem exists_start {lib : URILib} {arg : Arg} (h : new lib arg = .ok c) :
    ∃ d ps, arg.start lib = .ok (d, ps) ∧ (∀ p ∈ ps, Settable p) ∧ c = ps.foldl setValue d := by
  rw [new_eq_setAll] at h
  rcases hstart : arg.start lib with e | ⟨d, ps⟩
  · rw [hstart] at h
    cases h
  · rw [hstart] at h
    obtain ⟨hps, hc⟩ := setAll_eq_ok h
    exact ⟨d, ps, rfl, hps, hc⟩

/-! ### `merge_uri!` as a method -/

/-- The object `merge_uri!` leaves behind, whether the query can be decoded and merged or not. -/
def leftByUri (lib : URILib) (c : StreamIDComponents) (uri : URI) : StreamIDComponents :=
  match queryEntries lib uri with
  | .ok ps => ((c.atUri uri).setEach ps).1
  | .error _ => c.atUri uri

/-- If `merge_uri!` does not raise, that is what it leaves. -/
theorem leftByUri_of_mergeUri {lib : URILib} {uri : URI} {d : StreamIDComponents}
    (h : c.mergeUri lib uri = .ok d) : c.leftByUri lib uri = d := by
  rw [mergeUri_eq_setAll] at h
  rw [leftByUri]
  rcases hps : queryEntries lib uri with e | ps
  · rw [hps] at h
    cases h
  · rw [hps] at h
    change setAll (c.atUri uri, ps) = .ok d at h
    rw [setAll, setEach_eq] at h
    change ((c.atUri uri).setEach ps).1 = d
    rcases heach : (c.atUri uri).setEach ps with ⟨d', _ | e⟩
    · rw [heach] at h
      exact Except.ok.inj h
    · rw [heach] at h
      cases h

/-- A public method that changes the object, with its arguments. -/
inductive Method
  | op (op : Op)
  | mergeUri (streamid : RString)

/-- The object after a method was called, whether it has raised or not. -/
def call (lib : URILib) (c : StreamIDComponents) : Method → StreamIDComponents
  | .op op => c.apply op
  | .mergeUri streamid =>
    match lib.uri streamid with
    | .ok uri => c.leftByUri lib uri
    | .error _ => c

end StreamIDComponents

end Rbsrt
