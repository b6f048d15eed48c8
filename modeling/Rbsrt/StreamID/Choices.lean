import Rbsrt.StreamID.Operations
import Rbsrt.StreamID.Recompile

/-!
# Mode and type are on their lists

`Modes` and `Types` are the modes and types there are, and a new object begins with the first of
each. `set` turns a String into a Symbol if it is on the list and ignores it otherwise, so whatever
a streamid, a hash or a query holds, a mode is one of three Symbols and a type is one of three
others. The two accessors `mode=` and `type=` do not ask. They are the only way out
(`chosen_iff`).

## Main results

* `chosen_new` — the constructor
* `Chosen.call_iff` — one method
* `chosen_iff` — runs of methods
-/

namespace Rbsrt

open Runs

namespace StreamIDComponents

variable {c : StreamIDComponents}

/-- The Symbols of a list. -/
def IsChoice (choices : List RString) (v : Value) : Prop := ∃ s ∈ choices, v = .sym s

/-- The mode and the type are on their lists. -/
structure Chosen (c : StreamIDComponents) : Prop where
  mode : IsChoice modes c.mode
  type : IsChoice types c.type

/-- What a field may be given by its accessor. -/
def Field.Admits : Field → Value → Prop
  | .mode, val => IsChoice modes val
  | .type, val => IsChoice types val
  | _, _ => True

/-- The operation does not store a mode or type that is not on the list. -/
def Op.Chooses : Op → Prop
  | .write name val => ∀ f, accessors.lookup name = some f → Field.Admits f val
  | _ => True

/-- The method does not store a mode or type that is not on the list. -/
def Method.Chooses : Method → Prop
  | .op o => o.Chooses
  | .mergeUri _ => True

/-! ### Setting -/

theorem Chosen.splitHost (h : c.Chosen) (v : RString) : (c.splitHost v).Chosen := by
  rw [StreamIDComponents.splitHost]
  split
  · dsimp only
    split
    · exact ⟨h.mode, h.type⟩
    · exact ⟨h.mode, h.type⟩
  · exact ⟨h.mode, h.type⟩

/-- **`set`** asks the lists. -/
theorem Chosen.setValue (h : c.Chosen) (p : Key × Value) : (c.setValue p).Chosen := by
  rw [StreamIDComponents.setValue]
  rcases Field.ofName p.1.toS with _ | f
  · exact ⟨h.mode, h.type⟩
  · cases f with
    | mode =>
      by_cases hm : p.2.toS ∈ modes
      · simp only [if_pos hm]
        exact ⟨⟨_, hm, rfl⟩, h.type⟩
      · simpa only [if_neg hm] using h
    | type =>
      by_cases ht : p.2.toS ∈ types
      · simp only [if_pos ht]
        exact ⟨h.mode, ⟨_, ht, rfl⟩⟩
      · simpa only [if_neg ht] using h
    | hostName => exact h.splitHost p.2.toS
    | _ => exact ⟨h.mode, h.type⟩

theorem Chosen.foldl (h : c.Chosen) (ps : List (Key × Value)) :
    (ps.foldl StreamIDComponents.setValue c).Chosen := by
  induction ps generalizing c with
  | nil => exact h
  | cons p ps ih => exact ih (h.setValue p)

theorem Chosen.setEach (h : c.Chosen) (ps : List (Key × Value)) : (c.setEach ps).1.Chosen := by
  rw [setEach_state]
  exact h.foldl _

/-- The parts of a URI go to the host and the resource. -/
theorem Chosen.atUri (h : c.Chosen) (uri : URI) : (c.atUri uri).Chosen := by
  rw [StreamIDComponents.atUri]
  split
  · exact ⟨h.mode, h.type⟩
  · exact ⟨h.mode, h.type⟩

/-- **The constructor** begins with the first mode and the first type. -/
theorem chosen_new {lib : URILib} {arg : Arg} (h : new lib arg = .ok c) : c.Chosen := by
  obtain ⟨d, ps, hstart, -, rfl⟩ := exists_start h
  have hfresh : fresh.Chosen := ⟨⟨_, by decide, rfl⟩, ⟨_, by decide, rfl⟩⟩
  refine Chosen.foldl ?_ ps
  cases arg with
  | hash hash =>
    obtain ⟨rfl, -⟩ := Prod.mk.inj (Except.ok.inj hstart)
    exact hfresh
  | value v =>
    rcases (start_value hstart).1 with rfl | ⟨uri, -, rfl⟩ | rfl
    · exact hfresh
    · exact hfresh.atUri uri
    · exact ⟨hfresh.mode, hfresh.type⟩

/-! ### Operations -/

theorem Chosen.attrWriter_iff (h : c.Chosen) (f : Field) (val : Value) :
    (c.attrWriter f val).Chosen ↔ Field.Admits f val := by
  cases f with
  | mode => exact ⟨fun hc => hc.mode, fun hval => ⟨hval, h.type⟩⟩
  | type => exact ⟨fun hc => hc.type, fun hval => ⟨h.mode, hval⟩⟩
  | _ => exact iff_of_true ⟨h.mode, h.type⟩ trivial

/-- The writers of `method_missing` do not touch the standard fields. -/
theorem Chosen.methodMissing (h : c.Chosen) (name : RString) (args : List Value) :
    (c.methodMissing name args).1.Chosen := by
  rw [StreamIDComponents.methodMissing]
  split
  · exact h
  · dsimp only
    split
    · exact ⟨h.mode, h.type⟩
    · exact h

theorem Chosen.write_iff (h : c.Chosen) (name : RString) (val : Value) :
    (c.write name val).Chosen ↔ (Op.write name val).Chooses := by
  rw [StreamIDComponents.write, Op.Chooses]
  rcases haccessor : accessors.lookup name with _ | f
  · refine iff_of_true ?_ (by simp)
    dsimp only
    split
    · exact h
    · exact h.methodMissing _ _
  · refine (h.attrWriter_iff f val).trans ?_
    simp

theorem Chosen.apply_iff (h : c.Chosen) (op : Op) : (c.apply op).Chosen ↔ op.Chooses := by
  cases op with
  | write name val => exact h.write_iff name val
  | set key val => exact iff_of_true (h.setEach _) trivial
  | mergeStr streamid => exact iff_of_true (h.setEach _) trivial
  | mergeHash hash => exact iff_of_true (h.setEach _) trivial

/-- **`merge_uri!`** sets the pairs of the query, as many as it gets to. -/
theorem Chosen.leftByUri (h : c.Chosen) (lib : URILib) (uri : URI) :
    (c.leftByUri lib uri).Chosen := by
  rw [StreamIDComponents.leftByUri]
  split
  · exact (h.atUri uri).setEach _
  · exact h.atUri uri

/-- **One method.** -/
theorem Chosen.call_iff (h : c.Chosen) (lib : URILib) (m : Method) :
    (c.call lib m).Chosen ↔ m.Chooses := by
  cases m with
  | op op => exact h.apply_iff op
  | mergeUri streamid =>
    refine iff_of_true ?_ trivial
    rw [call]
    split
    · exact h.leftByUri lib _
    · exact h

/-- **Mode and type stay on their lists**, in everything the constructor makes and through every
sequence of methods, exactly if neither of them is given another value by its accessor. -/
theorem chosen_iff {lib : URILib} {arg : Arg} (hnew : new lib arg = .ok c) (ms : List Method) :
    (∀ t ∈ c :: states (call lib) c ms, t.Chosen) ↔ ∀ m ∈ ms, m.Chooses := by
  have hrun : (∀ t ∈ states (call lib) c ms, t.Chosen) ↔
      Along (call lib) (fun _ m => m.Chooses) c ms :=
    forall_mem_states_iff (A := fun _ _ => True)
      (fun _ m ht _ hm => (ht.call_iff lib m).mpr hm) (fun _ m ht _ => ht.call_iff lib m)
      (chosen_new hnew) (along_const.mpr fun _ _ => trivial)
  rw [List.forall_mem_cons, hrun, along_const]
  exact and_iff_right (chosen_new hnew)

/-- A type that does not exist is ignored by `set`, a URL brings a mode along, and a custom value
may have any name. -/
theorem chosen_publish :
    new movieURILib (.value (.str "#!::m=request".toList)) = .ok fresh ∧
      ∀ t ∈ fresh :: states (call movieURILib) fresh
          [.op (.set (.sym "type".toList) (.str "live".toList)),
            .mergeUri "srt://stream.recce.nl:5555/my/movie.ts?m=publish".toList,
            .op (.write "m".toList (.str "live".toList))],
        t.Chosen := by
  have hnew : new movieURILib (.value (.str "#!::m=request".toList)) = .ok fresh := by decide
  refine ⟨hnew, (chosen_iff hnew _).mpr ?_⟩
  refine List.forall_mem_cons.mpr ⟨trivial, List.forall_mem_cons.mpr ⟨trivial,
    List.forall_mem_singleton.mpr fun f hf => ?_⟩⟩
  have hnone : accessors.lookup "m".toList = none := by decide
  rw [hnone] at hf
  cases hf

end StreamIDComponents

end Rbsrt
