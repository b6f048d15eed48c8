import Rbsrt.StreamID.Hosts
import Rbsrt.StreamID.Recompile
import Rbsrt.StreamID.Routes

/-!
# The last word

Nothing keeps a streamid from naming a field more than once, under one name or under both. The pairs
are set one after the other, and what is left in the end can be said without going through them:

* a text field has the last value that is given for it, and a mode or a type the last one that is on
  its list;
* the host is the last one, without its path;
* the resource name is the last one that is given as such, wherever it stands. A path is only taken
  for it if there is none and was none before, and then it is the first path and not the last;
* a custom value is the last one under its key, and stands where the key stood first.

`declared` is the object this describes, and `foldl_setStr_eq_declared` proves it to be the one that
`merge_str!` leaves behind.

## Main results

* `lookup_declared`, `keys_declared` — the custom values
* `declared_cons` — one pair
* `mergeStr_declares` — every object and every string
* `parse_join` — a streamid as it is written
-/

namespace Rbsrt

open Backtrack Slots

namespace StreamIDComponents

/-! ### What is declared -/

/-- The host in a value: what comes before the first slash, or all of it if nothing does. -/
def hostPart (v : RString) : RString :=
  if v.head? = some '/' then v else v.takeWhile (· ≠ '/')

/-- The value a pair gives to a field, if it names the field and the field accepts it. -/
def assigned (f : Field) (p : RString × RString) : Option Value :=
  if Field.ofName p.1 = some f then
    match f with
    | .mode => if p.2 ∈ modes then some (.sym p.2) else none
    | .hostName => some (.str (hostPart p.2))
    | .type => if p.2 ∈ types then some (.sym p.2) else none
    | _ => some (.str p.2)
  else none

/-- The value a field has after pairs, if it was `v` before. -/
def lastAssigned (f : Field) (v : Value) (ps : List (RString × RString)) : Value :=
  (lastWord (assigned f) ps).getD v

/-- The object that pairs make of `c`. -/
def declared (c : StreamIDComponents) (ps : List (RString × RString)) : StreamIDComponents where
  resourceName := lastAssigned .resourceName
    (if c.resourceName = .nil then .ofSlice (hostPath ps) else c.resourceName) ps
  userName := lastAssigned .userName c.userName ps
  mode := lastAssigned .mode c.mode ps
  hostName := lastAssigned .hostName c.hostName ps
  type := lastAssigned .type c.type ps
  sessionid := lastAssigned .sessionid c.sessionid ps
  extra := c.extra.asetAll ((customs ps).map strEntry)

theorem declared_nil (c : StreamIDComponents) : c.declared [] = c := by
  have hr : (if c.resourceName = .nil then .nil else c.resourceName) = c.resourceName := by
    split
    · next hnil => exact hnil.symm
    · rfl
  simp [declared, lastAssigned, lastWord, hostPath, customs, hr]

/-- A custom value is the last one under its key. -/
theorem lookup_declared (c : StreamIDComponents) (ps : List (RString × RString)) (k : Key) :
    (c.declared ps).extra.lookup k =
      (((customs ps).map strEntry).reverse.lookup k).or (c.extra.lookup k) :=
  OrderedHash.lookup_asetAll c.extra _ k

/-- New keys stand in the order in which they come first. -/
theorem keys_declared (c : StreamIDComponents) (ps : List (RString × RString)) :
    (c.declared ps).extra.keys = c.extra.keys ++
      ((((customs ps).map strEntry).map Prod.fst).filter fun k => k ∉ c.extra.keys).eraseDups :=
  OrderedHash.keys_asetAll c.extra _

/-! ### One pair -/

theorem lastAssigned_cons (f : Field) (v : Value) (p : RString × RString)
    (ps : List (RString × RString)) :
    lastAssigned f v (p :: ps) = lastAssigned f ((assigned f p).getD v) ps :=
  getD_lastWord_cons (assigned f) p ps v

/-- **A host**, in terms of its characters. -/
theorem splitHost_eq_hostPart (c : StreamIDComponents) (v : RString) :
    c.splitHost v =
      { c with
        hostName := .str (hostPart v)
        resourceName :=
          if '/' ∈ v ∧ c.resourceName = .nil then .str (v.dropWhile (· ≠ '/')).tail
          else c.resourceName } := by
  by_cases hhead : v.head? = some '/'
  · obtain ⟨b, rfl⟩ := List.head?_eq_some_iff.mp hhead
    have hsplit := splitHost_append (c := c) (b := b) (List.not_mem_nil (a := '/'))
    rw [List.nil_append, if_pos rfl] at hsplit
    rw [hsplit, hostPart, if_pos hhead]
    by_cases hnil : c.resourceName = .nil
    · simp [hnil]
    · simp [hnil, Value.truthy_iff.mpr hnil]
  · rw [splitHost_eq_hostSpec_iff.mpr hhead, hostSpec, hostPart, if_neg hhead]

/-- **One pair** more in front. -/
theorem declared_cons (c : StreamIDComponents) (p : RString × RString)
    (ps : List (RString × RString)) : c.declared (p :: ps) = (c.setStr p).declared ps := by
  rw [setStr]
  cases hname : Field.ofName p.1 with
  | none => simp [declared, lastAssigned_cons, assigned, hname, hostPath, customs_cons, strEntry]
  | some f =>
    cases f with
    | hostName =>
      -- the path is taken now if there is one and it is needed, and no later one is
      by_cases hslash : '/' ∈ p.2 <;> by_cases hnil : c.resourceName = .nil <;>
        simp [declared, lastAssigned_cons, assigned, hname, hostPath, customs_cons,
          splitHost_eq_hostPart, hslash, hnil]
    | mode => by_cases hm : p.2 ∈ modes <;>
      simp [declared, lastAssigned_cons, assigned, hname, hostPath, customs_cons, hm]
    | type => by_cases ht : p.2 ∈ types <;>
      simp [declared, lastAssigned_cons, assigned, hname, hostPath, customs_cons, ht]
    | _ => simp [declared, lastAssigned_cons, assigned, hname, hostPath, customs_cons]

/-! ### Pairs and strings -/

/-- **Setting pairs** makes the object they declare. -/
theorem foldl_setStr_eq_declared (ps : List (RString × RString)) (c : StreamIDComponents) :
    ps.foldl setStr c = c.declared ps := by
  induction ps generalizing c with
  | nil => exact (declared_nil c).symm
  | cons p ps ih => rw [List.foldl_cons, ih, declared_cons]

/-- **What `merge_str!` leaves** of any object and any string, its custom values one by one and in
their order. -/
theorem mergeStr_declares (c : StreamIDComponents) (s : RString) :
    c.mergeStr s = .ok (c.declared (scan pairRegexp s)) ∧
      (∀ k, (c.declared (scan pairRegexp s)).extra.lookup k =
        (((customs (scan pairRegexp s)).map strEntry).reverse.lookup k).or (c.extra.lookup k)) ∧
      (c.declared (scan pairRegexp s)).extra.keys = c.extra.keys ++
        ((((customs (scan pairRegexp s)).map strEntry).map Prod.fst).filter
          fun k => k ∉ c.extra.keys).eraseDups :=
  ⟨by rw [mergeStr_eq, foldl_setStr_eq_declared], lookup_declared c _, keys_declared c _⟩

/-- A streamid that is written out pair by pair, however often it names a field. -/
theorem parse_join (lib : URILib) {ps : List (RString × RString)}
    (hps : ∀ p ∈ ps, IsKey p.1 ∧ IsVal p.2) :
    parse lib (header ++ join ps) = .ok (fresh.declared ps) := by
  rw [parse_header_join lib hps, foldl_setStr_eq_declared]

/-- The last host goes with the first path. -/
example : fresh.mergeStr "h=a.nl/x,m=publish,h=b.nl/y,m=live".toList =
    .ok { fresh with
      hostName := .str "b.nl".toList
      resourceName := .str "x".toList
      mode := .sym "publish".toList } := by decide

end StreamIDComponents

end Rbsrt
