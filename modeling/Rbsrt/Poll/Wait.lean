import Mathlib.Data.List.Perm.Subperm
import Rbsrt.Poll.Registry

/-!
# `Poll#wait`

`wait` counts the sockets in `@sockets`, gives libsrt an array of that many entries to fill while it
is blocked without the GVL, and sorts what is in the array afterwards into sockets that can be read,
that can be written and that have an error. The sockets are looked up in `@sockets` as it is then.

## The entry behind the last one

Any other thread may have called `add`, `update` and `remove` in the meantime, and more sockets may
be ready than were counted. libsrt then says so by returning one more than the array was said to
have, and the loop goes up to that number. The array really is longer, so nothing is read out of
bounds; but the entry behind the last one was not written by this call, and if what is left there
happens to be a socket in `@sockets`, it is reported.

## Main results

* `of_sortEvents` — what the three arrays hold
* `not_waitsExactly` — the entry behind the last one
* `waitsExactly_iff` — exactly the ready sockets are reported unless more were ready than counted
* `fits_of_agree` — which does not happen while the hash and the epoll agree
-/

namespace Rbsrt

namespace Poll

/-! ### Sorting -/

/-- The three events `wait` asks for. -/
inductive Flag
  | inp
  | out
  | err

/-- `event->events & SRT_EPOLL_IN`, and so on. -/
def hasFlag (events : EpollFlags) : Flag → Bool
  | .inp => events.inp
  | .out => events.out
  | .err => events.err

/-- `readables`, `writables` and `errors` -/
structure Sorted where
  readables : List SocketObject
  writables : List SocketObject
  errors : List SocketObject
deriving DecidableEq

/-- The array for an event. -/
def Sorted.of (r : Sorted) : Flag → List SocketObject
  | .inp => r.readables
  | .out => r.writables
  | .err => r.errors

/-- One pass of the `for` loop. -/
def sortEvent (sockets : OrderedHash SRTSOCKET SocketObject) (r : Sorted) (event : Event) :
    Sorted :=
  match sockets.lookup event.fd with
  | none => r
  | some sock =>
    let r := if event.events.inp then { r with readables := r.readables ++ [sock] } else r
    let r := if event.events.out then { r with writables := r.writables ++ [sock] } else r
    if event.events.err then { r with errors := r.errors ++ [sock] } else r

/-- The `for` loop. -/
def sortEvents (sockets : OrderedHash SRTSOCKET SocketObject) (events : List Event) : Sorted :=
  events.foldl (sortEvent sockets) ⟨[], [], []⟩

/-! ### The method -/

/-- What can be given as the timeout. -/
inductive Timeout
  | none
  | fixnum (n : ℤ)
  | other (className : String)

/-- What `wait` raises before it blocks. -/
inductive WaitError
  | type (message : String)
  | range
  | overflow
deriving DecidableEq

/-- `FIX2INT` -/
def fix2int (n : ℤ) : Except WaitError ℤ :=
  if -2 ^ 31 ≤ n ∧ n < 2 ^ 31 then .ok n else .error .range

/-- `epoll_timeout` -/
def epollTimeout : Timeout → Except WaitError ℤ
  | .none => .ok (-1)
  | .fixnum n => fix2int n
  | .other className =>
    .error (.type ("wrong argument type " ++ className ++ " (expected Integer)"))

/-- Everything up to the blocking call: `num_sockets`. The array has 8 entries for fewer than 8
sockets, and `num_sockets + 8` otherwise. That is an `int` too; C says nothing about one that
overflows, and this is where the model ends. -/
def prepare (p : Poll) (timeout : Timeout) : Except WaitError ℕ :=
  match epollTimeout timeout, fix2int p.sockets.size with
  | .error e, _ => .error e
  | .ok _, .error e => .error e
  | .ok _, .ok _ => if p.sockets.size + 8 < 2 ^ 31 then .ok p.sockets.size else .error .overflow

/-- `rbsrt_poll_wait`, with what other threads call while it is blocked, what `srt_epoll_uwait`
finds, and what is in the array before it is written to. The arrays are returned, or yielded. -/
def wait (p : Poll) (timeout : Timeout) (calls : List (Call × Answers)) (u : Uwait)
    (memory : ℕ → Event) : Poll × Except WaitError Sorted :=
  match p.prepare timeout with
  | .error e => (p, .error e)
  | .ok numSockets =>
    let q := Runs.exec step p calls
    let numEvents := (u.returned numSockets).toInt.toNat
    (q, .ok (sortEvents q.sockets ((List.range numEvents).map (u.fill numSockets memory))))

/-! ### What is sorted where -/

variable {sockets : OrderedHash SRTSOCKET SocketObject} {flag : Flag}

/-- The socket an event puts into an array. -/
def found (sockets : OrderedHash SRTSOCKET SocketObject) (flag : Flag) (event : Event) :
    Option SocketObject :=
  if hasFlag event.events flag then sockets.lookup event.fd else none

theorem found_eq_some {event : Event} {o : SocketObject} :
    found sockets flag event = some o ↔
      hasFlag event.events flag ∧ sockets.lookup event.fd = some o := by
  rw [found]
  by_cases h : hasFlag event.events flag <;> simp [h]

theorem of_sortEvent (r : Sorted) (event : Event) :
    (sortEvent sockets r event).of flag = r.of flag ++ (found sockets flag event).toList := by
  rw [sortEvent, found]
  cases sockets.lookup event.fd with
  | none => by_cases h : hasFlag event.events flag <;> simp [h]
  | some sock =>
    by_cases hin : event.events.inp <;> by_cases hout : event.events.out <;>
      by_cases herr : event.events.err <;> cases flag <;>
        simp [Sorted.of, hasFlag, hin, hout, herr]

/-- **What the loop puts into an array**: the sockets that are found, in order. -/
theorem of_sortEvents (events : List Event) :
    (sortEvents sockets events).of flag = events.filterMap (found sockets flag) := by
  have hfold : ∀ (events : List Event) (r : Sorted),
      (events.foldl (sortEvent sockets) r).of flag =
        r.of flag ++ events.filterMap (found sockets flag) := by
    intro events
    induction events with
    | nil => intro r; simp
    | cons event events ih =>
      intro r
      rw [List.foldl_cons, ih, of_sortEvent, List.filterMap_cons]
      cases found sockets flag event <;> simp
  have hempty : (⟨[], [], []⟩ : Sorted).of flag = [] := by cases flag <;> rfl
  rw [sortEvents, hfold, hempty, List.nil_append]

/-! ### What `wait` reports -/

variable {p : Poll} {timeout : Timeout} {calls : List (Call × Answers)} {u : Uwait}

/-- Whatever is in memory, the arrays hold no socket twice, and hold exactly the objects that are in
`@sockets` for an event of this call with the right flag. -/
def WaitsExactly (p : Poll) (timeout : Timeout) (calls : List (Call × Answers)) (u : Uwait) :
    Prop :=
  ∀ memory r, (p.wait timeout calls u memory).2 = .ok r → ∀ flag,
    (r.of flag).Nodup ∧ ∀ o, o ∈ r.of flag ↔
      ∃ event ∈ u.entries p.sockets.size, hasFlag event.events flag ∧
        (Runs.exec step p calls).sockets.lookup event.fd = some o

theorem prepare_eq_ok {n : ℕ} (h : p.prepare timeout = .ok n) :
    n = p.sockets.size ∧ p.sockets.size + 8 < 2 ^ 31 := by
  rw [prepare] at h
  split at h
  · cases h
  · cases h
  · split at h
    · next hsize => exact ⟨(Except.ok.inj h).symm, hsize⟩
    · cases h

/-- What is sorted, if `wait` comes to block. -/
theorem wait_of_prepare (calls : List (Call × Answers)) (u : Uwait) {n : ℕ}
    (h : p.prepare timeout = .ok n) (memory : ℕ → Event) :
    (p.wait timeout calls u memory).2 =
      .ok (sortEvents (Runs.exec step p calls).sockets
        ((List.range (u.announced p.sockets.size)).map (u.fill p.sockets.size memory))) := by
  obtain ⟨rfl, hsize⟩ := prepare_eq_ok h
  rw [wait, h]
  simp only [Uwait.toNat_returned u (show p.sockets.size + 1 < 2 ^ 31 by omega)]

theorem mem_filterMap_found {events : List Event} {o : SocketObject} :
    o ∈ events.filterMap (found sockets flag) ↔
      ∃ event ∈ events, hasFlag event.events flag ∧ sockets.lookup event.fd = some o := by
  simp only [List.mem_filterMap, found_eq_some]

/-- Sockets that are reported once are sorted once, since no two of them are one object. -/
theorem nodup_filterMap_found {events : List Event} (hsockets : Carried sockets)
    (hdistinct : (events.map Event.fd).Nodup) :
    (events.filterMap (found sockets flag)).Nodup := by
  refine List.pairwise_filterMap.mpr ((List.pairwise_map.mp hdistinct).imp ?_)
  intro e e' hne o ho o' ho' heq
  subst heq
  have h := hsockets e.fd o (found_eq_some.mp ho).2
  have h' := hsockets e'.fd o (found_eq_some.mp ho').2
  exact hne (h.symm.trans h')

theorem nodup_entries (hu : u.Distinct) (n : ℕ) : ((u.entries n).map Event.fd).Nodup := by
  cases u with
  | error code neg => exact List.nodup_nil
  | ready events =>
    have htake : (events.take n).Sublist events := List.take_sublist n events
    exact List.Nodup.sublist (htake.map Event.fd) hu

/-- An entry behind the last one is reported, if it is a socket in `@sockets`. -/
theorem not_waitsExactly (hfits : ¬ u.Fits p.sockets.size)
    (hkeys : (Runs.exec step p calls).sockets.keys ≠ []) {n : ℕ}
    (hprepare : p.prepare timeout = .ok n) : ¬ WaitsExactly p timeout calls u := by
  intro h
  obtain ⟨fd, hfd⟩ := List.exists_mem_of_ne_nil _ hkeys
  obtain ⟨o, ho⟩ := OrderedHash.mem_keys_iff.mp hfd
  have hwait := wait_of_prepare calls u hprepare
    fun _ => ⟨fd, ⟨true, true, true, true⟩⟩
  rw [Uwait.map_fill_of_not_fits _ hfits] at hwait
  obtain ⟨hnodup, hmem⟩ := h _ _ hwait .inp
  rw [of_sortEvents, List.filterMap_append] at hnodup hmem
  have hlast : [(⟨fd, ⟨true, true, true, true⟩⟩ : Event)].filterMap
      (found (Runs.exec step p calls).sockets .inp) = [o] := by
    simp [found, hasFlag, ho]
  rw [hlast] at hnodup hmem
  -- either it is one of the reported sockets, and then it is there twice, or it is not
  have hwritten := mem_filterMap_found.mpr ((hmem o).mp (by simp))
  exact (List.nodup_append.mp hnodup).2.2 o hwritten o (by simp) rfl

theorem waitsExactly_of_fits (hcarried : Carried p.sockets) (hu : u.Distinct)
    (hfits : u.Fits p.sockets.size) : WaitsExactly p timeout calls u := by
  intro memory r hr flag
  cases hprepare : p.prepare timeout with
  | error e =>
    rw [wait, hprepare] at hr
    cases hr
  | ok n =>
    rw [wait_of_prepare calls u hprepare memory, Uwait.map_fill_of_fits memory hfits] at hr
    obtain rfl := Except.ok.inj hr
    rw [of_sortEvents]
    exact ⟨nodup_filterMap_found (carried_exec hcarried calls) (nodup_entries hu _),
      fun o => mem_filterMap_found⟩

/-- Nothing can be found in an empty hash. -/
theorem waitsExactly_of_keys_eq_nil (hkeys : (Runs.exec step p calls).sockets.keys = []) :
    WaitsExactly p timeout calls u := by
  intro memory r hr flag
  have hnone : ∀ fd, (Runs.exec step p calls).sockets.lookup fd = none := by
    intro fd
    rw [OrderedHash.lookup_eq_none_iff, hkeys]
    exact List.not_mem_nil
  cases hprepare : p.prepare timeout with
  | error e =>
    rw [wait, hprepare] at hr
    cases hr
  | ok n =>
    rw [wait_of_prepare calls u hprepare memory] at hr
    obtain rfl := Except.ok.inj hr
    have hfound : found (Runs.exec step p calls).sockets flag = fun _ => none := by
      funext event
      rw [found, hnone]
      exact ite_self none
    rw [of_sortEvents, hfound, List.filterMap_none]
    refine ⟨List.nodup_nil, fun o => ⟨fun h => absurd h List.not_mem_nil, ?_⟩⟩
    rintro ⟨event, -, -, hlookup⟩
    rw [hnone] at hlookup
    cases hlookup

/-- **When as many sockets are counted as can be ready**: the hash and the epoll agree, and libsrt
reports only sockets that were in the epoll when the wait began. -/
theorem fits_of_agree (h : Agree p) (hu : u.Distinct)
    (hwatched : ∀ event, u.Reports event → event.fd ∈ p.epoll) : u.Fits p.sockets.size := by
  cases u with
  | error code neg => trivial
  | ready events =>
    have hsub : events.map Event.fd ⊆ p.sockets.keys := by
      intro fd hfd
      obtain ⟨event, hevent, rfl⟩ := List.mem_map.mp hfd
      exact (h.keys event.fd).mpr (hwatched event hevent)
    have hle := (List.subperm_of_subset hu hsub).length_le
    rw [List.length_map, OrderedHash.length_keys] at hle
    exact hle

/-- So a poll whose sockets are added before the wait begins reports exactly the ready ones. -/
theorem waitsExactly_of_agree (h : Agree p) (hu : u.Distinct)
    (hwatched : ∀ event, u.Reports event → event.fd ∈ p.epoll) : WaitsExactly p timeout calls u :=
  waitsExactly_of_fits h.objects hu (fits_of_agree h hu hwatched)

/-- **`wait` reports exactly the ready sockets** in all memories, whatever was called before and
while it was blocked, if and only if no more sockets were ready than were counted, or there is
nothing left in `@sockets` to be found, or it raises before it blocks. -/
theorem waitsExactly_iff (before : List (Call × Answers)) (timeout : Timeout)
    (calls : List (Call × Answers)) (hu : u.Distinct) :
    WaitsExactly (Runs.exec step init before) timeout calls u ↔
      u.Fits (Runs.exec step init before).sockets.size ∨
        (Runs.exec step (Runs.exec step init before) calls).sockets.keys = [] ∨
          ∃ e, (Runs.exec step init before).prepare timeout = .error e := by
  have hcarried := carried_exec carried_init before
  generalize Runs.exec step init before = p at hcarried ⊢
  constructor
  · intro h
    by_cases hfits : u.Fits p.sockets.size
    · exact Or.inl hfits
    by_cases hkeys : (Runs.exec step p calls).sockets.keys = []
    · exact Or.inr (Or.inl hkeys)
    cases hprepare : p.prepare timeout with
    | error e => exact Or.inr (Or.inr ⟨e, rfl⟩)
    | ok n => exact absurd h (not_waitsExactly hfits hkeys hprepare)
  · rintro (hfits | hkeys | ⟨e, he⟩)
    · exact waitsExactly_of_fits hcarried hu hfits
    · exact waitsExactly_of_keys_eq_nil hkeys
    · intro memory r hr
      rw [wait, he] at hr
      cases hr

/-- The socket of the registry's examples, and a second one. -/
def secondObject : SocketObject := ⟨1, "SRT::Socket", 3⟩

def addFirst : Call × Answers := (.add socketObject [.id (.sym "in".toList)], succeeding)

def addSecond : Call × Answers := (.add secondObject [.id (.sym "in".toList)], succeeding)

/-- A socket that can be read. -/
def readyToRead (fd : SRTSOCKET) : Event := ⟨fd, ⟨true, false, false, false⟩⟩

/-- The second socket is removed while the wait is blocked, and both are reported. -/
theorem waitsExactly_removed :
    WaitsExactly (Runs.exec step init [addFirst, addSecond]) .none
      [(.remove secondObject, succeeding)] (.ready [readyToRead 3, readyToRead 2]) :=
  (waitsExactly_iff (u := .ready [readyToRead 3, readyToRead 2]) [addFirst, addSecond] .none _
    (show (List.map Event.fd [readyToRead 3, readyToRead 2]).Nodup by decide)).mpr
    (Or.inl (show 2 ≤ (Runs.exec step init [addFirst, addSecond]).sockets.size by decide))

/-- The second socket is added while the wait is blocked, and both can be read: what is left in the
array decides about the second. -/
theorem not_waitsExactly_added :
    ¬ WaitsExactly (Runs.exec step init [addFirst]) .none [addSecond]
      (.ready [readyToRead 2, readyToRead 3]) := by
  intro h
  obtain ⟨-, hmem⟩ := h (fun _ => ⟨3, ⟨false, false, true, false⟩⟩)
    ⟨[socketObject], [], [secondObject]⟩ (by decide) .err
  obtain ⟨event, hevent, herr, -⟩ := (hmem secondObject).mp (by decide)
  obtain rfl : event = readyToRead 2 := List.mem_singleton.mp hevent
  cases herr

end Poll

end Rbsrt
