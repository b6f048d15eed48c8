import Rbsrt.General.OrderedHash
import Rbsrt.General.Runs
import Rbsrt.Libsrt
import Rbsrt.Ruby

/-!
# The sockets of an `SRT::Poll`

A poll keeps the sockets it watches twice: libsrt's epoll has a set of socket ids, and the hash
`@sockets` has the Ruby object for each of them. `Poll#wait` looks up what libsrt reports in the
hash, and drops what it does not find there.

`add` changes the epoll, then the hash; `remove` changes the hash, then the epoll; `update` changes
the epoll only. Each of them can raise between the two.

## Main results

* `Poll.call_agree_iff` — which calls keep the two together
* `Poll.agree_iff` — which sequences of calls do
-/

namespace Rbsrt

/-- A socket object: its identity, its class, and the socket it carries. -/
structure SocketObject where
  object : ℕ
  className : String
  socket : SRTSOCKET
deriving DecidableEq

/-- What can stand for an event: a Symbol or String, or anything else. -/
inductive EventArg
  | id (key : Key)
  | other (inspect : String)

/-- An `SRT::Poll`: the sockets its epoll watches, and `@sockets`. -/
structure Poll where
  epoll : List SRTSOCKET
  sockets : OrderedHash SRTSOCKET SocketObject

namespace Poll

/-- What a method raises. -/
inductive Error
  | type (message : String)
  | argument (message : String)
  | srt
deriving DecidableEq

/-- What a method returns. -/
inductive Returned
  | self
  | nil
  | socket (o : SocketObject)
deriving DecidableEq

/-- What libsrt answers during a call: the state the socket is in, and whether the change of the
epoll succeeds. -/
structure Answers where
  getsockstate : SockStatus
  ok : Bool

/-! ### The arguments -/

/-- `RBSRT_SOCKET_BASE_UNWRAP` -/
def unwrap (o : SocketObject) (a : Answers) : Except Error SRTSOCKET :=
  if a.getsockstate = .nonexist then
    .error (.type ("wrong type " ++ o.className ++ " is not a SRT Socket Type"))
  else .ok o.socket

/-- `rb_to_id` -/
def rbToId : EventArg → Except Error RString
  | .id key => .ok key.toS
  | .other inspect => .error (.type (inspect ++ " is not a symbol nor a string"))

/-- One pass of the loop over the event names. -/
def addEvent (events : EpollFlags) (id : RString) : Except Error EpollFlags :=
  if id = "in".toList ∨ id = "read".toList then .ok { events with inp := true }
  else if id = "out".toList ∨ id = "write".toList then .ok { events with out := true }
  else if id = "err".toList ∨ id = "error".toList then .ok { events with err := true }
  else if id = "et".toList ∨ id = "edge".toList then .ok { events with et := true }
  else .error (.argument "poll event must be one of: :in, :out, :err, :edge")

/-- `rbsrt_epoll_event_with_splat(splat, splat_len)`, with the events so far. -/
def epollEventWithSplat (events : EpollFlags) : List EventArg → Except Error EpollFlags
  | [] => .ok events
  | arg :: splat => do
    let id ← rbToId arg
    let events ← addEvent events id
    epollEventWithSplat events splat

/-- `int events = 0` -/
def noEvents : EpollFlags := ⟨false, false, false, false⟩

/-- Some event is waited for. -/
def Wanted (events : EpollFlags) : Prop := events.inp ∨ events.out ∨ events.err

instance (events : EpollFlags) : Decidable (Wanted events) :=
  inferInstanceAs (Decidable (_ ∨ _ ∨ _))

/-! ### The methods -/

/-- `srt_epoll_add_usock` and `srt_epoll_update_usock`, if they succeed: the socket is watched for
the events, or no longer if there are none. -/
def watch (p : Poll) (fd : SRTSOCKET) (events : EpollFlags) : Poll :=
  { p with
    epoll := if Wanted events then p.epoll.insert fd else p.epoll.filter (· ≠ fd) }

/-- `rbsrt_poll_add_socket` -/
def add (p : Poll) (o : SocketObject) (splat : List EventArg) (a : Answers) :
    Poll × Except Error Returned :=
  match unwrap o a with
  | .error e => (p, .error e)
  | .ok fd =>
    match epollEventWithSplat noEvents splat with
    | .error e => (p, .error e)
    | .ok events =>
      if a.ok then ({ p.watch fd events with sockets := p.sockets.aset fd o }, .ok .self)
      else (p, .error .srt)

/-- `rbsrt_poll_update_socket` -/
def update (p : Poll) (o : SocketObject) (splat : List EventArg) (a : Answers) :
    Poll × Except Error Returned :=
  match epollEventWithSplat noEvents splat with
  | .error e => (p, .error e)
  | .ok events =>
    match unwrap o a with
    | .error e => (p, .error e)
    | .ok fd => if a.ok then (p.watch fd events, .ok .nil) else (p, .error .srt)

/-- `rbsrt_poll_remove_socket` -/
def remove (p : Poll) (o : SocketObject) (a : Answers) : Poll × Except Error Returned :=
  match unwrap o a with
  | .error e => (p, .error e)
  | .ok fd =>
    let removed := (p.sockets.lookup fd).elim .nil .socket
    let p := { p with sockets := p.sockets.delete fd }
    if a.ok then ({ p with epoll := p.epoll.filter (· ≠ fd) }, .ok removed)
    else (p, .error .srt)

/-- A call of a method. -/
inductive Call
  | add (o : SocketObject) (splat : List EventArg)
  | update (o : SocketObject) (splat : List EventArg)
  | remove (o : SocketObject)

/-- A call, and what libsrt answers. -/
def call (p : Poll) : Call × Answers → Poll × Except Error Returned
  | (.add o splat, a) => p.add o splat a
  | (.update o splat, a) => p.update o splat a
  | (.remove o, a) => p.remove o a

/-- The poll after a call, whether it has raised or not. -/
def step (p : Poll) (i : Call × Answers) : Poll := (p.call i).1

/-- `rbsrt_poll_initialize` -/
def init : Poll := ⟨[], .empty⟩

/-! ### What the methods do -/

theorem unwrap_cases (o : SocketObject) (a : Answers) :
    (∃ e, unwrap o a = .error e) ∧ a.getsockstate = .nonexist ∨
      unwrap o a = .ok o.socket ∧ a.getsockstate ≠ .nonexist := by
  rw [unwrap]
  split
  · next h => exact Or.inl ⟨⟨_, rfl⟩, h⟩
  · next h => exact Or.inr ⟨rfl, h⟩

/-- The socket exists and the event names are known, so that libsrt is called. -/
def Reaches (splat : List EventArg) (a : Answers) : Prop :=
  a.getsockstate ≠ .nonexist ∧ (epollEventWithSplat noEvents splat).isOk

instance (splat : List EventArg) (a : Answers) : Decidable (Reaches splat a) :=
  inferInstanceAs (Decidable (_ ∧ _))

/-- **`add`** changes both copies, or raises and changes neither. -/
theorem add_cases (p : Poll) (o : SocketObject) (splat : List EventArg) (a : Answers) :
    (∃ e, p.add o splat a = (p, .error e)) ∨
      ∃ events, epollEventWithSplat noEvents splat = .ok events ∧
        p.add o splat a =
          ({ p.watch o.socket events with sockets := p.sockets.aset o.socket o }, .ok .self) := by
  rw [add]
  rcases unwrap_cases o a with ⟨⟨e, he⟩, -⟩ | ⟨hfd, -⟩
  · exact Or.inl ⟨e, by rw [he]⟩
  rw [hfd]
  cases hsplat : epollEventWithSplat noEvents splat with
  | error e => exact Or.inl ⟨e, rfl⟩
  | ok events =>
    cases hok : a.ok with
    | false => exact Or.inl ⟨.srt, rfl⟩
    | true => exact Or.inr ⟨events, rfl, rfl⟩

/-- **`update`** changes the epoll only, or raises and changes nothing. -/
theorem update_cases (p : Poll) (o : SocketObject) (splat : List EventArg) (a : Answers) :
    ¬ (Reaches splat a ∧ a.ok) ∧ (∃ e, p.update o splat a = (p, .error e)) ∨
      (Reaches splat a ∧ a.ok) ∧ ∃ events, epollEventWithSplat noEvents splat = .ok events ∧
        p.update o splat a = (p.watch o.socket events, .ok .nil) := by
  rw [update, Reaches]
  cases hsplat : epollEventWithSplat noEvents splat with
  | error e => exact Or.inl ⟨by simp [Except.isOk, Except.toBool], e, rfl⟩
  | ok events =>
    rcases unwrap_cases o a with ⟨⟨e, he⟩, hnone⟩ | ⟨hfd, hsome⟩
    · exact Or.inl ⟨by simp [hnone], e, by simp only [he]⟩
    · simp only [hfd]
      cases hok : a.ok with
      | false => exact Or.inl ⟨by simp, .srt, rfl⟩
      | true => exact Or.inr ⟨⟨⟨hsome, rfl⟩, rfl⟩, events, rfl, rfl⟩

/-- **`remove`** changes both copies, or raises; and if it was libsrt that failed, then the hash has
changed already. -/
theorem remove_cases (p : Poll) (o : SocketObject) (a : Answers) :
    a.getsockstate = .nonexist ∧ (∃ e, p.remove o a = (p, .error e)) ∨
      a.getsockstate ≠ .nonexist ∧ a.ok = false ∧
        p.remove o a = ({ p with sockets := p.sockets.delete o.socket }, .error .srt) ∨
      a.getsockstate ≠ .nonexist ∧ a.ok = true ∧
        p.remove o a =
          (⟨p.epoll.filter (· ≠ o.socket), p.sockets.delete o.socket⟩,
            .ok ((p.sockets.lookup o.socket).elim .nil .socket)) := by
  rw [remove]
  rcases unwrap_cases o a with ⟨⟨e, he⟩, hnone⟩ | ⟨hfd, hsome⟩
  · exact Or.inl ⟨hnone, e, by rw [he]⟩
  · rw [hfd]
    cases hok : a.ok with
    | false => exact Or.inr (Or.inl ⟨hsome, rfl, rfl⟩)
    | true => exact Or.inr (Or.inr ⟨hsome, rfl, rfl⟩)

/-! ### Event names -/

/-- The names that make libsrt wait for something; `:et` and `:edge` do not. -/
def eventNames : List RString :=
  ["in".toList, "read".toList, "out".toList, "write".toList, "err".toList, "error".toList]

/-- One of the events that can be waited for is among the arguments. -/
def Asks (splat : List EventArg) : Prop := ∃ key : Key, .id key ∈ splat ∧ key.toS ∈ eventNames

theorem mem_eventNames_iff {id : RString} : id ∈ eventNames ↔
    (id = "in".toList ∨ id = "read".toList) ∨ (id = "out".toList ∨ id = "write".toList) ∨
      (id = "err".toList ∨ id = "error".toList) := by
  simp only [eventNames, List.mem_cons, List.not_mem_nil, or_false, or_assoc]

theorem addEvent_wanted {events events' : EpollFlags} {id : RString}
    (h : addEvent events id = .ok events') (hwanted : Wanted events ∨ id ∈ eventNames) :
    Wanted events' := by
  rw [addEvent] at h
  by_cases hin : id = "in".toList ∨ id = "read".toList
  · rw [if_pos hin] at h
    obtain rfl := Except.ok.inj h
    exact Or.inl rfl
  rw [if_neg hin] at h
  by_cases hout : id = "out".toList ∨ id = "write".toList
  · rw [if_pos hout] at h
    obtain rfl := Except.ok.inj h
    exact Or.inr (Or.inl rfl)
  rw [if_neg hout] at h
  by_cases herr : id = "err".toList ∨ id = "error".toList
  · rw [if_pos herr] at h
    obtain rfl := Except.ok.inj h
    exact Or.inr (Or.inr rfl)
  rw [if_neg herr] at h
  by_cases het : id = "et".toList ∨ id = "edge".toList
  · rw [if_pos het] at h
    obtain rfl := Except.ok.inj h
    refine hwanted.resolve_right fun hmem => ?_
    rcases mem_eventNames_iff.mp hmem with hmem | hmem | hmem
    · exact hin hmem
    · exact hout hmem
    · exact herr hmem
  · rw [if_neg het] at h
    cases h

/-- **Event names that ask for something give a set that is not empty.** -/
theorem epollEventWithSplat_wanted {splat : List EventArg} {events events' : EpollFlags}
    (h : epollEventWithSplat events splat = .ok events') (hwanted : Wanted events ∨ Asks splat) :
    Wanted events' := by
  induction splat generalizing events with
  | nil =>
    obtain rfl := Except.ok.inj h
    exact hwanted.resolve_right fun ⟨_, hmem, _⟩ => List.not_mem_nil hmem
  | cons arg splat ih =>
    cases arg with
    | other inspect => cases h
    | id key =>
      cases hadd : addEvent events key.toS with
      | error e =>
        rw [epollEventWithSplat, rbToId] at h
        simp [bind, Except.bind, hadd] at h
      | ok next =>
        have hrest : epollEventWithSplat next splat = .ok events' := by
          rw [epollEventWithSplat, rbToId] at h
          simpa [bind, Except.bind, hadd] using h
        rcases hwanted with hwanted | ⟨key', hmem, hname⟩
        · exact ih hrest (Or.inl (addEvent_wanted hadd (Or.inl hwanted)))
        · rcases List.mem_cons.mp hmem with heq | hmem
          · obtain rfl := EventArg.id.inj heq
            exact ih hrest (Or.inl (addEvent_wanted hadd (Or.inr hname)))
          · exact ih hrest (Or.inr ⟨key', hmem, hname⟩)

/-! ### Objects are found under their socket -/

/-- Every object is stored under the socket it carries. -/
def Carried (sockets : OrderedHash SRTSOCKET SocketObject) : Prop :=
  ∀ fd o, sockets.lookup fd = some o → o.socket = fd

theorem carried_init : Carried init.sockets := fun _ _ h => nomatch h

theorem Carried.aset {sockets : OrderedHash SRTSOCKET SocketObject} (h : Carried sockets)
    (o : SocketObject) : Carried (sockets.aset o.socket o) := by
  intro fd o' ho'
  rcases eq_or_ne fd o.socket with rfl | hne
  · rw [OrderedHash.lookup_aset_self] at ho'
    rw [Option.some.inj ho']
  · rw [OrderedHash.lookup_aset_of_ne hne] at ho'
    exact h fd o' ho'

theorem Carried.delete {sockets : OrderedHash SRTSOCKET SocketObject} (h : Carried sockets)
    (fd : SRTSOCKET) : Carried (sockets.delete fd) := by
  intro fd' o ho
  rcases eq_or_ne fd' fd with rfl | hne
  · rw [OrderedHash.lookup_delete_self] at ho
    cases ho
  · rw [OrderedHash.lookup_delete_of_ne hne] at ho
    exact h fd' o ho

/-- No call changes that. -/
theorem Carried.step {p : Poll} (h : Carried p.sockets) (i : Call × Answers) :
    Carried (p.step i).sockets := by
  obtain ⟨c, a⟩ := i
  cases c with
  | add o splat =>
    change Carried (p.add o splat a).1.sockets
    rcases p.add_cases o splat a with ⟨e, he⟩ | ⟨events, -, hadd⟩
    · rwa [he]
    · rw [hadd]
      exact h.aset o
  | update o splat =>
    change Carried (p.update o splat a).1.sockets
    rcases p.update_cases o splat a with ⟨-, e, he⟩ | ⟨-, events, -, hupdate⟩
    · rwa [he]
    · rw [hupdate]
      exact h
  | remove o =>
    change Carried (p.remove o a).1.sockets
    rcases p.remove_cases o a with ⟨-, e, he⟩ | ⟨-, -, hremove⟩ | ⟨-, -, hremove⟩
    · rwa [he]
    · rw [hremove]
      exact h.delete o.socket
    · rw [hremove]
      exact h.delete o.socket

theorem carried_exec {p : Poll} (h : Carried p.sockets) (is : List (Call × Answers)) :
    Carried (Runs.exec step p is).sockets := by
  induction is generalizing p with
  | nil => exact h
  | cons i is ih => exact ih (h.step i)

/-! ### Agreement -/

/-- The hash has the sockets the epoll watches, each with an object that carries it. -/
structure Agree (p : Poll) : Prop where
  keys : ∀ fd, fd ∈ p.sockets.keys ↔ fd ∈ p.epoll
  objects : ∀ fd o, p.sockets.lookup fd = some o → o.socket = fd

theorem agree_init : Agree init := ⟨fun _ => Iff.rfl, carried_init⟩

/-- `add` and `update` are called with at least one event that can be waited for. -/
def Asking : Call × Answers → Prop
  | (.add _ splat, _) | (.update _ splat, _) => Asks splat
  | (.remove _, _) => True

/-- What keeps the two copies together: a socket is not updated unless it is in the hash, and libsrt
does not fail to remove one that is. -/
def Orderly (p : Poll) : Call × Answers → Prop
  | (.add _ _, _) => True
  | (.update o splat, a) => Reaches splat a → a.ok → o.socket ∈ p.sockets.keys
  | (.remove o, a) => a.getsockstate ≠ .nonexist → a.ok = false → o.socket ∉ p.sockets.keys

instance (p : Poll) : ∀ i, Decidable (Orderly p i)
  | (.add _ _, _) => isTrue trivial
  | (.update _ _, _) => inferInstanceAs (Decidable (_ → _ → _))
  | (.remove _, _) => inferInstanceAs (Decidable (_ → _ → _))

variable {p : Poll} {o : SocketObject} {splat : List EventArg} {a : Answers}

theorem mem_epoll_watch {fd fd' : SRTSOCKET} {events : EpollFlags} (h : Wanted events) :
    fd' ∈ (p.watch fd events).epoll ↔ fd' = fd ∨ fd' ∈ p.epoll := by
  rw [watch, if_pos h, List.mem_insert_iff]

theorem Agree.add (h : Agree p) (hasks : Asks splat) : Agree (p.add o splat a).1 := by
  rcases p.add_cases o splat a with ⟨e, he⟩ | ⟨events, hsplat, hadd⟩
  · rw [he]
    exact h
  · have hwanted := epollEventWithSplat_wanted hsplat (Or.inr hasks)
    rw [hadd]
    refine ⟨fun fd => ?_, Carried.aset h.objects o⟩
    show fd ∈ (p.sockets.aset o.socket o).keys ↔ fd ∈ (p.watch o.socket events).epoll
    rw [OrderedHash.mem_keys_aset, mem_epoll_watch hwanted, h.keys]

/-- `update` subscribes a socket that the hash does not have. -/
theorem Agree.update_iff (h : Agree p) (hasks : Asks splat) :
    Agree (p.update o splat a).1 ↔ (Reaches splat a → a.ok → o.socket ∈ p.sockets.keys) := by
  rcases p.update_cases o splat a with ⟨hnot, e, he⟩ | ⟨⟨hreaches, hok⟩, events, hsplat, hupdate⟩
  · rw [he]
    exact iff_of_true h fun hreaches hok => absurd ⟨hreaches, hok⟩ hnot
  · have hwatch : ∀ fd, fd ∈ (p.watch o.socket events).epoll ↔ fd = o.socket ∨ fd ∈ p.epoll :=
      fun fd => mem_epoll_watch (epollEventWithSplat_wanted hsplat (Or.inr hasks))
    rw [hupdate]
    constructor
    · intro hagree _ _
      exact (hagree.keys o.socket).mpr ((hwatch o.socket).mpr (Or.inl rfl))
    · intro hmem
      refine ⟨fun fd => ?_, h.objects⟩
      show fd ∈ p.sockets.keys ↔ fd ∈ (p.watch o.socket events).epoll
      rw [hwatch, ← h.keys]
      refine ⟨Or.inr, ?_⟩
      rintro (rfl | hfd)
      · exact hmem hreaches hok
      · exact hfd

/-- `remove` takes a socket out of the hash that libsrt may keep. -/
theorem Agree.remove_iff (h : Agree p) : Agree (p.remove o a).1 ↔
    (a.getsockstate ≠ .nonexist → a.ok = false → o.socket ∉ p.sockets.keys) := by
  rcases p.remove_cases o a with ⟨hnone, e, he⟩ | ⟨hsome, hok, hremove⟩ | ⟨-, hok, hremove⟩
  · rw [he]
    exact iff_of_true h fun hsome => absurd hnone hsome
  · rw [hremove]
    constructor
    · intro hagree _ _ hmem
      have hdeleted : o.socket ∈ (p.sockets.delete o.socket).keys :=
        (hagree.keys o.socket).mpr ((h.keys o.socket).mp hmem)
      exact (OrderedHash.mem_keys_delete.mp hdeleted).2 rfl
    · intro hnot
      refine ⟨fun fd => ?_, Carried.delete h.objects o.socket⟩
      show fd ∈ (p.sockets.delete o.socket).keys ↔ fd ∈ p.epoll
      rw [OrderedHash.mem_keys_delete, ← h.keys]
      refine ⟨And.left, fun hfd => ⟨hfd, ?_⟩⟩
      rintro rfl
      exact hnot hsome hok hfd
  · rw [hremove]
    refine iff_of_true ⟨fun fd => ?_, Carried.delete h.objects o.socket⟩ fun _ hnot => ?_
    · show fd ∈ (p.sockets.delete o.socket).keys ↔ fd ∈ p.epoll.filter (· ≠ o.socket)
      rw [OrderedHash.mem_keys_delete, h.keys, List.mem_filter, decide_eq_true_iff]
    · rw [hok] at hnot
      cases hnot

/-- **Which calls keep the two copies together.** -/
theorem call_agree_iff (h : Agree p) {i : Call × Answers} (hasking : Asking i) :
    Agree (p.step i) ↔ Orderly p i := by
  obtain ⟨c, a⟩ := i
  cases c with
  | add o splat => exact iff_of_true (h.add hasking) trivial
  | update o splat => exact h.update_iff hasking
  | remove o => exact h.remove_iff

/-- **Which sequences of calls keep the two copies together**: the hash and the epoll agree after
each call exactly if all of the calls are orderly. -/
theorem agree_iff {is : List (Call × Answers)} (hasking : ∀ i ∈ is, Asking i) :
    (∀ p ∈ Runs.states step init is, Agree p) ↔ Runs.Along step Orderly init is :=
  Runs.forall_mem_states_iff (A := fun _ i => Asking i)
    (fun _ _ h hi horderly => (call_agree_iff h hi).mpr horderly)
    (fun _ _ h hi => call_agree_iff h hi) agree_init (Runs.along_const.mpr hasking)

/-- A socket object, and libsrt with nothing against it. -/
def socketObject : SocketObject := ⟨0, "SRT::Socket", 2⟩

def succeeding : Answers := ⟨.connected, true⟩

def failing : Answers := ⟨.connected, false⟩

/-- A socket is added, updated, not added once more because of a name that is no event, and
removed. -/
def orderlyCalls : List (Call × Answers) :=
  [(.add socketObject [.id (.sym "in".toList)], succeeding),
    (.update socketObject [.id (.sym "out".toList)], succeeding),
    (.add socketObject [.id (.sym "in".toList), .id (.sym "foo".toList)], succeeding),
    (.remove socketObject, succeeding)]

theorem asks_of_id {key : Key} (h : key.toS ∈ eventNames) (hmem : EventArg.id key ∈ splat) :
    Asks splat := ⟨key, hmem, h⟩

theorem agree_orderlyCalls :
    (Runs.exec step init orderlyCalls).epoll = [] ∧
      ∀ p ∈ Runs.states step init orderlyCalls, Agree p := by
  refine ⟨by decide, (agree_iff ?_).mpr (by decide)⟩
  have hin : (Key.sym "in".toList).toS ∈ eventNames := by decide
  have hout : (Key.sym "out".toList).toS ∈ eventNames := by decide
  simp only [orderlyCalls, List.forall_mem_cons, Asking]
  exact ⟨asks_of_id hin (by simp), asks_of_id hout (by simp), asks_of_id hin (by simp), trivial,
    fun _ h => absurd h List.not_mem_nil⟩

/-- Never added, and updated. -/
def updateOnly : List (Call × Answers) :=
  [(.update socketObject [.id (.sym "in".toList)], succeeding)]

/-- Added, and not removed because libsrt fails. -/
def failedRemove : List (Call × Answers) :=
  [(.add socketObject [.id (.sym "in".toList)], succeeding), (.remove socketObject, failing)]

/-- A socket that was never added is updated, and the epoll watches a socket the hash does not have;
or the removal of one that was added fails, with the same result. -/
theorem not_agree_updateOnly :
    (¬ ∀ p ∈ Runs.states step init updateOnly, Agree p) ∧
      ¬ ∀ p ∈ Runs.states step init failedRemove, Agree p := by
  refine ⟨fun hagree => ?_, fun hagree => ?_⟩
  · have hend : Agree (Runs.exec step init updateOnly) := hagree _ (by simp [updateOnly])
    exact absurd ((hend.keys 2).mpr (by decide)) (by decide)
  · have hend : Agree (Runs.exec step init failedRemove) := hagree _ (by simp [failedRemove])
    exact absurd ((hend.keys 2).mpr (by decide)) (by decide)

end Poll

end Rbsrt
