import Rbsrt.General.Heap
import Rbsrt.General.OrderedHash
import Rbsrt.General.Runs
import Rbsrt.Libsrt

/-!
# What the garbage collector sees

The structs of the extension hold Ruby objects: a server its acceptor block, a connection the two
blocks it is given. Ruby does not know of them. The collector asks the `dmark` functions, and frees
what neither they nor Ruby's own references lead to, at any time, also while a block is running. A
block that was forgotten there would be gone when an event comes in.

The operations below are the parts of the methods between which a collection can happen. Each of
them looks at the objects it needs with `deref`, which fails for one that has been freed.

## What is assumed of Ruby

A program works on objects it can reach, and the collector frees objects that cannot be reached. The
C stack counts: `self`, the arguments and the local variables `connections_by_socket` and
`rb_connection` are held while a method uses them. For a connection that has been taken out of the
table, `rb_connection` is all there is while its `at_close` block is running, and no `RB_GC_GUARD`
keeps a compiler from doing without it.

## Main results

* `Safe.step` — an operation finds all it needs, and leaves nothing dangling
* `neverDangles` — every run, with collections anywhere
-/

namespace Rbsrt

namespace Collector

/-! ### Objects -/

/-- The objects, with the numbers of the objects they refer to. A `Socket` and a `Client` refer to
none. The last are all other Ruby objects: blocks, Strings and what the user has. -/
inductive Obj
  | socket (fd : SRTSOCKET)
  | connection (fd : SRTSOCKET) (atDataBlock atCloseBlock : Option ℕ)
  | server (fd : SRTSOCKET) (acceptorBlock : Option ℕ) (connectionsBySocket : ℕ)
  | poll (socketsById : Option ℕ) (sockets : ℕ)
  | hash (entries : OrderedHash SRTSOCKET ℕ)
  | other (refs : List ℕ)

namespace Obj

/-- `rbsrt_connection_dmark`, `rbsrt_server_dmark` and `rbsrt_poll_dmark`; those of the other two
classes mark nothing. -/
def dmark : Obj → List ℕ
  | .connection _ atDataBlock atCloseBlock => atDataBlock.toList ++ atCloseBlock.toList
  | .server _ acceptorBlock _ => acceptorBlock.toList
  | .poll socketsById _ => socketsById.toList
  | _ => []

/-- The instance variables `@connections_by_socket` and `@sockets`. -/
def ivar : Obj → Option ℕ
  | .server _ _ connectionsBySocket => some connectionsBySocket
  | .poll _ sockets => some sockets
  | _ => none

/-- What Ruby marks by itself. -/
def rubyMark : Obj → List ℕ
  | .hash entries => entries.entries.map Prod.snd
  | .other refs => refs
  | o => o.ivar.toList

/-- What the collector marks. -/
def marked (o : Obj) : List ℕ := o.dmark ++ o.rubyMark

/-- `socket->socket`, for an object of any of the classes. -/
def fd : Obj → Option SRTSOCKET
  | .socket fd | .connection fd _ _ | .server fd _ _ => some fd
  | _ => none

/-- `server->acceptor_block = block` -/
def setAcceptorBlock (block : ℕ) : Obj → Obj
  | .server fd _ connectionsBySocket => .server fd (some block) connectionsBySocket
  | o => o

/-- `connection->at_data_block = block` -/
def setAtDataBlock (block : ℕ) : Obj → Obj
  | .connection fd _ atCloseBlock => .connection fd (some block) atCloseBlock
  | o => o

/-- `connection->at_close_block = block` -/
def setAtCloseBlock (block : ℕ) : Obj → Obj
  | .connection fd atDataBlock _ => .connection fd atDataBlock (some block)
  | o => o

/-- `removed_connection->at_close_block = 0` and the same for the other block. -/
def clearBlocks : Obj → Obj
  | .connection fd _ _ => .connection fd none none
  | o => o

/-- `rb_hash_aset(hash, INT2FIX(fd), object)` -/
def aset (fd : SRTSOCKET) (k : ℕ) : Obj → Obj
  | .hash entries => .hash (entries.aset fd k)
  | o => o

/-- `rb_hash_delete(hash, INT2FIX(fd))` -/
def delete (fd : SRTSOCKET) : Obj → Obj
  | .hash entries => .hash (entries.delete fd)
  | o => o

/-- One more reference in an object of the user. -/
def capture (k : ℕ) : Obj → Obj
  | .other refs => .other (k :: refs)
  | o => o

/-- One reference less. -/
def forget (k : ℕ) : Obj → Obj
  | .other refs => .other (refs.erase k)
  | o => o

variable {o : Obj} {j k : ℕ}

theorem mem_marked_setAcceptorBlock (h : j ∈ (o.setAcceptorBlock k).marked) :
    j ∈ o.marked ∨ j = k := by
  cases o with
  | server fd acceptorBlock connectionsBySocket =>
    simp only [setAcceptorBlock, marked, dmark, rubyMark, ivar, Option.toList_some,
      List.mem_append, List.mem_singleton] at h ⊢
    exact h.symm.imp_left Or.inr
  | _ => exact Or.inl h

theorem mem_marked_setAtDataBlock (h : j ∈ (o.setAtDataBlock k).marked) :
    j ∈ o.marked ∨ j = k := by
  cases o with
  | connection fd atDataBlock atCloseBlock =>
    simp only [setAtDataBlock, marked, dmark, rubyMark, ivar, Option.toList_some,
      Option.toList_none, List.append_nil, List.mem_append, List.mem_singleton] at h ⊢
    exact h.symm.imp_left Or.inr
  | _ => exact Or.inl h

theorem mem_marked_setAtCloseBlock (h : j ∈ (o.setAtCloseBlock k).marked) :
    j ∈ o.marked ∨ j = k := by
  cases o with
  | connection fd atDataBlock atCloseBlock =>
    simp only [setAtCloseBlock, marked, dmark, rubyMark, ivar, Option.toList_some,
      Option.toList_none, List.append_nil, List.mem_append, List.mem_singleton] at h ⊢
    exact h.imp_left Or.inl
  | _ => exact Or.inl h

theorem mem_marked_clearBlocks (h : j ∈ o.clearBlocks.marked) : j ∈ o.marked := by
  cases o with
  | connection fd atDataBlock atCloseBlock => exact absurd h List.not_mem_nil
  | _ => exact h

theorem mem_marked_aset {fd : SRTSOCKET} (h : j ∈ (o.aset fd k).marked) :
    j ∈ o.marked ∨ j = k := by
  cases o with
  | hash entries =>
    have hmem : j ∈ (entries.aset fd k).entries.map Prod.snd := h
    obtain ⟨e, he, rfl⟩ := List.mem_map.mp hmem
    rcases OrderedHash.mem_entries_aset he with rfl | he
    · exact Or.inr rfl
    · exact Or.inl (List.mem_map_of_mem (f := Prod.snd) he.1)
  | _ => exact Or.inl h

theorem mem_marked_delete {fd : SRTSOCKET} (h : j ∈ (o.delete fd).marked) : j ∈ o.marked := by
  cases o with
  | hash entries =>
    have hmem : j ∈ (entries.delete fd).entries.map Prod.snd := h
    obtain ⟨e, he, rfl⟩ := List.mem_map.mp hmem
    exact List.mem_map_of_mem (f := Prod.snd) (OrderedHash.mem_entries_delete.mp he).1
  | _ => exact h

theorem mem_marked_capture (h : j ∈ (o.capture k).marked) : j ∈ o.marked ∨ j = k := by
  cases o with
  | other refs => exact (List.mem_cons.mp h).symm
  | _ => exact Or.inl h

theorem mem_marked_forget (h : j ∈ (o.forget k).marked) : j ∈ o.marked := by
  cases o with
  | other refs => exact List.mem_of_mem_erase h
  | _ => exact h

end Obj

/-! ### Operations -/

/-- A freed object was looked at. -/
inductive Fault
  | dangling (k : ℕ)

/-- Looking at an object. -/
def deref (h : Heap Obj) (k : ℕ) : Except Fault Obj :=
  match h.objects k with
  | some o => .ok o
  | none => .error (.dangling k)

/-- The hash of a server or a poll, and its contents. -/
def registry (h : Heap Obj) (k : ℕ) : Except Fault (Option (ℕ × OrderedHash SRTSOCKET ℕ)) := do
  match (← deref h k).ivar with
  | none => .ok none
  | some c =>
    match ← deref h c with
    | .hash entries => .ok (some (c, entries))
    | _ => .ok none

/-- The object that is registered for a socket, with the number of the hash. -/
def lookup (h : Heap Obj) (k : ℕ) (fd : SRTSOCKET) : Except Fault (Option (ℕ × ℕ)) := do
  match ← registry h k with
  | none => .ok none
  | some (c, entries) => .ok ((entries.lookup fd).map fun found => (c, found))

/-- Calling a block, if there is one. -/
def callBlock (h : Heap Obj) : Option ℕ → Except Fault (Heap Obj)
  | none => .ok h
  | some block => do
    let _ ← deref h block
    .ok h

/-- Writing into an object. -/
def store (h : Heap Obj) (k : ℕ) (f : Obj → Obj) : Except Fault (Heap Obj) := do
  let _ ← deref h k
  .ok (h.modify k f)

/-- What can happen next. -/
inductive Op
  | newSocket (fd : SRTSOCKET)
  | newServer (fd : SRTSOCKET)
  | newPoll
  | newOther (refs : List ℕ)
  | capture (k l : ℕ)
  | forget (k l : ℕ)
  | hold (k : ℕ)
  | drop (k : ℕ)
  | start (server block : ℕ)
  | accept (server : ℕ) (fd : SRTSOCKET)
  | callAcceptor (server : ℕ)
  | register (server connection : ℕ)
  | setAtDataBlock (connection block : ℕ)
  | setAtCloseBlock (connection block : ℕ)
  | data (server : ℕ) (fd : SRTSOCKET)
  | remove (server : ℕ) (fd : SRTSOCKET)
  | callClose (connection : ℕ)
  | clear (connection : ℕ)
  | pollAdd (poll socket : ℕ)
  | pollRemove (poll socket : ℕ)
  | pollWait (poll : ℕ) (fd : SRTSOCKET)
  | collect (k : ℕ)

/-- Registering an object for its socket: the last step of accepting a connection, and of
`rbsrt_poll_add_socket`. -/
def registerIn (h : Heap Obj) (k object : ℕ) : Except Fault (Heap Obj) := do
  match (← deref h object).fd, ← registry h k with
  | some fd, some (c, _) => .ok (h.modify c (.aset fd object))
  | _, _ => .ok h

/-- One operation. -/
def step (h : Heap Obj) : Op → Except Fault (Heap Obj)
  | .newSocket fd => .ok (h.alloc (.socket fd))
  | .newServer fd =>
    .ok (((h.alloc (.hash .empty)).alloc (.server fd none h.next)).drop h.next)
  | .newPoll => .ok (((h.alloc (.hash .empty)).alloc (.poll none h.next)).drop h.next)
  | .newOther refs => .ok (h.alloc (.other refs))
  | .capture k l => .ok (h.modify k (.capture l))
  | .forget k l => .ok (h.modify k (.forget l))
  | .hold k => .ok (h.hold k)
  | .drop k => .ok (h.drop k)
  | .start server block => store h server (.setAcceptorBlock block)
  -- `TypedData_Make_Struct` and `connection->socket = remote_fd`
  | .accept server fd => do
    let _ ← deref h server
    .ok (h.alloc (.connection fd none none))
  | .callAcceptor server => do
    match ← deref h server with
    | .server _ acceptorBlock _ => callBlock h acceptorBlock
    | _ => .ok h
  | .register server connection => registerIn h server connection
  | .setAtDataBlock connection block => store h connection (.setAtDataBlock block)
  | .setAtCloseBlock connection block => store h connection (.setAtCloseBlock block)
  -- the `SRTS_CONNECTED` branch
  | .data server fd => do
    match ← lookup h server fd with
    | none => .ok h
    | some (_, connection) =>
      match ← deref h connection with
      | .connection _ atDataBlock _ => callBlock h atDataBlock
      | _ => .ok h
  -- the `SRTS_BROKEN` branch up to `RBSRT_CONNECTION_UNWRAP`; `rb_connection` is held from here on
  | .remove server fd => do
    match ← lookup h server fd with
    | none => .ok h
    | some (c, connection) => do
      let _ ← deref h connection
      .ok ((h.hold connection).modify c (.delete fd))
  | .callClose connection => do
    match ← deref h connection with
    | .connection _ _ atCloseBlock => callBlock h atCloseBlock
    | _ => .ok h
  | .clear connection => store h connection .clearBlocks
  | .pollAdd poll socket => registerIn h poll socket
  | .pollRemove poll socket => do
    match (← deref h socket).fd, ← registry h poll with
    | some fd, some (c, _) => .ok (h.modify c (.delete fd))
    | _, _ => .ok h
  -- what `wait` reports is in its result
  | .pollWait poll fd => do
    match ← lookup h poll fd with
    | none => .ok h
    | some (_, socket) => do
      let _ ← deref h socket
      .ok (h.hold socket)
  | .collect k => .ok (h.free k)

/-- The objects an operation is done with. -/
def Op.args : Op → List ℕ
  | .newSocket _ | .newServer _ | .newPoll | .drop _ | .collect _ => []
  | .newOther refs => refs
  | .capture k l => [k, l]
  | .forget k _ | .hold k => [k]
  | .start server block => [server, block]
  | .accept server _ | .callAcceptor server | .data server _ | .remove server _ => [server]
  | .register server connection => [server, connection]
  | .setAtDataBlock connection block | .setAtCloseBlock connection block => [connection, block]
  | .callClose connection | .clear connection => [connection]
  | .pollAdd poll socket | .pollRemove poll socket => [poll, socket]
  | .pollWait poll _ => [poll]

/-- The object that is collected. -/
def Op.collected : Op → Option ℕ
  | .collect k => some k
  | _ => none

/-- An object that can be reached. -/
abbrev Reachable (h : Heap Obj) (k : ℕ) : Prop := h.Reachable Obj.marked k

/-- What is assumed of Ruby and of the compiler: an operation is done with objects that can be
reached, also from the C stack, and an object is collected that cannot be. -/
def Legal (h : Heap Obj) (op : Op) : Prop :=
  (∀ k ∈ op.args, Reachable h k) ∧ ∀ k ∈ op.collected, ¬ Reachable h k

/-- Nothing that can be reached has been freed. -/
abbrev Safe (h : Heap Obj) : Prop := h.Safe Obj.marked

variable {h : Heap Obj} {k : ℕ}

/-! ### Looking at objects -/

theorem deref_of_safe (hsafe : Safe h) (hk : Reachable h k) :
    ∃ o, deref h k = .ok o ∧ h.objects k = some o := by
  obtain ⟨o, ho⟩ := Option.isSome_iff_exists.mp (hsafe k hk)
  exact ⟨o, by rw [deref, ho], ho⟩

theorem reachable_of_marked {o : Obj} {j : ℕ} (hk : Reachable h k) (ho : h.objects k = some o)
    (hj : j ∈ o.marked) : Reachable h j := hk.refers ⟨o, ho, hj⟩

theorem mem_marked_of_ivar {o : Obj} {c : ℕ} (hc : o.ivar = some c) : c ∈ o.marked := by
  cases o with
  | server fd acceptorBlock connectionsBySocket =>
    obtain rfl := Option.some.inj hc
    exact List.mem_append_right _ List.mem_cons_self
  | poll socketsById sockets =>
    obtain rfl := Option.some.inj hc
    exact List.mem_append_right _ List.mem_cons_self
  | _ => cases hc

/-- The hash of a server or a poll can be reached, and all that is registered there. -/
theorem registry_of_safe (hsafe : Safe h) (hk : Reachable h k) :
    ∃ r, registry h k = .ok r ∧ ∀ c entries, r = some (c, entries) →
      Reachable h c ∧ ∀ e ∈ entries.entries, Reachable h e.2 := by
  obtain ⟨o, hderef, ho⟩ := deref_of_safe hsafe hk
  cases hivar : o.ivar with
  | none =>
    refine ⟨none, ?_, by simp⟩
    simp only [registry, hderef, hivar, bind, Except.bind]
  | some c =>
    have hc := reachable_of_marked hk ho (mem_marked_of_ivar hivar)
    obtain ⟨o', hderef', ho'⟩ := deref_of_safe hsafe hc
    cases o' with
    | hash entries =>
      refine ⟨some (c, entries), ?_, ?_⟩
      · simp only [registry, hderef, hivar, hderef', bind, Except.bind]
      · rintro c' entries' ⟨⟩
        exact ⟨hc, fun e he => reachable_of_marked hc ho' (List.mem_map_of_mem (f := Prod.snd) he)⟩
    | _ =>
      refine ⟨none, ?_, by simp⟩
      simp only [registry, hderef, hivar, hderef', bind, Except.bind]

/-- And what is found there. -/
theorem lookup_of_safe (hsafe : Safe h) (hk : Reachable h k) (fd : SRTSOCKET) :
    ∃ r, lookup h k fd = .ok r ∧ ∀ c found, r = some (c, found) →
      Reachable h c ∧ Reachable h found := by
  obtain ⟨r, hregistry, hreach⟩ := registry_of_safe hsafe hk
  rcases r with _ | ⟨c, entries⟩
  · refine ⟨none, ?_, by simp⟩
    simp only [lookup, hregistry, bind, Except.bind]
  · refine ⟨(entries.lookup fd).map fun found => (c, found), ?_, ?_⟩
    · simp only [lookup, hregistry, bind, Except.bind]
    · intro c' found hfound
      obtain ⟨v, hv, heq⟩ := Option.map_eq_some_iff.mp hfound
      obtain ⟨rfl, rfl⟩ := Prod.mk.inj heq
      obtain ⟨hc, hentries⟩ := hreach c entries rfl
      exact ⟨hc, hentries (fd, v) (OrderedHash.lookup_eq_some_iff.mp hv)⟩

theorem callBlock_of_safe (hsafe : Safe h) {block : Option ℕ}
    (hblock : ∀ b ∈ block.toList, Reachable h b) : callBlock h block = .ok h := by
  cases block with
  | none => rfl
  | some b =>
    obtain ⟨o, hderef, -⟩ := deref_of_safe hsafe (hblock b List.mem_cons_self)
    simp only [callBlock, hderef, bind, Except.bind]

/-! ### One operation -/

/-- What a program may write into an object: nothing new, or something it can reach. -/
theorem modify_of_safe (hsafe : Safe h) {f : ℕ → Obj → Obj} (c : ℕ)
    (hf : ∀ {o : Obj} {j : ℕ}, j ∈ (f k o).marked → j ∈ o.marked ∨ j = k) (hk : Reachable h k) :
    Safe (h.modify c (f k)) := by
  refine Heap.Safe.modify hsafe fun o j hj => ?_
  rcases hf hj with hold | rfl
  · exact Or.inl hold
  · exact Or.inr hk

theorem store_eq (hsafe : Safe h) (hk : Reachable h k) (f : Obj → Obj) :
    store h k f = .ok (h.modify k f) := by
  obtain ⟨o, hderef, -⟩ := deref_of_safe hsafe hk
  simp only [store, hderef, bind, Except.bind]

theorem store_of_safe (hsafe : Safe h) {f : ℕ → Obj → Obj} {c : ℕ} (hc : Reachable h c)
    (hf : ∀ {o : Obj} {j : ℕ}, j ∈ (f k o).marked → j ∈ o.marked ∨ j = k) (hk : Reachable h k) :
    ∃ h', store h c (f k) = .ok h' ∧ Safe h' :=
  ⟨_, store_eq hsafe hc _, modify_of_safe hsafe c hf hk⟩

theorem registerIn_of_safe (hsafe : Safe h) (hk : Reachable h k) {object : ℕ}
    (hobject : Reachable h object) : ∃ h', registerIn h k object = .ok h' ∧ Safe h' := by
  obtain ⟨o, hderef, -⟩ := deref_of_safe hsafe hobject
  obtain ⟨r, hregistry, -⟩ := registry_of_safe hsafe hk
  rcases hfd : o.fd with _ | fd
  · refine ⟨h, ?_, hsafe⟩
    simp only [registerIn, hderef, hregistry, hfd, bind, Except.bind]
  rcases r with _ | ⟨c, entries⟩
  · refine ⟨h, ?_, hsafe⟩
    simp only [registerIn, hderef, hregistry, hfd, bind, Except.bind]
  · refine ⟨h.modify c (.aset fd object), ?_, ?_⟩
    · simp only [registerIn, hderef, hregistry, hfd, bind, Except.bind]
    · exact modify_of_safe (f := Obj.aset fd) hsafe c Obj.mem_marked_aset hobject

/-- An object with a hash of its own. -/
theorem newWithHash_of_safe (hsafe : Safe h) {o : Obj} (ho : o.marked = [h.next]) :
    Safe (((h.alloc (.hash .empty)).alloc o).drop h.next) := by
  have hhash : Safe (h.alloc (.hash .empty)) :=
    Heap.Safe.alloc hsafe fun j hj => absurd hj List.not_mem_nil
  refine Heap.Safe.drop (Heap.Safe.alloc hhash fun j hj => ?_)
  rw [ho] at hj
  obtain rfl := List.mem_singleton.mp hj
  exact .of_held List.mem_cons_self

/-- **One operation** finds all it needs, and leaves nothing dangling. -/
theorem Safe.step (hsafe : Safe h) {op : Op} (hop : Legal h op) :
    ∃ h', step h op = .ok h' ∧ Safe h' := by
  obtain ⟨hargs, hdead⟩ := hop
  cases op with
  | newSocket fd =>
    exact ⟨_, rfl, Heap.Safe.alloc hsafe fun j hj => absurd hj List.not_mem_nil⟩
  | newServer fd => exact ⟨_, rfl, newWithHash_of_safe hsafe rfl⟩
  | newPoll => exact ⟨_, rfl, newWithHash_of_safe hsafe rfl⟩
  | newOther refs => exact ⟨_, rfl, Heap.Safe.alloc hsafe fun j hj => hargs j hj⟩
  | capture k l =>
    exact ⟨_, rfl, modify_of_safe (f := Obj.capture) hsafe k Obj.mem_marked_capture
      (hargs l (by simp [Op.args]))⟩
  | forget k l =>
    exact ⟨_, rfl, Heap.Safe.modify hsafe fun _ _ hj => Or.inl (Obj.mem_marked_forget hj)⟩
  | hold k => exact ⟨_, rfl, Heap.Safe.hold hsafe (hargs k (by simp [Op.args]))⟩
  | drop k => exact ⟨_, rfl, Heap.Safe.drop hsafe⟩
  | start server block =>
    exact store_of_safe (f := Obj.setAcceptorBlock) hsafe (hargs server (by simp [Op.args]))
      Obj.mem_marked_setAcceptorBlock (hargs block (by simp [Op.args]))
  | accept server fd =>
    obtain ⟨o, hderef, -⟩ := deref_of_safe hsafe (hargs server (by simp [Op.args]))
    refine ⟨h.alloc (.connection fd none none), ?_, ?_⟩
    · simp only [Collector.step, hderef, bind, Except.bind]
    · exact Heap.Safe.alloc hsafe fun j hj => absurd hj List.not_mem_nil
  | callAcceptor server =>
    have hserver := hargs server (by simp [Op.args])
    obtain ⟨o, hderef, ho⟩ := deref_of_safe hsafe hserver
    refine ⟨h, ?_, hsafe⟩
    simp only [Collector.step, hderef, bind, Except.bind]
    cases o with
    | server fd acceptorBlock connectionsBySocket =>
      exact callBlock_of_safe hsafe fun b hb =>
        reachable_of_marked hserver ho (List.mem_append_left _ hb)
    | _ => rfl
  | register server connection =>
    exact registerIn_of_safe hsafe (hargs server (by simp [Op.args]))
      (hargs connection (by simp [Op.args]))
  | setAtDataBlock connection block =>
    exact store_of_safe (f := Obj.setAtDataBlock) hsafe (hargs connection (by simp [Op.args]))
      Obj.mem_marked_setAtDataBlock (hargs block (by simp [Op.args]))
  | setAtCloseBlock connection block =>
    exact store_of_safe (f := Obj.setAtCloseBlock) hsafe (hargs connection (by simp [Op.args]))
      Obj.mem_marked_setAtCloseBlock (hargs block (by simp [Op.args]))
  | data server fd =>
    obtain ⟨r, hlookup, hreach⟩ := lookup_of_safe hsafe (hargs server (by simp [Op.args])) fd
    refine ⟨h, ?_, hsafe⟩
    rcases r with _ | ⟨c, connection⟩
    · simp only [Collector.step, hlookup, bind, Except.bind]
    · have hconnection := (hreach c connection rfl).2
      obtain ⟨o, hderef, ho⟩ := deref_of_safe hsafe hconnection
      simp only [Collector.step, hlookup, hderef, bind, Except.bind]
      cases o with
      | connection fd atDataBlock atCloseBlock =>
        refine callBlock_of_safe hsafe fun b hb => reachable_of_marked hconnection ho ?_
        exact List.mem_append_left _ (List.mem_append_left _ hb)
      | _ => rfl
  | remove server fd =>
    obtain ⟨r, hlookup, hreach⟩ := lookup_of_safe hsafe (hargs server (by simp [Op.args])) fd
    rcases r with _ | ⟨c, connection⟩
    · refine ⟨h, ?_, hsafe⟩
      simp only [Collector.step, hlookup, bind, Except.bind]
    · have hconnection := (hreach c connection rfl).2
      obtain ⟨o, hderef, -⟩ := deref_of_safe hsafe hconnection
      refine ⟨(h.hold connection).modify c (.delete fd), ?_, ?_⟩
      · simp only [Collector.step, hlookup, hderef, bind, Except.bind]
      · exact Heap.Safe.modify (Heap.Safe.hold hsafe hconnection) fun _ _ hj =>
          Or.inl (Obj.mem_marked_delete hj)
  | callClose connection =>
    have hconnection := hargs connection (by simp [Op.args])
    obtain ⟨o, hderef, ho⟩ := deref_of_safe hsafe hconnection
    refine ⟨h, ?_, hsafe⟩
    simp only [Collector.step, hderef, bind, Except.bind]
    cases o with
    | connection fd atDataBlock atCloseBlock =>
      refine callBlock_of_safe hsafe fun b hb => reachable_of_marked hconnection ho ?_
      exact List.mem_append_left _ (List.mem_append_right _ hb)
    | _ => rfl
  | clear connection =>
    have hconnection := hargs connection (by simp [Op.args])
    refine ⟨_, store_eq hsafe hconnection .clearBlocks, ?_⟩
    exact Heap.Safe.modify hsafe fun _ _ hj => Or.inl (Obj.mem_marked_clearBlocks hj)
  | pollAdd poll socket =>
    exact registerIn_of_safe hsafe (hargs poll (by simp [Op.args]))
      (hargs socket (by simp [Op.args]))
  | pollRemove poll socket =>
    obtain ⟨o, hderef, -⟩ := deref_of_safe hsafe (hargs socket (by simp [Op.args]))
    obtain ⟨r, hregistry, -⟩ := registry_of_safe hsafe (hargs poll (by simp [Op.args]))
    rcases hfd : o.fd with _ | fd
    · refine ⟨h, ?_, hsafe⟩
      simp only [Collector.step, hderef, hregistry, hfd, bind, Except.bind]
    rcases r with _ | ⟨c, entries⟩
    · refine ⟨h, ?_, hsafe⟩
      simp only [Collector.step, hderef, hregistry, hfd, bind, Except.bind]
    · refine ⟨h.modify c (.delete fd), ?_, ?_⟩
      · simp only [Collector.step, hderef, hregistry, hfd, bind, Except.bind]
      · exact Heap.Safe.modify hsafe fun _ _ hj => Or.inl (Obj.mem_marked_delete hj)
  | pollWait poll fd =>
    obtain ⟨r, hlookup, hreach⟩ := lookup_of_safe hsafe (hargs poll (by simp [Op.args])) fd
    rcases r with _ | ⟨c, socket⟩
    · refine ⟨h, ?_, hsafe⟩
      simp only [Collector.step, hlookup, bind, Except.bind]
    · have hsocket := (hreach c socket rfl).2
      obtain ⟨o, hderef, -⟩ := deref_of_safe hsafe hsocket
      refine ⟨h.hold socket, ?_, Heap.Safe.hold hsafe hsocket⟩
      simp only [Collector.step, hlookup, hderef, bind, Except.bind]
  | collect k => exact ⟨_, rfl, Heap.Safe.free hsafe (hdead k rfl)⟩

/-! ### Runs -/

/-- The heap after an operation. -/
def next (h : Heap Obj) (op : Op) : Heap Obj := (step h op).toOption.getD h

/-- The operation finds all it needs, and every object that is registered with a server or a poll
that can be reached is there. -/
structure Intact (h : Heap Obj) (op : Op) : Prop where
  finds : ∃ h', step h op = .ok h'
  keeps : ∀ k, Reachable h k → ∀ c entries, registry h k = .ok (some (c, entries)) →
    ∀ e ∈ entries.entries, h.Alive e.2

theorem Safe.intact (hsafe : Safe h) {op : Op} (hop : Legal h op) : Intact h op where
  finds := by
    obtain ⟨h', hstep, -⟩ := hsafe.step hop
    exact ⟨h', hstep⟩
  keeps := by
    intro k hk c entries hregistry e he
    obtain ⟨r, hr, hreach⟩ := registry_of_safe hsafe hk
    obtain rfl := Except.ok.inj (hregistry.symm.trans hr)
    exact hsafe e.2 ((hreach c entries rfl).2 e he)

/-- **No operation meets an object that has been freed**, in any run, with collections anywhere in
between; and no object is collected while it is registered. -/
theorem neverDangles {ops : List Op} (hops : Runs.Along next Legal Heap.empty ops) :
    Runs.Along next Intact Heap.empty ops := by
  have hnext : ∀ h op, Safe h → Legal h op → Safe (next h op) := by
    intro h op hsafe hop
    obtain ⟨h', hstep, hsafe'⟩ := hsafe.step hop
    rw [next, hstep]
    exact hsafe'
  refine (Runs.along_congr (C := fun _ _ => True) hnext ?_ Heap.safe_empty hops).mpr
    (Runs.along_const.mpr fun _ _ => trivial)
  exact fun h op hsafe hop => iff_of_true (hsafe.intact hop) trivial

theorem legal_of_held {op : Op} (hargs : ∀ k ∈ op.args, k ∈ h.held) (hop : op.collected = none) :
    Legal h op := by
  refine ⟨fun k hk => .of_held (hargs k hk), fun k hk => ?_⟩
  rw [hop] at hk
  cases hk

/-- A connection whose block for the end only the connection refers to, and which only the server
refers to. When it is removed the block is called, cleared and collected. -/
def closing : List Op :=
  [.newServer 7, .newOther [], .start 1 2, .accept 1 9, .callAcceptor 1, .newOther [],
    .setAtCloseBlock 3 4, .register 1 3, .drop 4, .drop 3, .remove 1 9, .callClose 3, .clear 3,
    .collect 4]

theorem neverDangles_closing : Runs.Along next Intact Heap.empty closing := by
  have hdead : ¬ Reachable (Runs.exec next Heap.empty (closing.take 13)) 4 :=
    Heap.not_reachable_of_closed [0, 1, 2, 3] (by decide) (by decide) (by decide)
  refine neverDangles ⟨legal_of_held (by decide) rfl, legal_of_held (by decide) rfl,
    legal_of_held (by decide) rfl, legal_of_held (by decide) rfl, legal_of_held (by decide) rfl,
    legal_of_held (by decide) rfl, legal_of_held (by decide) rfl, legal_of_held (by decide) rfl,
    legal_of_held (by decide) rfl, legal_of_held (by decide) rfl, legal_of_held (by decide) rfl,
    legal_of_held (by decide) rfl, legal_of_held (by decide) rfl, ⟨by simp [Op.args], ?_⟩, trivial⟩
  rintro k ⟨⟩
  exact hdead

/-- If `rb_connection` is not held any more when the block has been called, the connection may be
gone when it is to be cleared. -/
example :
    (step (Runs.exec next Heap.empty (closing.take 12 ++ [.drop 3, .collect 3])) (.clear 3)).isOk =
      false := by
  decide

end Collector

end Rbsrt
