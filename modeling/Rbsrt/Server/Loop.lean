import Mathlib.Logic.Function.Basic
import Rbsrt.General.OrderedHash
import Rbsrt.General.Runs
import Rbsrt.Libsrt

/-!
# The loop of `SRT::Server#start`

`rbsrt_server_start` waits for a batch of epoll events and handles them one after the other. An
event is dispatched on the state its socket is in *when the event is handled*, not on what was
reported: a listening socket accepts, a broken, closed or unknown one is removed, a connected one
is read from, once.

## The environment

Everything the loop does not decide itself is an answer (`Answers`) that comes with the event:
what the libsrt calls return, and what the user's block does. A block may register blocks on any
connection and close any connection (`Action`), and it returns a value or raises. A run is a list
of batches of events with their answers.

## The state

Connections are Ruby objects. They are kept in a heap and referred to by number, since a user's
block may hold on to one and the table `@connections_by_socket` holds references. Next to the
state of the process stand the two parts of libsrt's state the loop changes: the sockets that are
open, and the sockets the server's epoll watches.

What the loop does to the outside is recorded in a history (`Observation`).

## Main results

* `Server.handleEvent` — one pass of the loop
* `Server.callBlock_sameTables` — what a block cannot touch
-/

namespace Rbsrt

/-- A Proc, by its identity. -/
abbrev Proc := ℕ

/-- `rbsrt_connection_t` -/
structure Connection where
  socket : SRTSOCKET
  atDataBlock : Option Proc
  atCloseBlock : Option Proc
deriving DecidableEq

/-- `rbsrt_server_t` and `@connections_by_socket`, with the heap of connection objects, the open
sockets and the watched ones. `raised` says that an exception has left the loop. -/
structure Server (w : ℕ) where
  socket : SRTSOCKET
  numConnections : BitVec w
  connectionsBySocket : OrderedHash SRTSOCKET ℕ
  heap : ℕ → Connection
  allocated : ℕ
  opened : List SRTSOCKET
  epoll : List SRTSOCKET
  raised : Bool

/-- What a block does to a connection it has a reference to. -/
inductive Action
  | atData (connection : ℕ) (block : Proc)
  | atClose (connection : ℕ) (block : Proc)
  | close (connection : ℕ)

/-- One call of a block: what it does, and the truth value of what it returns, or nothing if it
raises. -/
structure BlockRun where
  actions : List Action
  result : Option Bool

/-- What the environment answers while one event is handled. `recvmsg2` gets the size of the
buffer; no result stands for `SRT_ERROR`. -/
structure Answers where
  getsockstate : SockStatus
  accept : SRTSOCKET
  addUsock : Bool
  recvmsg2 : ℕ → Option Bytes
  block : BlockRun

/-- What the outside gets to see. -/
inductive Observation
  | callAcceptor (connection : ℕ) (object : Connection)
  | accepted (connection : ℕ) (object : Connection)
  | rejected (connection : ℕ)
  | removed (connection : ℕ)
  | received (fd : SRTSOCKET) (data : Bytes)
  | setAtData (connection : ℕ) (block : Proc)
  | callAtData (connection : ℕ) (block : Proc) (data : Bytes)
  | callAtClose (connection : ℕ) (block : Proc)
deriving DecidableEq

/-- `read_buf_size` -/
def readBufSize : ℕ := payloadSize * 8

namespace Server

variable {w : ℕ}

/-- A server and its history. -/
abbrev History (w : ℕ) := Runs.Recorded (Server w) Observation

/-! ### Steps on the state -/

/-- `srt_close(fd)`, which also takes the socket out of every epoll. -/
def srtClose (s : Server w) (fd : SRTSOCKET) : Server w :=
  { s with opened := s.opened.filter (· ≠ fd), epoll := s.epoll.filter (· ≠ fd) }

/-- `srt_epoll_add_usock(epollid, fd, …)`, which fails for a socket that is not open. -/
def epollAddUsock (s : Server w) (fd : SRTSOCKET) (ok : Bool) : Server w :=
  if ok ∧ fd ∈ s.opened then { s with epoll := s.epoll.insert fd } else s

/-- `srt_epoll_remove_usock(epollid, fd)` -/
def epollRemoveUsock (s : Server w) (fd : SRTSOCKET) : Server w :=
  { s with epoll := s.epoll.filter (· ≠ fd) }

/-- A change of one connection object. -/
def modifyConnection (s : Server w) (c : ℕ) (f : Connection → Connection) : Server w :=
  { s with heap := Function.update s.heap c (f (s.heap c)) }

/-- What `srt_accept` returned, in a new connection object. -/
def newConnection (s : Server w) (remoteFd : SRTSOCKET) : Server w :=
  { s with
    opened := if remoteFd = SRT_INVALID_SOCK then s.opened else s.opened.insert remoteFd
    heap := Function.update s.heap s.allocated ⟨remoteFd, none, none⟩
    allocated := s.allocated + 1 }

/-- An exception leaves the loop. -/
def raise (s : Server w) : Server w := { s with raised := true }

/-! ### Blocks -/

/-- What one action of a block does. -/
def perform (s : Server w) : Action → Server w × List Observation
  | .atData c block =>
    (s.modifyConnection c fun conn => { conn with atDataBlock := some block },
      [.setAtData c block])
  | .atClose c block =>
    (s.modifyConnection c fun conn => { conn with atCloseBlock := some block }, [])
  | .close c => (s.srtClose (s.heap c).socket, [])

/-- A block is called. -/
def callBlock (h : History w) (actions : List Action) : History w :=
  Runs.exec (Runs.record perform) h actions

/-! ### The three branches -/

/-- A new connection object is what the acceptor block is called with. -/
def presentConnection (h : History w) (remoteFd : SRTSOCKET) : History w :=
  let c := h.state.allocated
  let h := h.update (·.newConnection remoteFd)
  h.tell (.callAcceptor c (h.state.heap c))

@[simp] theorem presentConnection_state (h : History w) (remoteFd : SRTSOCKET) :
    (presentConnection h remoteFd).state = h.state.newConnection remoteFd := rfl

@[simp] theorem presentConnection_log (h : History w) (remoteFd : SRTSOCKET) :
    (presentConnection h remoteFd).log =
      h.log ++ [.callAcceptor h.state.allocated ⟨remoteFd, none, none⟩] := by
  simp [presentConnection, newConnection]

/-- `case SRTS_LISTENING` -/
def acceptBranch (h : History w) (a : Answers) : History w :=
  let c := h.state.allocated
  let h := callBlock (presentConnection h a.accept) a.block.actions
  let connection := h.state.heap c
  match a.block.result with
  | none => h.update raise
  | some true =>
    (h.update fun s =>
      { s.epollAddUsock connection.socket a.addUsock with
        numConnections := s.numConnections + 1
        connectionsBySocket := s.connectionsBySocket.aset connection.socket c }).tell
      (.accepted c connection)
  | some false =>
    (h.update fun s =>
      { s.srtClose a.accept with numConnections := s.numConnections - 1 }).tell (.rejected c)

/-- The end of a removed connection: its `at_close` block is called, and then both blocks are
dropped. -/
def closeConnection (h : History w) (c : ℕ) (a : Answers) : History w :=
  match (h.state.heap c).atCloseBlock with
  | none => h.update (·.modifyConnection c fun conn => { conn with atDataBlock := none })
  | some block =>
    let h := callBlock (h.tell (.callAtClose c block)) a.block.actions
    match a.block.result with
    | none => h.update raise
    | some _ =>
      h.update (·.modifyConnection c fun conn =>
        { conn with atCloseBlock := none, atDataBlock := none })

/-- A connection is taken out of the table. -/
def unregister (h : History w) (sock : SRTSOCKET) (c : ℕ) : History w :=
  (h.update fun s =>
    { s with
      connectionsBySocket := s.connectionsBySocket.delete sock
      numConnections := s.numConnections - 1 }).tell (.removed c)

/-- `case SRTS_CLOSED`, `SRTS_NONEXIST` and `SRTS_BROKEN` -/
def removeBranch (h : History w) (sock : SRTSOCKET) (a : Answers) : History w :=
  let h := h.update (·.epollRemoveUsock sock)
  match h.state.connectionsBySocket.lookup sock with
  | none => h
  | some c => closeConnection (unregister h sock c) c a

/-- What has been read is passed to the `at_data` block of the connection, if it has one. -/
def deliver (h : History w) (c : ℕ) (data : Bytes) (a : Answers) : History w :=
  match (h.state.heap c).atDataBlock with
  | none => h
  | some block =>
    let h := callBlock (h.tell (.callAtData c block data)) a.block.actions
    match a.block.result with
    | none => h.update raise
    | some _ => h

/-- `case SRTS_CONNECTED` -/
def dataBranch (h : History w) (event : Event) (a : Answers) : History w :=
  if event.events.inp then
    match a.recvmsg2 readBufSize with
    | some (byte :: bytes) =>
      let h := h.tell (.received event.fd (byte :: bytes))
      match h.state.connectionsBySocket.lookup event.fd with
      | none => h
      | some c => deliver h c (byte :: bytes) a
    | _ => h
  else h

/-- One pass of the `for` loop; nothing is handled any more after an exception. -/
def handleEvent (h : History w) (i : Event × Answers) : History w :=
  if h.state.raised then h
  else
    match i.2.getsockstate with
    | .listening => acceptBranch h i.2
    | .closed | .nonexist | .broken => removeBranch h i.1.fd i.2
    | .connected => dataBranch h i.1 i.2
    | _ => h

/-- The socket is gone. -/
def Gone (status : SockStatus) : Prop := status = .closed ∨ status = .nonexist ∨ status = .broken

instance (status : SockStatus) : Decidable (Gone status) := inferInstanceAs (Decidable (_ ∨ _))

/-- **What an event can do**: nothing, or what one of the three branches does. -/
theorem handleEvent_cases (h : History w) (i : Event × Answers) :
    (h.state.raised = true ∨ i.2.getsockstate ≠ .listening ∧ ¬ Gone i.2.getsockstate ∧
        i.2.getsockstate ≠ .connected) ∧ handleEvent h i = h ∨
      h.state.raised = false ∧ i.2.getsockstate = .listening ∧
        handleEvent h i = acceptBranch h i.2 ∨
      h.state.raised = false ∧ Gone i.2.getsockstate ∧
        handleEvent h i = removeBranch h i.1.fd i.2 ∨
      h.state.raised = false ∧ i.2.getsockstate = .connected ∧
        handleEvent h i = dataBranch h i.1 i.2 := by
  rw [handleEvent]
  cases h.state.raised with
  | true => simp
  | false => cases i.2.getsockstate <;> simp [Gone]

theorem handleEvent_of_gone {h : History w} {i : Event × Answers} (hraised : h.state.raised = false)
    (hgone : Gone i.2.getsockstate) : handleEvent h i = removeBranch h i.1.fd i.2 := by
  rw [handleEvent, hraised]
  rcases hgone with h | h | h <;> rw [h] <;> rfl

/-! ### What blocks cannot touch -/

/-- The tables, the counter and the sockets of the connection objects are the same. -/
structure SameTables (s s' : Server w) : Prop where
  numConnections : s'.numConnections = s.numConnections
  connectionsBySocket : s'.connectionsBySocket = s.connectionsBySocket
  allocated : s'.allocated = s.allocated
  raised : s'.raised = s.raised
  socket : ∀ c, (s'.heap c).socket = (s.heap c).socket

theorem SameTables.refl (s : Server w) : SameTables s s := ⟨rfl, rfl, rfl, rfl, fun _ => rfl⟩

theorem SameTables.trans {s s' s'' : Server w} (h : SameTables s s') (h' : SameTables s' s'') :
    SameTables s s'' where
  numConnections := h'.numConnections.trans h.numConnections
  connectionsBySocket := h'.connectionsBySocket.trans h.connectionsBySocket
  allocated := h'.allocated.trans h.allocated
  raised := h'.raised.trans h.raised
  socket := fun c => (h'.socket c).trans (h.socket c)

theorem modifyConnection_sameTables (s : Server w) (c : ℕ) {f : Connection → Connection}
    (hf : ∀ conn, (f conn).socket = conn.socket) : SameTables s (s.modifyConnection c f) := by
  refine ⟨rfl, rfl, rfl, rfl, fun d => ?_⟩
  rcases eq_or_ne d c with rfl | hd
  · simp [modifyConnection, hf]
  · simp [modifyConnection, hd]

theorem perform_sameTables (s : Server w) (action : Action) :
    SameTables s (s.perform action).1 := by
  cases action with
  | atData c block =>
    show SameTables s (s.modifyConnection c fun conn => { conn with atDataBlock := some block })
    exact modifyConnection_sameTables s c fun _ => rfl
  | atClose c block =>
    show SameTables s (s.modifyConnection c fun conn => { conn with atCloseBlock := some block })
    exact modifyConnection_sameTables s c fun _ => rfl
  | close c => exact ⟨rfl, rfl, rfl, rfl, fun _ => rfl⟩

/-- **A block leaves the tables alone**, whatever it does. -/
theorem callBlock_sameTables (h : History w) (actions : List Action) :
    SameTables h.state (callBlock h actions).state := by
  induction actions generalizing h with
  | nil => exact .refl _
  | cons action actions ih =>
    exact (perform_sameTables h.state action).trans (ih (Runs.record perform h action))

/-- **A block is seen only registering `at_data` blocks.** -/
theorem callBlock_log (h : History w) (actions : List Action) :
    ∃ l, (callBlock h actions).log = h.log ++ l ∧ ∀ o ∈ l, ∃ c block, o = .setAtData c block := by
  induction actions generalizing h with
  | nil => exact ⟨[], (List.append_nil _).symm, by simp⟩
  | cons action actions ih =>
    obtain ⟨l, hlog, hl⟩ := ih (Runs.record perform h action)
    refine ⟨(h.state.perform action).2 ++ l, hlog.trans (List.append_assoc _ _ _), ?_⟩
    intro o ho
    rcases List.mem_append.mp ho with ho | ho
    · cases action with
      | atData c block => exact ⟨c, block, by simpa [perform] using ho⟩
      | atClose c block => simp [perform] at ho
      | close c => simp [perform] at ho
    · exact hl o ho

/-- The acceptor block gets a connection with the socket that was accepted, and cannot change
that. -/
theorem socket_callBlock_presentConnection (h : History w) (fd : SRTSOCKET)
    (actions : List Action) :
    ((callBlock (presentConnection h fd) actions).state.heap h.state.allocated).socket = fd := by
  rw [(callBlock_sameTables (presentConnection h fd) actions).socket]
  simp [newConnection]

section Raised

variable {h : History w} {a : Answers}

theorem callBlock_raised (h : History w) (actions : List Action) :
    (callBlock h actions).state.raised = h.state.raised :=
  (callBlock_sameTables h actions).raised

theorem acceptBranch_raised (hraised : h.state.raised = false) (hblock : a.block.result ≠ none) :
    (acceptBranch h a).state.raised = false := by
  have hcall := (callBlock_raised (presentConnection h a.accept) a.block.actions).trans
    hraised
  rw [acceptBranch]
  cases hresult : a.block.result with
  | none => exact absurd hresult hblock
  | some accepted =>
    cases accepted with
    | false => exact hcall
    | true =>
      simp only [Runs.tell_state, Runs.update_state, epollAddUsock]
      split <;> exact hcall

theorem closeConnection_raised {c : ℕ} (hraised : h.state.raised = false)
    (hblock : a.block.result ≠ none) : (closeConnection h c a).state.raised = false := by
  rw [closeConnection]
  cases (h.state.heap c).atCloseBlock with
  | none => exact hraised
  | some block =>
    have hcall := (callBlock_raised (h.tell (.callAtClose c block)) a.block.actions).trans hraised
    cases hresult : a.block.result with
    | none => exact absurd hresult hblock
    | some _ => exact hcall

theorem removeBranch_raised {sock : SRTSOCKET} (hraised : h.state.raised = false)
    (hblock : a.block.result ≠ none) : (removeBranch h sock a).state.raised = false := by
  rw [removeBranch]
  cases (h.update (·.epollRemoveUsock sock)).state.connectionsBySocket.lookup sock with
  | none => exact hraised
  | some c =>
    exact closeConnection_raised (h := unregister (h.update (·.epollRemoveUsock sock)) sock c)
      hraised hblock

theorem deliver_raised {c : ℕ} {data : Bytes} (hraised : h.state.raised = false)
    (hblock : a.block.result ≠ none) : (deliver h c data a).state.raised = false := by
  rw [deliver]
  cases (h.state.heap c).atDataBlock with
  | none => exact hraised
  | some block =>
    have hcall := (callBlock_raised (h.tell (.callAtData c block data)) a.block.actions).trans
      hraised
    cases hresult : a.block.result with
    | none => exact absurd hresult hblock
    | some _ => exact hcall

theorem dataBranch_raised {event : Event} (hraised : h.state.raised = false)
    (hblock : a.block.result ≠ none) : (dataBranch h event a).state.raised = false := by
  rw [dataBranch]
  split
  · split
    · simp only [Runs.tell_state]
      cases h.state.connectionsBySocket.lookup event.fd with
      | none => exact hraised
      | some c => exact deliver_raised hraised hblock
    · exact hraised
  · exact hraised

/-- **Only an exception leaves the loop.** -/
theorem handleEvent_raised {i : Event × Answers} (hraised : h.state.raised = false)
    (hblock : i.2.block.result ≠ none) : (handleEvent h i).state.raised = false := by
  rcases handleEvent_cases h i with ⟨-, heq⟩ | ⟨-, -, heq⟩ | ⟨-, -, heq⟩ | ⟨-, -, heq⟩
  · rwa [heq]
  · rw [heq]
    exact acceptBranch_raised hraised hblock
  · rw [heq]
    exact removeBranch_raised hraised hblock
  · rw [heq]
    exact dataBranch_raised hraised hblock

end Raised

/-! ### What each branch adds to the history -/

/-- The acceptor block is called first, with what `srt_accept` returned. -/
theorem acceptBranch_calls (h : History w) (a : Answers) :
    ∃ l, (acceptBranch h a).log =
        h.log ++ .callAcceptor h.state.allocated ⟨a.accept, none, none⟩ :: l ∧
      ∀ o ∈ l, (∃ c block, o = .setAtData c block) ∨ o = .rejected h.state.allocated ∨
        ∃ conn, o = .accepted h.state.allocated conn ∧ conn.socket = a.accept := by
  have hsocket := socket_callBlock_presentConnection h a.accept a.block.actions
  obtain ⟨l, hlog, hl⟩ := callBlock_log (presentConnection h a.accept) a.block.actions
  rw [presentConnection_log, List.append_assoc, List.singleton_append] at hlog
  rw [acceptBranch]
  generalize callBlock (presentConnection h a.accept) a.block.actions = h' at *
  have htell : ∀ o : Observation, h'.log ++ [o] =
      h.log ++ .callAcceptor h.state.allocated ⟨a.accept, none, none⟩ :: (l ++ [o]) := fun o => by
    rw [hlog, List.append_assoc, List.cons_append]
  cases a.block.result with
  | none => exact ⟨l, hlog, fun o ho => Or.inl (hl o ho)⟩
  | some accepted =>
    cases accepted with
    | false =>
      refine ⟨_, htell _, fun o ho => ?_⟩
      rcases List.mem_append.mp ho with ho | ho
      exacts [Or.inl (hl o ho), Or.inr (Or.inl (List.mem_singleton.mp ho))]
    | true =>
      refine ⟨_, htell _, fun o ho => ?_⟩
      rcases List.mem_append.mp ho with ho | ho
      exacts [Or.inl (hl o ho), Or.inr (Or.inr ⟨_, List.mem_singleton.mp ho, hsocket⟩)]

theorem acceptBranch_log (h : History w) (a : Answers) :
    ∃ l, (acceptBranch h a).log = h.log ++ l ∧ ∀ o ∈ l, (∃ c conn, o = .callAcceptor c conn) ∨
      (∃ c block, o = .setAtData c block) ∨ o = .rejected h.state.allocated ∨
        ∃ conn, o = .accepted h.state.allocated conn ∧ conn.socket = a.accept := by
  obtain ⟨l, hlog, hl⟩ := acceptBranch_calls h a
  refine ⟨_, hlog, fun o ho => ?_⟩
  rcases List.mem_cons.mp ho with rfl | ho
  exacts [Or.inl ⟨_, _, rfl⟩, Or.inr (hl o ho)]

theorem closeConnection_log (h : History w) (c : ℕ) (a : Answers) :
    (h.state.heap c).atCloseBlock = none ∧ (closeConnection h c a).log = h.log ∨
      ∃ block l, (h.state.heap c).atCloseBlock = some block ∧
        (closeConnection h c a).log = h.log ++ .callAtClose c block :: l ∧
        ∀ o ∈ l, ∃ d block, o = .setAtData d block := by
  rw [closeConnection]
  cases (h.state.heap c).atCloseBlock with
  | none => exact Or.inl ⟨rfl, rfl⟩
  | some block =>
    obtain ⟨l, hlog, hl⟩ := callBlock_log (h.tell (.callAtClose c block)) a.block.actions
    rw [Runs.tell_log, List.append_assoc] at hlog
    refine Or.inr ⟨block, l, rfl, ?_, hl⟩
    cases a.block.result <;> exact hlog

theorem removeBranch_log_of_none {h : History w} {sock : SRTSOCKET} (a : Answers)
    (hlook : h.state.connectionsBySocket.lookup sock = none) :
    (removeBranch h sock a).log = h.log := by
  rw [removeBranch]
  simp only [Runs.update_state, epollRemoveUsock, hlook]
  rfl

theorem removeBranch_log {h : History w} {sock : SRTSOCKET} {c : ℕ} (a : Answers)
    (hlook : h.state.connectionsBySocket.lookup sock = some c) :
    (h.state.heap c).atCloseBlock = none ∧ (removeBranch h sock a).log = h.log ++ [.removed c] ∨
      ∃ block l, (h.state.heap c).atCloseBlock = some block ∧
        (removeBranch h sock a).log = h.log ++ .removed c :: .callAtClose c block :: l ∧
        ∀ o ∈ l, ∃ d block, o = .setAtData d block := by
  have hlook' : (h.update (·.epollRemoveUsock sock)).state.connectionsBySocket.lookup sock =
      some c := hlook
  rw [removeBranch]
  simp only [hlook']
  rcases closeConnection_log (unregister (h.update (·.epollRemoveUsock sock)) sock c) c a with
    ⟨hnone, hlog⟩ | ⟨block, l, hblock, hlog, hl⟩
  · exact Or.inl ⟨hnone, hlog⟩
  · exact Or.inr ⟨block, l, hblock, hlog.trans (List.append_assoc _ [_] _), hl⟩

/-- What the data branch reads. -/
def taken (event : Event) (a : Answers) : List Bytes :=
  if event.events.inp then
    match a.recvmsg2 readBufSize with
    | some (byte :: bytes) => [byte :: bytes]
    | _ => []
  else []

theorem deliver_log (h : History w) (c : ℕ) (data : Bytes) (a : Answers) :
    (h.state.heap c).atDataBlock = none ∧ (deliver h c data a).log = h.log ∨
      ∃ block l, (h.state.heap c).atDataBlock = some block ∧
        (deliver h c data a).log = h.log ++ .callAtData c block data :: l ∧
        ∀ o ∈ l, ∃ d block, o = .setAtData d block := by
  rw [deliver]
  cases (h.state.heap c).atDataBlock with
  | none => exact Or.inl ⟨rfl, rfl⟩
  | some block =>
    obtain ⟨l, hlog, hl⟩ := callBlock_log (h.tell (.callAtData c block data)) a.block.actions
    rw [Runs.tell_log, List.append_assoc] at hlog
    refine Or.inr ⟨block, l, rfl, ?_, hl⟩
    cases a.block.result <;> exact hlog

/-- The connection registered under a socket and its `at_data` block, if there are such. -/
def listener (s : Server w) (fd : SRTSOCKET) : Option (ℕ × Proc) :=
  (s.connectionsBySocket.lookup fd).bind fun c => (s.heap c).atDataBlock.map fun block => (c, block)

/-- A message is read, and passed to who listens. -/
def readLog (s : Server w) (fd : SRTSOCKET) (data : Bytes) : List Observation :=
  .received fd data :: (s.listener fd).toList.map fun l => .callAtData l.1 l.2 data

theorem dataBranch_log (h : History w) (event : Event) (a : Answers) :
    ∃ l, (dataBranch h event a).log =
        h.log ++ ((taken event a).flatMap (h.state.readLog event.fd) ++ l) ∧
      ∀ o ∈ l, ∃ d block, o = .setAtData d block := by
  rw [dataBranch, taken]
  split
  · split
    · next byte bytes _ =>
      simp only [Runs.tell_state]
      cases hlook : h.state.connectionsBySocket.lookup event.fd with
      | none => exact ⟨[], by simp [readLog, listener, hlook], by simp⟩
      | some c =>
        rcases deliver_log (h.tell (.received event.fd (byte :: bytes))) c (byte :: bytes) a with
          ⟨hnone, hlog⟩ | ⟨block, l, hblock, hlog, hl⟩
        · rw [Runs.tell_state] at hnone
          exact ⟨[], by simp [hlog, readLog, listener, hlook, hnone], by simp⟩
        · rw [Runs.tell_state] at hblock
          exact ⟨l, by simp [hlog, readLog, listener, hlook, hblock], hl⟩
    · exact ⟨[], by simp, by simp⟩
  · exact ⟨[], by simp, by simp⟩

/-! ### Runs -/

/-- The server `start` begins with: nothing is connected, and its own socket is watched. -/
def start (w : ℕ) (socket : SRTSOCKET) : History w where
  state :=
    { socket
      numConnections := 0
      connectionsBySocket := .empty
      heap := fun _ => ⟨SRT_INVALID_SOCK, none, none⟩
      allocated := 0
      opened := [socket]
      epoll := [socket]
      raised := false }
  log := []

/-- Batches of events with their answers, one batch for each pass of the `while` loop. -/
abbrev Batches := List (List (Event × Answers))

/-- Where a run ends. -/
def run (w : ℕ) (socket : SRTSOCKET) (batches : Batches) : History w :=
  Runs.exec (Runs.exec handleEvent) (start w socket) batches

/-- The states at the ends of the events of a run. -/
def reached (w : ℕ) (socket : SRTSOCKET) (batches : Batches) : List (History w) :=
  Runs.states handleEvent (start w socket) batches.flatten

/-- Every event of a run meets a condition, in the state it is handled in. -/
def Throughout (C : History w → Event × Answers → Prop) (socket : SRTSOCKET)
    (batches : Batches) : Prop :=
  Runs.Along handleEvent C (start w socket) batches.flatten

theorem run_eq (w : ℕ) (socket : SRTSOCKET) (batches : Batches) :
    run w socket batches = Runs.exec handleEvent (start w socket) batches.flatten :=
  (Runs.exec_flatten handleEvent (start w socket) batches).symm

/-! ### Some events -/

/-- The listening socket `1` has a peer waiting, which gets the id `fd`. -/
def knock (fd : SRTSOCKET) (block : BlockRun) : Event × Answers :=
  (⟨1, ⟨true, false, false, false⟩⟩, ⟨.listening, fd, true, fun _ => none, block⟩)

/-- A message can be read from `fd`. -/
def readable (fd : SRTSOCKET) (data : Bytes) : Event × Answers :=
  (⟨fd, ⟨true, true, false, false⟩⟩,
    ⟨.connected, SRT_INVALID_SOCK, false, fun cap => some (data.take cap), ⟨[], some true⟩⟩)

/-- The peer of `fd` is gone. -/
def hangup (fd : SRTSOCKET) : Event × Answers :=
  (⟨fd, ⟨false, false, true, false⟩⟩,
    ⟨.broken, SRT_INVALID_SOCK, false, fun _ => none, ⟨[], some true⟩⟩)

/-- A connection with both blocks, and one without. One message arrives for each, and the first
goes. -/
def twoPeers : Batches :=
  [[knock 2 ⟨[.atData 0 7, .atClose 0 8], some true⟩, knock 3 ⟨[], some true⟩],
    [readable 3 [9], readable 2 [1, 2]], [hangup 2, hangup 2]]

end Server

end Rbsrt
