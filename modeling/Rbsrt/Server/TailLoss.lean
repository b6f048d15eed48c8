import Rbsrt.Server.Callbacks

/-!
# The last messages of a connection

A connected socket is a queue of messages that have arrived and were not read yet. When the peer
closes, what has arrived stays readable, but `srt_getsockstate` reports `SRTS_BROKEN`; the loop
then takes the branch that removes the connection, and that branch does not read. Whether anything
is lost depends on whether the queue happens to be empty when the loop gets there, and on whether
there was an `at_data` block whenever something was read.

## The world

`World` is the server of `Server.Loop` with a channel for each socket. What the channels decide (the
state of a socket, what `srt_recvmsg2` returns) is no longer an arbitrary answer: `World.answers`
fills it in. Arrivals, peers that close and events are interleaved in any order.

## Main results

* `World.Tracks.step` — read, passed on and queued messages together are the ones that arrived
* `World.tailDelivered_iff` — a run loses nothing exactly if every connection is drained when it is
  removed
-/

namespace Rbsrt

namespace Server

open Observation

variable {w : ℕ}

/-! ### Channels -/

/-- `SRT_LIVE_MAX_PLSIZE`: no message is longer in live mode, which the server's socket is in. -/
def liveMaxPayload : ℕ := 1456

/-- A message in live mode. -/
structure Message where
  bytes : Bytes
  ne_nil : bytes ≠ []
  length_le : bytes.length ≤ liveMaxPayload

/-- One direction of a connection: what has arrived and was not read, what has arrived at all, what
was read while there was no block to pass it to, and whether the peer has closed. -/
structure Channel where
  queue : List Message
  arrived : List Message
  unheard : List Message
  broken : Bool

namespace Channel

/-- A message arrives, unless the peer has closed. -/
def arrive (ch : Channel) (m : Message) : Channel :=
  if ch.broken then ch
  else { ch with queue := ch.queue ++ [m], arrived := ch.arrived ++ [m] }

/-- The peer closes. -/
def peerClose (ch : Channel) : Channel := { ch with broken := true }

/-- `srt_recvmsg2`, into a buffer of `cap` bytes: an error on an empty queue, else as much of the
first message as fits. -/
def recvmsg2 (ch : Channel) (cap : ℕ) : Option Bytes := ch.queue.head?.map fun m => m.bytes.take cap

/-- The first message is read. `heard` says whether there is a block to pass it to. -/
def pop (ch : Channel) (heard : Bool) : Channel :=
  { ch with
    queue := ch.queue.tail
    unheard := if heard then ch.unheard else ch.unheard ++ ch.queue.head?.toList }

/-- All that has arrived was read, while there was a block to pass it to. -/
def Drained (ch : Channel) : Prop := ch.queue = [] ∧ ch.unheard = []

end Channel

/-- A message in live mode fits into the read buffer. -/
theorem Channel.recvmsg2_readBufSize (ch : Channel) :
    ch.recvmsg2 readBufSize = ch.queue.head?.map Message.bytes := by
  refine congrArg (Option.map · ch.queue.head?) (funext fun m => ?_)
  exact List.take_of_length_le (Nat.le_trans m.length_le (by decide))

/-! ### What is conserved -/

/-- What was read and what is still queued are, in this order, what has arrived; and what was read
was passed on in its order, up to what was unheard. -/
structure Conserved (ch : Channel) (inbox : List Bytes) (passed : List (Proc × Bytes)) : Prop where
  arrived : inbox ++ ch.queue.map Message.bytes = ch.arrived.map Message.bytes
  sublist : (passed.map Prod.snd).Sublist inbox
  length : passed.length + ch.unheard.length = inbox.length

theorem conserved_new (backlog : List Message) (gone : Bool) :
    Conserved ⟨backlog, backlog, [], gone⟩ [] [] :=
  ⟨rfl, .refl _, rfl⟩

section Conserved

variable {ch : Channel} {inbox : List Bytes} {passed : List (Proc × Bytes)}

theorem Conserved.arrive (h : Conserved ch inbox passed) (m : Message) :
    Conserved (ch.arrive m) inbox passed := by
  rw [Channel.arrive]
  split
  · exact h
  · refine ⟨?_, h.sublist, h.length⟩
    rw [List.map_append, List.map_append, ← List.append_assoc, h.arrived]

theorem Conserved.peerClose (h : Conserved ch inbox passed) :
    Conserved ch.peerClose inbox passed :=
  ⟨h.arrived, h.sublist, h.length⟩

/-- **A message is read**, and passed to the block that is there. -/
theorem Conserved.read (h : Conserved ch inbox passed) (block : Option Proc) :
    Conserved (ch.pop block.isSome) (inbox ++ ch.queue.head?.toList.map Message.bytes)
      (passed ++ block.toList.flatMap fun b =>
        (ch.queue.head?.toList.map Message.bytes).map fun data => (b, data)) := by
  have harrived := h.arrived
  have hlength := h.length
  cases hqueue : ch.queue with
  | nil =>
    rw [hqueue] at harrived
    refine ⟨?_, ?_, ?_⟩
    · simpa [Channel.pop, hqueue] using harrived
    · cases block <;> simpa using h.sublist
    · cases block <;> simpa [Channel.pop, hqueue] using hlength
  | cons m q =>
    rw [hqueue] at harrived
    refine ⟨?_, ?_, ?_⟩
    · simpa [Channel.pop, hqueue] using harrived
    · cases block with
      | none => simpa using h.sublist.trans (List.sublist_append_left _ _)
      | some b => simpa using h.sublist.append (.refl [m.bytes])
    · cases block with
      | none =>
        simp only [Channel.pop, hqueue, Option.isSome_none, List.length_append]
        simpa [← Nat.add_assoc] using hlength
      | some b =>
        simp only [Channel.pop, Option.isSome_some, List.length_append]
        simpa [Nat.add_right_comm] using hlength

/-- **Everything that has arrived was passed on exactly if the channel is drained.** -/
theorem Conserved.passed_eq_iff (h : Conserved ch inbox passed) :
    passed.map Prod.snd = ch.arrived.map Message.bytes ↔ ch.Drained := by
  constructor
  · intro heq
    have hlength := congrArg List.length (h.arrived.trans heq.symm)
    have hunheard := h.length
    simp only [List.length_append, List.length_map] at hlength
    exact ⟨List.length_eq_zero_iff.mp (by omega), List.length_eq_zero_iff.mp (by omega)⟩
  · rintro ⟨hqueue, hunheard⟩
    have harrived := h.arrived
    rw [hqueue, List.map_nil, List.append_nil] at harrived
    rw [← harrived]
    exact h.sublist.eq_of_length (by simpa [hunheard] using h.length)

end Conserved

/-! ### The world -/

/-- A server and the channels of its sockets. -/
structure World (w : ℕ) where
  history : History w
  channel : SRTSOCKET → Channel

/-- What the environment is still free to choose while an event is handled. A socket that is
accepted may have messages waiting, and its peer may be gone. -/
structure Choice where
  accept : SRTSOCKET
  backlog : List Message
  gone : Bool
  addUsock : Bool
  block : BlockRun

/-- What can happen next. -/
inductive Move
  | arrive (fd : SRTSOCKET) (m : Message)
  | peerClose (fd : SRTSOCKET)
  | event (event : Event) (choice : Choice)

namespace World

/-- `srt_getsockstate(fd)` -/
def getsockstate (W : World w) (fd : SRTSOCKET) : SockStatus :=
  if fd = W.history.state.socket then .listening
  else if fd ∉ W.history.state.opened then .nonexist
  else if (W.channel fd).broken then .broken
  else .connected

/-- The answers to the libsrt calls of an event. -/
def answers (W : World w) (event : Event) (k : Choice) : Answers where
  getsockstate := W.getsockstate event.fd
  accept := k.accept
  addUsock := k.addUsock
  recvmsg2 := (W.channel event.fd).recvmsg2
  block := k.block

/-- What handling an event does to the channels: a new one is set up, or one is read from. -/
def channelAfter (W : World w) (event : Event) (k : Choice) : SRTSOCKET → Channel :=
  if W.history.state.raised then W.channel
  else
    match W.getsockstate event.fd with
    | .listening => Function.update W.channel k.accept ⟨k.backlog, k.backlog, [], k.gone⟩
    | .connected =>
      if event.events.inp then
        Function.update W.channel event.fd
          ((W.channel event.fd).pop (W.history.state.listener event.fd).isSome)
      else W.channel
    | _ => W.channel

/-- One move. -/
def step (W : World w) : Move → World w
  | .arrive fd m => { W with channel := Function.update W.channel fd ((W.channel fd).arrive m) }
  | .peerClose fd => { W with channel := Function.update W.channel fd (W.channel fd).peerClose }
  | .event event k =>
    ⟨handleEvent W.history (event, W.answers event k), W.channelAfter event k⟩

/-- Nothing is connected. -/
def init (w : ℕ) (socket : SRTSOCKET) : World w := ⟨start w socket, fun _ => ⟨[], [], [], false⟩⟩

/-! ### The property and the condition -/

/-- If the move calls the `at_close` block of a connection, then at that moment everything that had
arrived on its socket has been passed to its `at_data` block. -/
def TailDelivered (W : World w) : Move → Prop
  | .event event k => ∀ c block t₁ t₂,
    (W.step (.event event k)).history.log =
      W.history.log ++ (t₁ ++ .callAtClose c block :: t₂) →
    (chunks c (W.history.log ++ t₁)).map Prod.snd =
      (W.channel event.fd).arrived.map Message.bytes
  | _ => True

/-- If the move removes a connection that has an `at_close` block, then all that has arrived on its
socket was read, while there was an `at_data` block. -/
def RemovesDrained (W : World w) : Move → Prop
  | .event event _ => ∀ c, W.history.state.raised = false →
    W.getsockstate event.fd = .nonexist ∨ W.getsockstate event.fd = .broken →
    W.history.state.connectionsBySocket.lookup event.fd = some c →
    (W.history.state.heap c).atCloseBlock ≠ none → (W.channel event.fd).Drained
  | _ => True

/-- What is assumed of `srt_accept`: it does not return the id of a registered connection. -/
def AcceptsUnused (W : World w) : Move → Prop
  | .event event k => Server.AcceptsUnused W.history (event, W.answers event k)
  | _ => True

/-! ### When a connection is closed -/

/-- An event that calls an `at_close` block removes its connection, and nothing comes before the
call but the removal. -/
theorem removeBranch_callAtClose {h : History w} {sock : SRTSOCKET} {a : Answers} {c : ℕ}
    {block : Proc} {t₁ t₂ : List Observation}
    (hlog : (removeBranch h sock a).log = h.log ++ (t₁ ++ .callAtClose c block :: t₂)) :
    h.state.connectionsBySocket.lookup sock = some c ∧
      (h.state.heap c).atCloseBlock ≠ none ∧ t₁ = [.removed c] := by
  cases hlook : h.state.connectionsBySocket.lookup sock with
  | none =>
    rw [removeBranch_log_of_none a hlook] at hlog
    simp at hlog
  | some d =>
    rcases removeBranch_log a hlook with ⟨-, hl⟩ | ⟨block', l, hblock, hl, hquiet⟩
    · have hsplit := List.append_cancel_left (hl.symm.trans hlog)
      rcases t₁ with _ | ⟨o, t₁⟩ <;> simp at hsplit
    · have hsplit := List.append_cancel_left (hl.symm.trans hlog)
      rcases t₁ with _ | ⟨o, _ | ⟨o', t₁⟩⟩
      · simp at hsplit
      · simp only [List.cons_append, List.nil_append, List.cons.injEq,
          Observation.callAtClose.injEq] at hsplit
        obtain ⟨rfl, ⟨rfl, rfl⟩, -⟩ := hsplit
        exact ⟨rfl, by simp [hblock], rfl⟩
      · simp only [List.cons_append, List.cons.injEq] at hsplit
        obtain ⟨-, -, rfl⟩ := hsplit
        obtain ⟨_, _, hset⟩ := hquiet _ (List.mem_append_right _ List.mem_cons_self)
        simp at hset

theorem handleEvent_callAtClose {h : History w} {i : Event × Answers} {c : ℕ} {block : Proc}
    {t₁ t₂ : List Observation}
    (hlog : (handleEvent h i).log = h.log ++ (t₁ ++ .callAtClose c block :: t₂)) :
    h.state.raised = false ∧ Gone i.2.getsockstate ∧
      h.state.connectionsBySocket.lookup i.1.fd = some c ∧
      (h.state.heap c).atCloseBlock ≠ none ∧ t₁ = [.removed c] := by
  have hmem : ∀ l, (handleEvent h i).log = h.log ++ l → .callAtClose c block ∈ l := by
    intro l hl
    rw [List.append_cancel_left (hl.symm.trans hlog)]
    simp
  rcases handleEvent_cases h i with ⟨-, heq⟩ | ⟨-, -, heq⟩ | ⟨hraised, hgone, heq⟩ | ⟨-, -, heq⟩
  · have hnil := hmem [] (by rw [heq, List.append_nil])
    simp at hnil
  · obtain ⟨l, hl, hquiet⟩ := acceptBranch_log h i.2
    rcases hquiet _ (hmem l (heq ▸ hl)) with
      ⟨_, _, ho⟩ | ⟨_, _, ho⟩ | ho | ⟨_, ho, -⟩ <;> simp at ho
  · exact ⟨hraised, hgone, removeBranch_callAtClose (heq ▸ hlog)⟩
  · obtain ⟨l, hl, hquiet⟩ := dataBranch_log h i.1 i.2
    rcases List.mem_append.mp (hmem _ (heq ▸ hl)) with ho | ho
    · simp [readLog] at ho
    · obtain ⟨_, _, ho⟩ := hquiet _ ho
      simp at ho

/-! ### Everything that arrived is accounted for -/

/-- Nothing is lost on the way to a registered connection. -/
structure Tracks (W : World w) : Prop where
  watched : Watched W.history
  conserved : ∀ c n, Session.ofHistory c W.history.log = some n → n.phase = .registered →
    Conserved (W.channel n.socket) n.inbox n.passed

theorem tracks_init (w : ℕ) (socket : SRTSOCKET) : Tracks (init w socket) where
  watched := watched_start w socket
  conserved := fun c n hn hreg => by
    obtain rfl := Option.some.inj hn
    simp [Session.fresh] at hreg

/-- What the data branch reads is the first message of the queue. -/
theorem taken_answers (W : World w) (event : Event) (k : Choice) :
    taken event (W.answers event k) =
      if event.events.inp then (W.channel event.fd).queue.head?.toList.map Message.bytes
      else [] := by
  rw [taken]
  split
  · rw [show (W.answers event k).recvmsg2 = (W.channel event.fd).recvmsg2 from rfl,
      Channel.recvmsg2_readBufSize]
    cases (W.channel event.fd).queue with
    | nil => rfl
    | cons m q =>
      obtain ⟨byte, bytes, hm⟩ := List.exists_cons_of_ne_nil m.ne_nil
      simp [hm]
  · rfl

theorem channelAfter_of_ne {W : World w} {event : Event} {k : Choice}
    (h : W.history.state.raised = true ∨
      W.getsockstate event.fd ≠ .listening ∧ W.getsockstate event.fd ≠ .connected) :
    W.channelAfter event k = W.channel := by
  rw [channelAfter]
  split
  · rfl
  · next hraised =>
    have hne := h.resolve_left hraised
    cases hstate : W.getsockstate event.fd <;> simp_all

theorem channelAfter_of_listening {W : World w} {event : Event} {k : Choice}
    (hraised : W.history.state.raised = false) (hstate : W.getsockstate event.fd = .listening) :
    W.channelAfter event k =
      Function.update W.channel k.accept ⟨k.backlog, k.backlog, [], k.gone⟩ := by
  simp [channelAfter, hraised, hstate]

theorem channelAfter_of_connected {W : World w} {event : Event} {k : Choice}
    (hraised : W.history.state.raised = false) (hstate : W.getsockstate event.fd = .connected) :
    W.channelAfter event k =
      if event.events.inp then
        Function.update W.channel event.fd
          ((W.channel event.fd).pop (W.history.state.listener event.fd).isSome)
      else W.channel := by
  simp [channelAfter, hraised, hstate]

theorem Tracks.arrive {W : World w} (hW : Tracks W) (fd : SRTSOCKET) (m : Message) :
    Tracks (W.step (.arrive fd m)) := by
  refine ⟨hW.watched, fun c n hn hreg => ?_⟩
  have hkeep := hW.conserved c n hn hreg
  rcases eq_or_ne n.socket fd with rfl | hfd
  · simpa [step] using hkeep.arrive m
  · simpa [step, hfd] using hkeep

theorem Tracks.peerClose {W : World w} (hW : Tracks W) (fd : SRTSOCKET) :
    Tracks (W.step (.peerClose fd)) := by
  refine ⟨hW.watched, fun c n hn hreg => ?_⟩
  have hkeep := hW.conserved c n hn hreg
  rcases eq_or_ne n.socket fd with rfl | hfd
  · simpa [step] using hkeep.peerClose
  · simpa [step, hfd] using hkeep

/-- A connection that is registered after observations that accept none was registered before, and
got the messages among them. -/
theorem registered_before {t l : List Observation} {c : ℕ} {n n' : Session}
    (hn : Session.ofHistory c t = some n) (hn' : Session.ofHistory c (t ++ l) = some n')
    (hreg' : n'.phase = .registered) (hl : ∀ o ∈ l, ¬ IsAccepted c o) :
    n.phase = .registered ∧ n'.socket = n.socket ∧
      n'.inbox = n.inbox ++ l.filterMap (messageOf n.socket) ∧
      n'.passed = n.passed ++ chunks c l := by
  rw [Session.ofHistory_append hn] at hn'
  rcases Session.registered_of_watch hn hn' hreg' with
    ⟨hreg, hsocket, hinbox⟩ | ⟨t₁, conn, t₂, rfl, -⟩
  · exact ⟨hreg, hsocket, hinbox, Session.passed_of_watch hn'⟩
  · exact absurd ⟨conn, rfl⟩ (hl (.accepted c conn) (by simp))

/-- Neither a message from `fd` nor one for `c`. -/
def Silent (c : ℕ) (fd : SRTSOCKET) (o : Observation) : Prop :=
  messageOf fd o = none ∧ chunkOf c o = none

theorem inbox_of_silent {l : List Observation} {c : ℕ} {fd : SRTSOCKET}
    (hl : ∀ o ∈ l, Silent c fd o) : l.filterMap (messageOf fd) = [] :=
  List.filterMap_eq_nil_iff.mpr fun o ho => (hl o ho).1

theorem chunks_of_silent {l : List Observation} {c : ℕ} {fd : SRTSOCKET}
    (hl : ∀ o ∈ l, Silent c fd o) : chunks c l = [] :=
  List.filterMap_eq_nil_iff.mpr fun o ho => (hl o ho).2

theorem messages_readLog (s : Server w) (fd fd' : SRTSOCKET) (ds : List Bytes) :
    (ds.flatMap (s.readLog fd)).filterMap (messageOf fd') = if fd = fd' then ds else [] := by
  have hcalls : ∀ data,
      ((s.listener fd).toList.map fun l => Observation.callAtData l.1 l.2 data).filterMap
        (messageOf fd') = [] := fun data => by simp [messageOf]
  induction ds with
  | nil => simp
  | cons data ds ih =>
    rw [List.flatMap_cons, List.filterMap_append, ih, readLog, filterMap_cons_toList, hcalls]
    split
    · next hfd => simp [messageOf, hfd]
    · next hfd => simp [messageOf, hfd]

/-- What is read from the socket of `c` is passed to its block. -/
theorem chunks_readLog {s : Server w} {fd : SRTSOCKET} {c : ℕ}
    (hlook : s.connectionsBySocket.lookup fd = some c) (ds : List Bytes) :
    chunks c (ds.flatMap (s.readLog fd)) =
      (s.heap c).atDataBlock.toList.flatMap fun block => ds.map fun data => (block, data) := by
  rw [chunks]
  cases hblock : (s.heap c).atDataBlock with
  | none =>
    refine List.filterMap_eq_nil_iff.mpr fun o ho => ?_
    obtain ⟨data, -, ho⟩ := List.mem_flatMap.mp ho
    obtain rfl : o = .received fd data := by simpa [readLog, listener, hlook, hblock] using ho
    rfl
  | some block =>
    induction ds with
    | nil => rfl
    | cons data ds ih =>
      have hcall : (s.readLog fd data).filterMap (chunkOf c) = [(block, data)] := by
        simp [readLog, listener, hlook, hblock, filterMap_cons_toList, chunkOf]
      rw [List.flatMap_cons, List.filterMap_append, ih, hcall]
      rfl

/-- What is read from another socket is not. -/
theorem chunks_readLog_of_ne {s : Server w} {fd : SRTSOCKET} {c : ℕ}
    (hlook : s.connectionsBySocket.lookup fd ≠ some c) (ds : List Bytes) :
    chunks c (ds.flatMap (s.readLog fd)) = [] := by
  refine List.filterMap_eq_nil_iff.mpr fun o ho => ?_
  obtain ⟨data, -, ho⟩ := List.mem_flatMap.mp ho
  rcases List.mem_cons.mp ho with rfl | ho
  · rfl
  · obtain ⟨⟨d, block⟩, hd, rfl⟩ := List.mem_map.mp ho
    rw [Option.mem_toList, listener, Option.bind_eq_some_iff] at hd
    obtain ⟨d', hlook', hd⟩ := hd
    obtain ⟨_, -, hpair⟩ := Option.map_eq_some_iff.mp hd
    obtain ⟨rfl, rfl⟩ := Prod.mk.inj hpair
    have hne : d' ≠ c := fun heq => hlook (heq ▸ hlook')
    simp [chunkOf, hne]

theorem Tracks.acceptBranch {W : World w} (hW : Tracks W) {k : Choice} {a : Answers}
    (haccept : a.accept = k.accept)
    (hunused : k.accept ∉ W.history.state.connectionsBySocket.keys) {c : ℕ} {n' : Session}
    (hn' : Session.ofHistory c (Server.acceptBranch W.history a).log = some n')
    (hreg' : n'.phase = .registered) :
    Conserved (Function.update W.channel k.accept ⟨k.backlog, k.backlog, [], k.gone⟩ n'.socket)
      n'.inbox n'.passed := by
  obtain ⟨n, hn⟩ := hW.watched c
  obtain ⟨l, hl, hlog⟩ := acceptBranch_log W.history a
  have hsilent : ∀ (fd : SRTSOCKET), ∀ o ∈ l, Silent c fd o := by
    intro fd o ho
    rcases hlog o ho with ⟨_, _, rfl⟩ | ⟨_, _, rfl⟩ | rfl | ⟨_, rfl, -⟩ <;> exact ⟨rfl, rfl⟩
  rw [hl, Session.ofHistory_append hn.history] at hn'
  rcases Session.registered_of_watch hn.history hn' hreg' with
    ⟨hreg, hsocket, hinbox⟩ | ⟨t₁, conn, t₂, rfl, hsocket, hinbox, hpassed⟩
  · have hne : n.socket ≠ k.accept := fun hsock =>
      hunused (OrderedHash.mem_keys_iff.mpr ⟨c, (hn.registered k.accept).mpr ⟨hreg, hsock⟩⟩)
    rw [hsocket, hinbox, Session.passed_of_watch hn', inbox_of_silent (hsilent _),
      chunks_of_silent (hsilent n.socket), List.append_nil, List.append_nil,
      Function.update_of_ne hne]
    exact hW.conserved c n hn.history hreg
  · have hconn : conn.socket = k.accept := by
      rcases hlog (.accepted c conn) (by simp) with
        ⟨_, _, ho⟩ | ⟨_, _, ho⟩ | ho | ⟨_, ho, hsock⟩
      · simp at ho
      · simp at ho
      · simp at ho
      · obtain ⟨-, rfl⟩ := Observation.accepted.inj ho
        exact hsock.trans haccept
    have hrest : ∀ o ∈ t₂, Silent c conn.socket o := fun o ho => hsilent _ o (by simp [ho])
    rw [hinbox, hpassed, inbox_of_silent hrest, chunks_of_silent hrest, hsocket, hconn,
      Function.update_self]
    exact conserved_new k.backlog k.gone

theorem Tracks.removeBranch {W : World w} (hW : Tracks W) {sock : SRTSOCKET} {a : Answers}
    {c : ℕ} {n' : Session}
    (hn' : Session.ofHistory c (Server.removeBranch W.history sock a).log = some n')
    (hreg' : n'.phase = .registered) :
    Conserved (W.channel n'.socket) n'.inbox n'.passed := by
  obtain ⟨n, hn⟩ := hW.watched c
  have hquiet : ∃ l, (Server.removeBranch W.history sock a).log = W.history.log ++ l ∧
      ∀ o ∈ l, ¬ IsAccepted c o ∧ Silent c n.socket o := by
    cases hlook : W.history.state.connectionsBySocket.lookup sock with
    | none => exact ⟨[], by rw [removeBranch_log_of_none a hlook, List.append_nil], by simp⟩
    | some d =>
      rcases removeBranch_log a hlook with ⟨-, hl⟩ | ⟨block, l, -, hl, hsets⟩
      · exact ⟨_, hl, by simp [IsAccepted, Silent, messageOf, chunkOf]⟩
      · refine ⟨_, hl, fun o ho => ?_⟩
        simp only [List.mem_cons] at ho
        rcases ho with rfl | rfl | ho
        · exact ⟨by simp [IsAccepted], rfl, rfl⟩
        · exact ⟨by simp [IsAccepted], rfl, rfl⟩
        · obtain ⟨_, _, rfl⟩ := hsets o ho
          exact ⟨by simp [IsAccepted], rfl, rfl⟩
  obtain ⟨l, hl, hlog⟩ := hquiet
  rw [hl] at hn'
  obtain ⟨hreg, hsocket, hinbox, hpassed⟩ :=
    registered_before hn.history hn' hreg' fun o ho => (hlog o ho).1
  have hsilent : ∀ o ∈ l, Silent c n.socket o := fun o ho => (hlog o ho).2
  rw [hsocket, hinbox, hpassed, inbox_of_silent hsilent, chunks_of_silent hsilent,
    List.append_nil, List.append_nil]
  exact hW.conserved c n hn.history hreg

theorem Tracks.dataBranch {W : World w} (hW : Tracks W) {event : Event} {k : Choice} {c : ℕ}
    {n' : Session}
    (hn' : Session.ofHistory c (Server.dataBranch W.history event (W.answers event k)).log =
      some n')
    (hreg' : n'.phase = .registered) :
    Conserved ((if event.events.inp then
      Function.update W.channel event.fd
        ((W.channel event.fd).pop (W.history.state.listener event.fd).isSome)
      else W.channel) n'.socket) n'.inbox n'.passed := by
  obtain ⟨n, hn⟩ := hW.watched c
  obtain ⟨l, hl, hlog⟩ := dataBranch_log W.history event (W.answers event k)
  rw [hl] at hn'
  have hacc : ∀ o ∈ (taken event (W.answers event k)).flatMap
      (W.history.state.readLog event.fd) ++ l, ¬ IsAccepted c o := by
    intro o ho
    rcases List.mem_append.mp ho with ho | ho
    · rintro ⟨conn, rfl⟩
      simp [readLog] at ho
    · obtain ⟨_, _, rfl⟩ := hlog o ho
      simp [IsAccepted]
  have hsilent : ∀ o ∈ l, Silent c n.socket o := by
    intro o ho
    obtain ⟨_, _, rfl⟩ := hlog o ho
    exact ⟨rfl, rfl⟩
  obtain ⟨hreg, hsocket, hinbox, hpassed⟩ := registered_before hn.history hn' hreg' hacc
  have hkeep := hW.conserved c n hn.history hreg
  rw [List.filterMap_append, inbox_of_silent hsilent, List.append_nil, messages_readLog,
    taken_answers] at hinbox
  rw [chunks_append, chunks_of_silent hsilent, List.append_nil, taken_answers] at hpassed
  rw [hsocket, hinbox, hpassed]
  by_cases hfd : event.fd = n.socket
  · have hlook := (hn.registered event.fd).mpr ⟨hreg, hfd.symm⟩
    rw [if_pos hfd, chunks_readLog hlook, ← hfd]
    rw [← hfd] at hkeep
    split
    · have hheard : (W.history.state.listener event.fd).isSome =
          (W.history.state.heap c).atDataBlock.isSome := by simp [listener, hlook]
      rw [Function.update_self, hheard]
      exact hkeep.read _
    · cases (W.history.state.heap c).atDataBlock <;> simpa using hkeep
  · have hlook : W.history.state.connectionsBySocket.lookup event.fd ≠ some c := fun hlook =>
      hfd ((hn.registered event.fd).mp hlook).2.symm
    rw [if_neg hfd, chunks_readLog_of_ne hlook, List.append_nil, List.append_nil]
    split
    · rw [Function.update_of_ne (Ne.symm hfd)]
      exact hkeep
    · exact hkeep

/-- **One event** neither loses nor repeats a message. -/
theorem Tracks.event {W : World w} (hW : Tracks W) {event : Event} {k : Choice}
    (hunused : AcceptsUnused W (.event event k)) : Tracks (W.step (.event event k)) := by
  refine ⟨handleEvent_watched hW.watched hunused, fun c n' hn' hreg' => ?_⟩
  have hcases := handleEvent_cases W.history (event, W.answers event k)
  simp only [step] at hn' ⊢
  rcases hcases with ⟨hidle, heq⟩ | ⟨hraised, hstate, heq⟩ | ⟨-, hgone, heq⟩ |
    ⟨hraised, hstate, heq⟩
  · rw [channelAfter_of_ne (hidle.imp_right fun h => ⟨h.1, h.2.2⟩)]
    exact hW.conserved c n' (heq ▸ hn') hreg'
  · rw [channelAfter_of_listening hraised hstate]
    exact hW.acceptBranch rfl (hunused hstate) (heq ▸ hn') hreg'
  · have hne : W.getsockstate event.fd ≠ .listening ∧ W.getsockstate event.fd ≠ .connected := by
      rcases hgone with h | h | h <;> rw [show W.getsockstate event.fd = _ from h] <;> simp
    rw [channelAfter_of_ne (Or.inr hne)]
    exact hW.removeBranch (heq ▸ hn') hreg'
  · rw [channelAfter_of_connected hraised hstate]
    exact hW.dataBranch (heq ▸ hn') hreg'

theorem Tracks.step {W : World w} (hW : Tracks W) {move : Move} (hm : AcceptsUnused W move) :
    Tracks (W.step move) := by
  cases move with
  | arrive fd m => exact hW.arrive fd m
  | peerClose fd => exact hW.peerClose fd
  | event event k => exact hW.event hm

/-! ### Runs -/

theorem getsockstate_ne_closed (W : World w) (fd : SRTSOCKET) : W.getsockstate fd ≠ .closed := by
  rw [getsockstate]
  split_ifs <;> simp

/-- At the moment a connection is removed, everything that has arrived was passed on exactly if its
channel is drained. -/
theorem Tracks.chunks_eq_iff {W : World w} (hW : Tracks W) {fd : SRTSOCKET} {c : ℕ}
    (hlook : W.history.state.connectionsBySocket.lookup fd = some c) :
    (chunks c W.history.log).map Prod.snd = (W.channel fd).arrived.map Message.bytes ↔
      (W.channel fd).Drained := by
  obtain ⟨n, hn⟩ := hW.watched c
  obtain ⟨hreg, rfl⟩ := (hn.registered fd).mp hlook
  rw [← Session.passed_of_history hn.history]
  exact (hW.conserved c n hn.history hreg).passed_eq_iff

/-- One move that meets the assumption passes everything on in time exactly if what it removes is
drained. -/
theorem Tracks.delivered_iff_drained {W : World w} (hW : Tracks W) (move : Move) :
    TailDelivered W move ↔ RemovesDrained W move := by
  cases move with
  | arrive fd m => exact Iff.rfl
  | peerClose fd => exact Iff.rfl
  | event event k =>
    have hremoved : ∀ c, chunks c (W.history.log ++ [.removed c]) = chunks c W.history.log :=
      fun c => by simp [chunks, chunkOf]
    constructor
    · intro hdelivered c hraised hstate hlook hclose
      have hgone : Gone (W.answers event k).getsockstate := Or.inr hstate
      have hstep := handleEvent_of_gone (i := (event, W.answers event k)) hraised hgone
      rcases removeBranch_log (W.answers event k) hlook with ⟨hnone, -⟩ | ⟨block, l, -, hl, -⟩
      · exact absurd hnone hclose
      · have hlog := (congrArg Runs.Recorded.log hstep).trans hl
        have hpassed := hdelivered c block [.removed c] l hlog
        rwa [hremoved, hW.chunks_eq_iff hlook] at hpassed
    · intro hdrained c block t₁ t₂ hlog
      obtain ⟨hraised, hgone, hlook, hclose, rfl⟩ := handleEvent_callAtClose hlog
      have hstate := hgone.resolve_left (getsockstate_ne_closed W event.fd)
      rw [hremoved, hW.chunks_eq_iff hlook]
      exact hdrained c hraised hstate hlook hclose

/-- **No tail is lost exactly if every connection is drained when it is removed.** -/
theorem tailDelivered_iff (socket : SRTSOCKET) (moves : List Move)
    (hunused : Runs.Along step AcceptsUnused (init w socket) moves) :
    Runs.Along step TailDelivered (init w socket) moves ↔
      Runs.Along step RemovesDrained (init w socket) moves :=
  Runs.along_congr (fun _ _ hW hm => hW.step hm) (fun _ move hW _ => hW.delivered_iff_drained move)
    (tracks_init w socket) hunused

/-- A peer knocks, and the acceptor registers both blocks. -/
def accepting : Move :=
  .event ⟨1, ⟨true, false, false, false⟩⟩
    ⟨2, [], false, true, ⟨[.atData 0 7, .atClose 0 8], some true⟩⟩

/-- The socket of that peer is reported. -/
def reported : Move :=
  .event ⟨2, ⟨true, false, true, false⟩⟩ ⟨SRT_INVALID_SOCK, [], false, true, ⟨[], some true⟩⟩

/-- Its last message. -/
def lastMessage : Message := ⟨[1, 2, 3], by decide, by decide⟩

/-- The message is read before the peer closes. -/
theorem tailDelivered_in_time :
    Runs.Along step TailDelivered (init 64 1)
      [accepting, .arrive 2 lastMessage, reported, .peerClose 2, reported] := by
  refine (tailDelivered_iff 1 _ ?_).mpr ?_
  · refine ⟨fun _ => by decide, trivial, fun h => absurd h (by decide), trivial,
      fun h => absurd h (by decide), trivial⟩
  · refine ⟨fun c _ h => absurd h (by decide), trivial, fun c _ h => absurd h (by decide), trivial,
      fun c _ _ _ _ => ⟨rfl, rfl⟩, trivial⟩

/-- The peer closes before the loop gets to the message, which is then never read. -/
theorem not_tailDelivered :
    Runs.Along step AcceptsUnused (init 64 1)
        [accepting, .arrive 2 lastMessage, .peerClose 2, reported] ∧
      ¬ Runs.Along step TailDelivered (init 64 1)
        [accepting, .arrive 2 lastMessage, .peerClose 2, reported] := by
  constructor
  · exact ⟨fun _ => by decide, trivial, trivial, fun h => absurd h (by decide), trivial⟩
  · rintro ⟨-, -, -, hdelivered, -⟩
    have hnone := hdelivered 0 8 [.removed 0] [] rfl
    exact absurd hnone (by decide)

end World

end Server

end Rbsrt
