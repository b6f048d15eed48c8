import Mathlib.Data.List.Infix
import Rbsrt.Server.TailLoss
import Rbsrt.Socket.Stream

/-!
# Recordings

A server passes on what its clients send. `Network` puts the two ends together: the server of
`Server.TailLoss`, and for each of its sockets a client that is in the loop of `sendmsg`
(`Socket.Stream`) and has packets under way. Calls, packets, deliveries, peers that close and
events are interleaved in any order.

What the `at_data` block of a connection gets is its *recording*. It may stop early, since the
messages that are still queued when a connection is removed are lost, but what there is of it is
right: it is the beginning of what the client at the other end sends, whatever the other clients
do.

## Main results

* `World.ReadsInOrder.step` — what is read and what is queued is what has arrived
* `Network.Inv.step` — one move of a network
* `Network.recordings` — every recording is a prefix of its own client's strings
-/

namespace Rbsrt

namespace Server

open Observation

variable {w : ℕ}

/-! ### Reading in order -/

/-- What the loop has read from a socket. -/
def readFrom (fd : SRTSOCKET) (t : List Observation) : List Bytes := t.filterMap (messageOf fd)

theorem readFrom_append (fd : SRTSOCKET) (t u : List Observation) :
    readFrom fd (t ++ u) = readFrom fd t ++ readFrom fd u :=
  List.filterMap_append

namespace World

/-- What was read from a socket and what is queued for it is, in this order, what has arrived, and
nothing was read from a socket before it was accepted. -/
structure ReadsInOrder (W : World w) : Prop where
  arrived : ∀ fd, readFrom fd W.history.log ++ (W.channel fd).queue.map Message.bytes =
    (W.channel fd).arrived.map Message.bytes
  unread : ∀ t₁ c conn t₂, W.history.log = t₁ ++ .accepted c conn :: t₂ →
    readFrom conn.socket t₁ = []

/-- What is assumed of `srt_accept`: nothing was read from the socket it returns, and what has
arrived for it is waiting. -/
def AcceptsUnread (W : World w) : Move → Prop
  | .event event k => W.getsockstate event.fd = .listening →
    (W.channel k.accept).queue = (W.channel k.accept).arrived ∧
      k.backlog = (W.channel k.accept).arrived
  | _ => True

theorem readsInOrder_init (w : ℕ) (socket : SRTSOCKET) : ReadsInOrder (init w socket) where
  arrived := fun _ => rfl
  unread := fun t₁ c conn t₂ hlog => by simp [init, start] at hlog

/-- What handling an event reads: `l` is what it adds to the history, and `channel` is how it leaves
the channels. It takes what it reads off the queue, and what it accepts was not read from. -/
structure Reads (W : World w) (l : List Observation) (channel : SRTSOCKET → Channel) : Prop where
  arrived : ∀ fd, (channel fd).arrived = (W.channel fd).arrived
  read : ∀ fd, readFrom fd l ++ (channel fd).queue.map Message.bytes =
    (W.channel fd).queue.map Message.bytes
  unread : ∀ t₁ c conn t₂, l = t₁ ++ .accepted c conn :: t₂ → readFrom conn.socket t₁ = [] ∧
    (W.channel conn.socket).queue = (W.channel conn.socket).arrived

theorem readFrom_of_silent {fd : SRTSOCKET} {t : List Observation}
    (ht : ∀ o ∈ t, messageOf fd o = none) : readFrom fd t = [] :=
  List.filterMap_eq_nil_iff.mpr ht

/-- Observations that neither read nor accept. -/
theorem reads_of_quiet (W : World w) {l : List Observation}
    (hquiet : ∀ o ∈ l, (∀ fd, messageOf fd o = none) ∧ ∀ c, ¬ IsAccepted c o) :
    Reads W l W.channel where
  arrived := fun _ => rfl
  read := fun fd => by rw [readFrom_of_silent fun o ho => (hquiet o ho).1 fd, List.nil_append]
  unread := fun t₁ c conn t₂ hsplit => by
    have hmem : .accepted c conn ∈ l := by simp [hsplit]
    exact absurd ⟨conn, rfl⟩ ((hquiet _ hmem).2 c)

theorem quiet_setAtData {l : List Observation} (hl : ∀ o ∈ l, ∃ d block, o = .setAtData d block) :
    ∀ o ∈ l, (∀ fd, messageOf fd o = none) ∧ ∀ c, ¬ IsAccepted c o := by
  intro o ho
  obtain ⟨_, _, rfl⟩ := hl o ho
  exact ⟨fun _ => rfl, by simp [IsAccepted]⟩

theorem reads_acceptBranch {W : World w} {k : Choice} {a : Answers} (haccept : a.accept = k.accept)
    (hqueue : (W.channel k.accept).queue = (W.channel k.accept).arrived)
    (hbacklog : k.backlog = (W.channel k.accept).arrived) :
    ∃ l, (Server.acceptBranch W.history a).log = W.history.log ++ l ∧
      Reads W l (Function.update W.channel k.accept ⟨k.backlog, k.backlog, [], k.gone⟩) := by
  obtain ⟨l, hl, hlog⟩ := acceptBranch_log W.history a
  have hnone : ∀ fd, ∀ o ∈ l, messageOf fd o = none := by
    intro fd o ho
    rcases hlog o ho with ⟨_, _, rfl⟩ | ⟨_, _, rfl⟩ | rfl | ⟨_, rfl, -⟩ <;> rfl
  refine ⟨l, hl, fun fd => ?_, fun fd => ?_, fun t₁ c conn t₂ hsplit => ?_⟩
  · rcases eq_or_ne fd k.accept with rfl | hfd
    · rw [Function.update_self, hbacklog]
    · rw [Function.update_of_ne hfd]
  · rw [readFrom_of_silent (hnone fd), List.nil_append]
    rcases eq_or_ne fd k.accept with rfl | hfd
    · rw [Function.update_self, hbacklog, hqueue]
    · rw [Function.update_of_ne hfd]
  · have hmem : .accepted c conn ∈ l := by simp [hsplit]
    rcases hlog _ hmem with ⟨_, _, ho⟩ | ⟨_, _, ho⟩ | ho | ⟨_, ho, hsocket⟩
    · simp at ho
    · simp at ho
    · simp at ho
    · obtain ⟨-, rfl⟩ := Observation.accepted.inj ho
      rw [hsocket, haccept]
      exact ⟨readFrom_of_silent fun o ho => hnone _ o (by simp [hsplit, ho]), hqueue⟩

theorem reads_removeBranch (W : World w) (sock : SRTSOCKET) (a : Answers) :
    ∃ l, (Server.removeBranch W.history sock a).log = W.history.log ++ l ∧
      Reads W l W.channel := by
  cases hlook : W.history.state.connectionsBySocket.lookup sock with
  | none =>
    refine ⟨[], ?_, reads_of_quiet W (by simp)⟩
    rw [removeBranch_log_of_none a hlook, List.append_nil]
  | some d =>
    rcases removeBranch_log a hlook with ⟨-, hl⟩ | ⟨block, l, -, hl, hsets⟩
    · exact ⟨_, hl, reads_of_quiet W (by simp [messageOf, IsAccepted])⟩
    · refine ⟨_, hl, reads_of_quiet W ?_⟩
      simpa [messageOf, IsAccepted] using quiet_setAtData hsets

theorem reads_dataBranch (W : World w) (event : Event) (k : Choice) :
    ∃ l, (Server.dataBranch W.history event (W.answers event k)).log = W.history.log ++ l ∧
      Reads W l (if event.events.inp then
        Function.update W.channel event.fd
          ((W.channel event.fd).pop (W.history.state.listener event.fd).isSome)
        else W.channel) := by
  obtain ⟨l, hl, hsets⟩ := dataBranch_log W.history event (W.answers event k)
  have hquiet := quiet_setAtData hsets
  refine ⟨_, hl, fun fd => ?_, fun fd => ?_, fun t₁ c conn t₂ hsplit => ?_⟩
  · split
    · rcases eq_or_ne fd event.fd with rfl | hfd
      · rw [Function.update_self]
        rfl
      · rw [Function.update_of_ne hfd]
    · rfl
  · rw [readFrom_append, readFrom_of_silent fun o ho => (hquiet o ho).1 fd, List.append_nil,
      readFrom, messages_readLog, taken_answers]
    rcases eq_or_ne event.fd fd with rfl | hfd
    · rw [if_pos rfl]
      split
      · rw [Function.update_self]
        cases hqueue : (W.channel event.fd).queue <;> simp [Channel.pop, hqueue]
      · rfl
    · rw [if_neg hfd, List.nil_append]
      split
      · rw [Function.update_of_ne hfd.symm]
      · rfl
  · have hmem : .accepted c conn ∈ (taken event (W.answers event k)).flatMap
        (W.history.state.readLog event.fd) ++ l := by simp [hsplit]
    rcases List.mem_append.mp hmem with ho | ho
    · simp [readLog] at ho
    · exact absurd ⟨conn, rfl⟩ ((hquiet _ ho).2 c)

/-- **What an event reads.** -/
theorem exists_reads {W : World w} {event : Event} {k : Choice}
    (hunread : AcceptsUnread W (.event event k)) :
    ∃ l, (W.step (.event event k)).history.log = W.history.log ++ l ∧
      Reads W l (W.step (.event event k)).channel := by
  have hcases := handleEvent_cases W.history (event, W.answers event k)
  simp only [step]
  rcases hcases with ⟨hidle, heq⟩ | ⟨hraised, hstate, heq⟩ | ⟨-, hgone, heq⟩ |
    ⟨hraised, hstate, heq⟩
  · rw [channelAfter_of_ne (hidle.imp_right fun h => ⟨h.1, h.2.2⟩), heq]
    exact ⟨[], (List.append_nil _).symm, reads_of_quiet W (by simp)⟩
  · rw [channelAfter_of_listening hraised hstate, heq]
    exact reads_acceptBranch rfl (hunread hstate).1 (hunread hstate).2
  · have hne : W.getsockstate event.fd ≠ .listening ∧ W.getsockstate event.fd ≠ .connected := by
      rcases hgone with h | h | h <;> rw [show W.getsockstate event.fd = _ from h] <;> simp
    rw [channelAfter_of_ne (Or.inr hne), heq]
    exact reads_removeBranch W event.fd _
  · rw [channelAfter_of_connected hraised hstate, heq]
    exact reads_dataBranch W event k

/-- **One move** reads in order. -/
theorem ReadsInOrder.step {W : World w} (hW : ReadsInOrder W) {move : Move}
    (hunread : AcceptsUnread W move) : ReadsInOrder (W.step move) := by
  cases move with
  | arrive fd m =>
    refine ⟨fun fd' => ?_, hW.unread⟩
    have harrived := hW.arrived fd'
    rcases eq_or_ne fd' fd with rfl | hfd
    · simp only [World.step, Function.update_self, Channel.arrive]
      split
      · exact harrived
      · rw [List.map_append, List.map_append, ← List.append_assoc, harrived]
    · simpa only [World.step, Function.update_of_ne hfd] using harrived
  | peerClose fd =>
    refine ⟨fun fd' => ?_, hW.unread⟩
    have harrived := hW.arrived fd'
    rcases eq_or_ne fd' fd with rfl | hfd
    · simpa only [World.step, Function.update_self, Channel.peerClose] using harrived
    · simpa only [World.step, Function.update_of_ne hfd] using harrived
  | event event k =>
    obtain ⟨l, hl, hreads⟩ := exists_reads hunread
    refine ⟨fun fd => ?_, fun t₁ c conn t₂ hsplit => ?_⟩
    · rw [hl, readFrom_append, List.append_assoc, hreads.read, hreads.arrived]
      exact hW.arrived fd
    · rw [hl] at hsplit
      rcases List.append_eq_append_iff.mp hsplit with ⟨u, rfl, hu⟩ | ⟨u, hu, hrest⟩
      · obtain ⟨hnone, hqueue⟩ := hreads.unread u c conn t₂ hu
        have harrived := hW.arrived conn.socket
        rw [hqueue, List.append_left_eq_self] at harrived
        rw [readFrom_append, harrived, hnone, List.append_nil]
      · cases u with
        | nil =>
          obtain ⟨-, hqueue⟩ := hreads.unread [] c conn t₂ hrest.symm
          have harrived := hW.arrived conn.socket
          rw [hqueue, List.append_left_eq_self] at harrived
          rw [← harrived, hu, List.append_nil]
        | cons o u =>
          obtain ⟨rfl, -⟩ := List.cons.inj hrest
          exact hW.unread t₁ c conn u hu

/-- What was read for a connection is the beginning of what has arrived on its socket, and all that
is not queued while it is registered. -/
theorem ReadsInOrder.inbox {W : World w} (hW : ReadsInOrder W) {c : ℕ} {conn : Connection}
    {n : Session} (hn : Session.ofHistory c W.history.log = some n)
    (hacc : .accepted c conn ∈ W.history.log) :
    n.inbox <+: (W.channel conn.socket).arrived.map Message.bytes ∧
      (n.phase = .registered → n.inbox ++ (W.channel conn.socket).queue.map Message.bytes =
        (W.channel conn.socket).arrived.map Message.bytes) := by
  obtain ⟨t₁, t₂, hlog⟩ := List.append_of_mem hacc
  have hread : readFrom conn.socket W.history.log = readFrom conn.socket t₂ := by
    rw [hlog, readFrom_append, hW.unread t₁ c conn t₂ hlog, List.nil_append]
    rfl
  have harrived := hW.arrived conn.socket
  rw [hread] at harrived
  rw [hlog] at hn
  obtain ⟨hinit, hall⟩ := Session.inbox_of_accepted hn
  rw [← harrived]
  exact ⟨hinit.trans (List.prefix_append _ _), fun hreg => by rw [hall hreg]; rfl⟩

end World

/-! ### Networks -/

/-- A server, and the clients at the other ends of its sockets. -/
structure Network (w : ℕ) where
  world : World w
  client : SRTSOCKET → Stream.State

namespace Network

/-- What can happen next. The client of a socket calls `sendmsg`, or its loop makes a pass in which
`srt_sendmsg2` returns `nbytes`; the first of its packets that are under way is delivered; it
closes; or the server handles an event. -/
inductive Move
  | call (fd : SRTSOCKET)
  | packet (fd : SRTSOCKET) (nbytes : ℤ)
  | deliver (fd : SRTSOCKET)
  | peerClose (fd : SRTSOCKET)
  | event (event : Event) (accept : SRTSOCKET) (addUsock : Bool) (block : BlockRun)

/-- A packet, as a message in live mode. -/
def message? (data : Bytes) : Option Message :=
  if h : data ≠ [] ∧ data.length ≤ liveMaxPayload then some ⟨data, h.1, h.2⟩ else none

/-- The first packet under way arrives, unless the connection is broken. -/
def deliver (N : Network w) (fd : SRTSOCKET) : Network w :=
  if (N.world.channel fd).broken then N
  else
    match (N.client fd).channel with
    | [] => N
    | data :: rest =>
      match message? data with
      | none => N
      | some m =>
        { world := N.world.step (.arrive fd m)
          client := Function.update N.client fd
            { N.client fd with
              channel := rest
              received := (N.client fd).received ++ [data] } }

/-- What is free when an event is handled: a socket that is accepted comes with what has arrived. -/
def choice (N : Network w) (accept : SRTSOCKET) (addUsock : Bool) (block : BlockRun) : Choice :=
  ⟨accept, (N.world.channel accept).queue, (N.world.channel accept).broken, addUsock, block⟩

/-- One move. -/
def step (N : Network w) : Move → Network w
  | .call fd => { N with client := Function.update N.client fd (Stream.step (N.client fd) .call) }
  | .packet fd nbytes =>
    { N with client := Function.update N.client fd (Stream.step (N.client fd) (.packet nbytes)) }
  | .deliver fd => N.deliver fd
  | .peerClose fd => { N with world := N.world.step (.peerClose fd) }
  | .event event accept addUsock block =>
    { N with world := N.world.step (.event event (N.choice accept addUsock block)) }

/-- Nobody is connected, and each client has its strings to send. -/
def init (w : ℕ) (socket : SRTSOCKET) (strings : SRTSOCKET → List Bytes) : Network w :=
  ⟨World.init w socket, fun fd => Stream.init (strings fd)⟩

/-- What is assumed of libsrt: `srt_sendmsg2` accepts at least one byte and no more than asked for,
and `srt_accept` returns a socket that is not registered and that nothing was read from. -/
def Assumed (N : Network w) : Move → Prop
  | .packet fd nbytes => Stream.Accepts (N.client fd) (.packet nbytes)
  | .event event accept _ _ => N.world.getsockstate event.fd = .listening →
    accept ∉ N.world.history.state.connectionsBySocket.keys ∧
      (N.world.channel accept).queue = (N.world.channel accept).arrived
  | _ => True

/-- What is known of a network. -/
structure Inv (strings : SRTSOCKET → List Bytes) (N : Network w) : Prop where
  watched : Watched N.world.history
  reads : World.ReadsInOrder N.world
  client : ∀ fd, Stream.Inv (strings fd) (N.client fd)
  arrived : ∀ fd, (N.world.channel fd).arrived.map Message.bytes = (N.client fd).received

variable {strings : SRTSOCKET → List Bytes} {N : Network w}

theorem inv_init (w : ℕ) (socket : SRTSOCKET) (strings : SRTSOCKET → List Bytes) :
    Inv strings (init w socket strings) where
  watched := watched_start w socket
  reads := World.readsInOrder_init w socket
  client := fun fd => Stream.inv_init (strings fd)
  arrived := fun _ => rfl

/-! ### Clients -/

/-- Neither a call nor a pass of the loop of `sendmsg` delivers anything. -/
theorem received_step_send (s : Stream.State) {move : Stream.Move}
    (hmove : ∀ r, move ≠ .receive r) : (Stream.step s move).received = s.received := by
  cases move with
  | call =>
    rw [Stream.step]
    split <;> rfl
  | packet nbytes =>
    rw [Stream.step]
    split
    · rfl
    · dsimp only
      split <;> rfl
  | receive r => exact absurd rfl (hmove r)

/-- A move of one client. -/
theorem Inv.send (h : Inv strings N) (hstrings : ∀ fd, Stream.Sendable (strings fd))
    {fd : SRTSOCKET} {move : Stream.Move} (hmove : ∀ r, move ≠ .receive r)
    (haccepts : Stream.Accepts (N.client fd) move) :
    Inv strings { N with
      client := Function.update N.client fd (Stream.step (N.client fd) move) } where
  watched := h.watched
  reads := h.reads
  client := fun fd' => by
    rcases eq_or_ne fd' fd with rfl | hfd
    · simpa only [Function.update_self] using (h.client fd').step (hstrings fd') haccepts
    · simpa only [Function.update_of_ne hfd] using h.client fd'
  arrived := fun fd' => by
    rcases eq_or_ne fd' fd with rfl | hfd
    · simpa only [Function.update_self, received_step_send _ hmove] using h.arrived fd'
    · simpa only [Function.update_of_ne hfd] using h.arrived fd'

theorem message?_of_fits {data : Bytes} (hne : data ≠ []) (hlen : data.length ≤ payloadSize) :
    ∃ m, message? data = some m ∧ m.bytes = data := by
  have hle : data.length ≤ liveMaxPayload := Nat.le_trans hlen (by decide)
  exact ⟨⟨data, hne, hle⟩, dif_pos ⟨hne, hle⟩, rfl⟩

/-- A packet that was under way. -/
theorem delivered {strings : List Bytes} {s : Stream.State} {data : Bytes} {rest : List Bytes}
    (h : Stream.Inv strings s) (hchannel : s.channel = data :: rest) :
    Stream.Inv strings { s with channel := rest, received := s.received ++ [data] } where
  order := h.order
  fifo := by
    have hfifo := h.fifo
    rw [hchannel, List.append_cons] at hfifo
    exact hfifo
  fits := h.fits
  finished := h.finished
  sending := h.sending

/-- **A packet arrives.** -/
theorem Inv.deliver (h : Inv strings N) (fd : SRTSOCKET) : Inv strings (N.deliver fd) := by
  rw [Network.deliver]
  split
  · exact h
  · next hbroken =>
    split
    · exact h
    · next data rest hchannel =>
      have hmem : data ∈ (N.client fd).channel := hchannel ▸ List.mem_cons_self
      obtain ⟨hne, hlen⟩ := (h.client fd).fits_channel hmem
      obtain ⟨m, hm, rfl⟩ := message?_of_fits hne hlen
      simp only [hm]
      have harrive : World.AcceptsUnread N.world (.arrive fd m) := trivial
      refine ⟨h.watched, h.reads.step harrive, fun fd' => ?_, fun fd' => ?_⟩
      · rcases eq_or_ne fd' fd with rfl | hfd
        · simpa only [Function.update_self] using delivered (h.client fd') hchannel
        · simpa only [Function.update_of_ne hfd] using h.client fd'
      · rcases eq_or_ne fd' fd with rfl | hfd
        · simp only [World.step, Function.update_self, Channel.arrive, if_neg hbroken,
            List.map_append, h.arrived fd']
          rfl
        · simpa only [World.step, Function.update_of_ne hfd] using h.arrived fd'

/-! ### The server -/

/-- **The server handles an event.** -/
theorem Inv.event (h : Inv strings N) {event : Event} {accept : SRTSOCKET} {addUsock : Bool}
    {block : BlockRun} (hassumed : Assumed N (.event event accept addUsock block)) :
    Inv strings (N.step (.event event accept addUsock block)) := by
  have hunread : World.AcceptsUnread N.world
      (.event event (N.choice accept addUsock block)) := fun hstate =>
    ⟨(hassumed hstate).2, (hassumed hstate).2⟩
  obtain ⟨l, -, hreads⟩ := World.exists_reads hunread
  refine ⟨handleEvent_watched h.watched fun hstate => (hassumed hstate).1,
    h.reads.step hunread, h.client, fun fd => ?_⟩
  exact (congrArg (List.map Message.bytes) (hreads.arrived fd)).trans (h.arrived fd)

/-- **One move.** -/
theorem Inv.step (h : Inv strings N) (hstrings : ∀ fd, Stream.Sendable (strings fd)) {move : Move}
    (hassumed : Assumed N move) : Inv strings (N.step move) := by
  cases move with
  | call fd => exact h.send hstrings (by simp) trivial
  | packet fd nbytes => exact h.send hstrings (by simp) hassumed
  | deliver fd => exact h.deliver fd
  | peerClose fd =>
    have hclose : World.AcceptsUnread N.world (.peerClose fd) := trivial
    refine ⟨h.watched, h.reads.step hclose, h.client, fun fd' => ?_⟩
    rcases eq_or_ne fd' fd with rfl | hfd
    · simpa only [Network.step, World.step, Function.update_self, Channel.peerClose] using
        h.arrived fd'
    · simpa only [Network.step, World.step, Function.update_of_ne hfd] using h.arrived fd'
  | event event accept addUsock block => exact h.event hassumed

/-! ### Recordings -/

/-- All that was passed to the `at_data` blocks of a connection. -/
def recording (N : Network w) (c : ℕ) : Bytes :=
  ((chunks c N.world.history.log).map Prod.snd).flatten

/-- Nothing is left to be sent, under way or queued. -/
def Drained (N : Network w) (fd : SRTSOCKET) : Prop :=
  (N.client fd).pending = [] ∧ (N.client fd).sending = none ∧ (N.client fd).channel = [] ∧
    (N.world.channel fd).queue = []

/-- The recording of a connection that was accepted with an `at_data` block, and has kept it. -/
structure Records (strings : SRTSOCKET → List Bytes) (N : Network w) (c : ℕ) (fd : SRTSOCKET)
    (block : Proc) : Prop where
  steady : ∀ chunk ∈ chunks c N.world.history.log, chunk.1 = block
  begun : N.recording c <+: (strings fd).flatten
  all : N.world.history.state.connectionsBySocket.lookup fd = some c → N.Drained fd →
    N.recording c = (strings fd).flatten

theorem Inv.records (h : Inv strings N) {c : ℕ} {conn : Connection} {block : Proc}
    (hacc : .accepted c conn ∈ N.world.history.log) (hblock : conn.atDataBlock = some block)
    (hnever : Runs.NeverAfter (IsAccepted c) (SetsAtData c) N.world.history.log) :
    Records strings N c conn.socket block := by
  obtain ⟨n, hn⟩ := h.watched c
  have hpassed := hn.passed block (((Session.of_accepted hn.history hacc).2 hnever).trans hblock)
  rw [Session.passed_of_history hn.history] at hpassed
  have hrecording : N.recording c = n.inbox.flatten := by
    rw [recording, hpassed, List.map_map]
    exact congrArg List.flatten (List.map_id' n.inbox)
  obtain ⟨hinit, hall⟩ := h.reads.inbox hn.history hacc
  rw [h.arrived] at hinit hall
  have hclient := (h.client conn.socket).intact
  refine ⟨fun chunk hchunk => ?_, ?_, fun hlook hdrained => ?_⟩
  · rw [hpassed] at hchunk
    obtain ⟨data, -, rfl⟩ := List.mem_map.mp hchunk
    rfl
  · rw [hrecording]
    exact (List.IsPrefix.flatten hinit).trans hclient.upTo
  · obtain ⟨hpending, hsending, hchannel, hqueue⟩ := hdrained
    have hreceived := hall ((hn.registered conn.socket).mp hlook).1
    rw [hqueue, List.map_nil, List.append_nil] at hreceived
    rw [hrecording, hreceived]
    exact hclient.all hpending hsending hchannel

/-- **Every connection records its own client**, as long as no `srt_sendmsg2` fails. However the
transport splits and delays what the clients send, whoever closes when, and whatever the blocks do:
what a connection passes to the `at_data` block it was accepted with, and which it keeps, is the
beginning of what the client at the other end of its socket sends, and all of it once nothing is
left, if the connection is still registered. -/
theorem recordings (hstrings : ∀ fd, Stream.Sendable (strings fd)) (socket : SRTSOCKET)
    {moves : List Move} (hassumed : Runs.Along step Assumed (init w socket strings) moves) :
    ∀ N ∈ init w socket strings :: Runs.states step (init w socket strings) moves,
      ∀ c conn block, .accepted c conn ∈ N.world.history.log → conn.atDataBlock = some block →
        Runs.NeverAfter (IsAccepted c) (SetsAtData c) N.world.history.log →
        Records strings N c conn.socket block := by
  have hinit := inv_init w socket strings
  have hstates := Runs.forall_mem_states (fun _ _ h hm => h.step hstrings hm) hinit hassumed
  have hall : ∀ N ∈ init w socket strings :: Runs.states step (init w socket strings) moves,
      Inv strings N := List.forall_mem_cons.mpr ⟨hinit, hstates⟩
  exact fun N hN c conn block => (hall N hN).records

/-- Two clients with one string each. -/
def twoStrings (fd : SRTSOCKET) : List Bytes :=
  if fd = 2 then [[1, 2, 3]] else if fd = 3 then [[9]] else []

/-- A peer knocks and gets the id `fd`, and its `at_data` block is registered on connection `c`. -/
def knocks (fd : SRTSOCKET) (c : ℕ) : Move :=
  .event ⟨1, ⟨true, false, false, false⟩⟩ fd true ⟨[.atData c 7], some true⟩

/-- The server is told that it can read from `fd`. -/
def reads (fd : SRTSOCKET) : Move :=
  .event ⟨fd, ⟨true, false, false, false⟩⟩ SRT_INVALID_SOCK true ⟨[], some true⟩

/-- The first string goes in two packets, and the other client comes in between. -/
def twoClients : List Move :=
  [.call 2, .packet 2 2, .deliver 2, knocks 2 0, .call 3, .packet 3 1, knocks 3 1, .deliver 3,
    reads 3, reads 2, .packet 2 1, .deliver 2, reads 2]

theorem recordings_twoClients :
    Records twoStrings (Runs.exec step (init 64 1 twoStrings) twoClients) 0 2 7 ∧
      (Runs.exec step (init 64 1 twoStrings) twoClients).recording 0 = [1, 2, 3] := by
  have hstrings : ∀ fd, Stream.Sendable (twoStrings fd) := by
    intro fd
    rw [twoStrings]
    split_ifs <;> simp [Stream.Sendable]
  have hassumed : Runs.Along step Assumed (init 64 1 twoStrings) twoClients := by
    refine ⟨trivial, by rw [Assumed]; decide, trivial, fun _ => ⟨by decide, rfl⟩,
      trivial, by rw [Assumed]; decide, fun _ => ⟨by decide, rfl⟩, trivial,
      fun h => absurd h (by decide), fun h => absurd h (by decide),
      by rw [Assumed]; decide, trivial, fun h => absurd h (by decide), trivial⟩
  have hlast : Runs.exec step (init 64 1 twoStrings) twoClients ∈
      init 64 1 twoStrings :: Runs.states step (init 64 1 twoStrings) twoClients :=
    List.mem_cons.mpr (Runs.exec_mem_states _ _ _)
  exact ⟨recordings hstrings 1 hassumed _ hlast 0 ⟨2, some 7, none⟩ 7 (by decide) rfl (by decide),
    by decide⟩

end Network

end Server

end Rbsrt
