import Rbsrt.Server.TailLoss
import Rbsrt.Server.Watching

/-!
# Who is served

The loop reads one message for each event, whatever else is waiting. So a message waits for as many
events of its own socket as there are messages before it, and for nothing else: how many other
connections there are, what they send, and which of them come and go in between, does not matter.

`Holds` is what a connection needs to be served: it is registered, its socket is open and it has an
`at_data` block. `Spares` is the condition on what happens around it. The block that is called for
an event must not raise, close this connection or replace its `at_data` block, and its peer must not
be gone.

## Main results

* `Holds.handleEvent` — what an event that spares a connection leaves as it is
* `World.Serves.step` — one move
* `World.service` — the first `n` messages of a queue are passed on by the next `n` events
-/

namespace Rbsrt

namespace Server

open Observation

variable {w : ℕ}

/-! ### What is left alone -/

/-- Connection `c` is registered under `fd`, which is open, and has the `at_data` block `block`. -/
structure Holds (s : Server w) (fd : SRTSOCKET) (c : ℕ) (block : Proc) : Prop where
  socket : s.socket ≠ fd
  opened : fd ∈ s.opened
  registered : s.connectionsBySocket.lookup fd = some c
  allocated : c < s.allocated
  block : (s.heap c).atDataBlock = some block

/-- The block that is called for an event does not raise, does not close `fd` and does not register
an `at_data` block on `c`, and `fd` is not the one that is accepted or gone. -/
structure Spares (fd : SRTSOCKET) (c : ℕ) (h : History w) (i : Event × Answers) : Prop where
  result : i.2.block.result ≠ none
  open' : fd ∉ blockCloses h i
  keeps : ∀ block, .atData c block ∉ i.2.block.actions
  accept : i.2.getsockstate = .listening → i.2.accept ≠ fd
  gone : Gone i.2.getsockstate → i.1.fd ≠ fd

variable {fd : SRTSOCKET} {c : ℕ} {block : Proc} {h : History w}

theorem Holds.perform {s : Server w} (hs : Holds s fd c block) {action : Action}
    (hopen : fd ∉ closedBy s [action]) (hkeeps : ∀ b, .atData c b ≠ action) :
    Holds (s.perform action).1 fd c block := by
  have hsame := perform_sameTables s action
  refine ⟨?_, mem_opened_perform.mpr ⟨hs.opened, hopen⟩, ?_, ?_, ?_⟩
  · cases action <;> exact hs.socket
  · rw [hsame.connectionsBySocket]
    exact hs.registered
  · rw [hsame.allocated]
    exact hs.allocated
  · cases action with
    | atData d b =>
      have hne : c ≠ d := fun heq => hkeeps b (by rw [heq])
      simpa [Server.perform, modifyConnection, hne] using hs.block
    | atClose d b =>
      rcases eq_or_ne c d with rfl | hne
      · simpa [Server.perform, modifyConnection] using hs.block
      · simpa [Server.perform, modifyConnection, hne] using hs.block
    | close d => exact hs.block

theorem Holds.callBlock (hs : Holds h.state fd c block) {actions : List Action}
    (hopen : fd ∉ closedBy h.state actions) (hkeeps : ∀ b, .atData c b ∉ actions) :
    Holds (callBlock h actions).state fd c block := by
  induction actions generalizing h with
  | nil => exact hs
  | cons action actions ih =>
    rw [closedBy_cons, List.mem_append, not_or] at hopen
    have hnext := hs.perform hopen.1 fun b hb => hkeeps b (hb ▸ List.mem_cons_self)
    refine ih (h := Runs.record Server.perform h action) hnext ?_ fun b hb =>
      hkeeps b (List.mem_cons_of_mem _ hb)
    rw [Runs.record_state, closedBy_congr (perform_sameTables h.state action).socket]
    exact hopen.2

/-- A change of another connection. -/
theorem Holds.modifyConnection {s : Server w} (hs : Holds s fd c block) {d : ℕ} (hd : c ≠ d)
    (f : Connection → Connection) : Holds (s.modifyConnection d f) fd c block :=
  { hs with block := by simpa [Server.modifyConnection, hd] using hs.block }

theorem Holds.newConnection {s : Server w} (hs : Holds s fd c block) (remoteFd : SRTSOCKET) :
    Holds (s.newConnection remoteFd) fd c block where
  socket := hs.socket
  opened := mem_opened_newConnection.mpr (Or.inl hs.opened)
  registered := hs.registered
  allocated := Nat.lt_succ_of_lt hs.allocated
  block := by simpa [Server.newConnection, Nat.ne_of_lt hs.allocated] using hs.block

theorem Holds.acceptBranch (hs : Holds h.state fd c block) {a : Answers}
    (hresult : a.block.result ≠ none)
    (hopen : fd ∉ closedBy (h.state.newConnection a.accept) a.block.actions)
    (hkeeps : ∀ b, .atData c b ∉ a.block.actions) (haccept : a.accept ≠ fd) :
    Holds (acceptBranch h a).state fd c block := by
  have hcall : Holds (Server.callBlock (presentConnection h a.accept)
      a.block.actions).state fd c block :=
    Holds.callBlock (h := presentConnection h a.accept) (hs.newConnection a.accept)
      hopen hkeeps
  have hsocket := socket_callBlock_presentConnection h a.accept a.block.actions
  rw [Server.acceptBranch]
  generalize Server.callBlock (presentConnection h a.accept) a.block.actions = h' at *
  cases hr : a.block.result with
  | none => exact absurd hr hresult
  | some accepted =>
    cases accepted with
    | false =>
      exact { hcall with opened := List.mem_filter.mpr ⟨hcall.opened, by simpa using haccept.symm⟩ }
    | true =>
      simp only [Runs.tell_state, Runs.update_state, hsocket]
      have hadd : Holds (h'.state.epollAddUsock a.accept a.addUsock) fd c block := by
        rw [epollAddUsock]
        split
        · exact { hcall with }
        · exact hcall
      refine { hadd with registered := ?_ }
      rw [OrderedHash.lookup_aset_of_ne haccept.symm]
      exact hcall.registered

theorem Holds.closeConnection (hs : Holds h.state fd c block) {d : ℕ} (hd : c ≠ d) {a : Answers}
    (hresult : a.block.result ≠ none)
    (hopen : (h.state.heap d).atCloseBlock ≠ none → fd ∉ closedBy h.state a.block.actions)
    (hkeeps : ∀ b, .atData c b ∉ a.block.actions) :
    Holds (closeConnection h d a).state fd c block := by
  rw [Server.closeConnection]
  cases hclose : (h.state.heap d).atCloseBlock with
  | none => exact hs.modifyConnection hd fun conn => { conn with atDataBlock := none }
  | some b =>
    have hcall := Holds.callBlock (h := h.tell (.callAtClose d b)) hs
      (hopen (by simp [hclose])) hkeeps
    cases hr : a.block.result with
    | none => exact absurd hr hresult
    | some _ =>
      exact hcall.modifyConnection hd fun conn =>
        { conn with atCloseBlock := none, atDataBlock := none }

theorem Holds.removeBranch (hs : Holds h.state fd c block) {sock : SRTSOCKET} (hsock : sock ≠ fd)
    (hother : h.state.connectionsBySocket.lookup sock ≠ some c) {a : Answers}
    (hresult : a.block.result ≠ none)
    (hopen : h.state.closer sock ≠ none → fd ∉ closedBy h.state a.block.actions)
    (hkeeps : ∀ b, .atData c b ∉ a.block.actions) :
    Holds (removeBranch h sock a).state fd c block := by
  rw [closer] at hopen
  rw [Server.removeBranch]
  simp only [Runs.update_state, epollRemoveUsock]
  cases hlook : h.state.connectionsBySocket.lookup sock with
  | none => exact { hs with }
  | some d =>
    rw [hlook, Option.bind_some] at hopen
    have hd : c ≠ d := fun heq => hother (heq ▸ hlook)
    refine Holds.closeConnection (h := unregister (h.update (·.epollRemoveUsock sock)) sock d)
      { hs with registered := ?_ } hd hresult hopen hkeeps
    exact (OrderedHash.lookup_delete_of_ne hsock.symm).trans hs.registered

theorem Holds.dataBranch (hs : Holds h.state fd c block) {event : Event} {a : Answers}
    (hresult : a.block.result ≠ none)
    (hopen : taken event a ≠ [] → h.state.listener event.fd ≠ none →
      fd ∉ closedBy h.state a.block.actions)
    (hkeeps : ∀ b, .atData c b ∉ a.block.actions) :
    Holds (dataBranch h event a).state fd c block := by
  rw [taken] at hopen
  rw [Server.dataBranch]
  split
  · next hin =>
    rw [if_pos hin] at hopen
    split
    · next byte bytes hrecv =>
      simp only [hrecv, listener] at hopen
      simp only [Runs.tell_state]
      cases hlook : h.state.connectionsBySocket.lookup event.fd with
      | none => exact hs
      | some d =>
        rw [hlook, Option.bind_some] at hopen
        simp only [deliver, Runs.tell_state]
        cases hblock : (h.state.heap d).atDataBlock with
        | none => exact hs
        | some b =>
          have hcall := Holds.callBlock
            (h := (h.tell (.received event.fd (byte :: bytes))).tell
              (.callAtData d b (byte :: bytes)))
            hs (hopen (by simp) (by simp [hblock])) hkeeps
          cases hr : a.block.result with
          | none => exact absurd hr hresult
          | some _ => exact hcall
    · exact hs
  · exact hs

/-- **An event that spares a connection** leaves it as it is. -/
theorem Holds.handleEvent (hs : Holds h.state fd c block) {i : Event × Answers}
    (hother : i.1.fd ≠ fd → h.state.connectionsBySocket.lookup i.1.fd ≠ some c)
    (hspares : Spares fd c h i) : Holds (handleEvent h i).state fd c block := by
  have hopen := hspares.open'
  rcases handleEvent_cases h i with ⟨-, heq⟩ | ⟨-, hstate, heq⟩ | ⟨-, hgone, heq⟩ |
    ⟨-, hstate, heq⟩
  · rw [heq]
    exact hs
  · rw [blockCloses, hstate] at hopen
    rw [heq]
    exact hs.acceptBranch hspares.result hopen hspares.keeps (hspares.accept hstate)
  · rw [blockCloses_of_gone hgone] at hopen
    have hsock := hspares.gone hgone
    rw [heq]
    refine hs.removeBranch hsock (hother hsock) hspares.result (fun hcloser => ?_) hspares.keeps
    rwa [if_neg hcloser] at hopen
  · rw [blockCloses_of_connected hstate] at hopen
    rw [heq]
    refine hs.dataBranch hspares.result (fun htaken hlistener => ?_) hspares.keeps
    rwa [if_neg (not_or.mpr ⟨htaken, hlistener⟩)] at hopen

/-! ### One move -/

namespace World

/-- A connection that is served: nothing has gone wrong with it or with the loop. -/
structure Serves (W : World w) (fd : SRTSOCKET) (c : ℕ) (block : Proc) : Prop where
  watched : Watched W.history
  raised : W.history.state.raised = false
  holds : Holds W.history.state fd c block
  broken : (W.channel fd).broken = false

/-- The move spares the connection: its peer does not close, and the block that is called neither
raises, nor closes it, nor registers another `at_data` block on it. -/
def SparesMove (fd : SRTSOCKET) (c : ℕ) (W : World w) : Move → Prop
  | .arrive _ _ => True
  | .peerClose fd' => fd' ≠ fd
  | .event event k => k.block.result ≠ none ∧
    fd ∉ blockCloses W.history (event, W.answers event k) ∧
    ∀ block, .atData c block ∉ k.block.actions

/-- The loop is told that it can read from `fd`. -/
def IsTurn (fd : SRTSOCKET) : Move → Prop
  | .event event _ => event.fd = fd ∧ event.events.inp = true
  | _ => False

instance (fd : SRTSOCKET) : ∀ move, Decidable (IsTurn fd move)
  | .event _ _ => inferInstanceAs (Decidable (_ ∧ _))
  | .arrive _ _ | .peerClose _ => isFalse not_false

/-- What a move adds to the queue of `fd`. -/
def brought (fd : SRTSOCKET) : Move → List Message
  | .arrive fd' m => if fd' = fd then [m] else []
  | _ => []

variable {W : World w}

theorem Serves.connected (hW : Serves W fd c block) : W.getsockstate fd = .connected := by
  rw [getsockstate, if_neg hW.holds.socket.symm, if_neg (not_not.mpr hW.holds.opened), hW.broken]
  rfl

/-- No other socket is registered for the connection. -/
theorem Serves.lookup_ne (hW : Serves W fd c block) {fd' : SRTSOCKET} (hfd : fd' ≠ fd) :
    W.history.state.connectionsBySocket.lookup fd' ≠ some c :=
  fun hlook => hfd (hW.watched.socket_inj hW.holds.registered hlook)

/-- An accepted socket is not the one that is registered. -/
theorem Serves.accept_ne (hW : Serves W fd c block) {event : Event} {k : Choice}
    (hunused : AcceptsUnused W (.event event k)) (hstate : W.getsockstate event.fd = .listening) :
    k.accept ≠ fd := by
  rintro rfl
  exact hunused hstate (OrderedHash.mem_keys_iff.mpr ⟨c, hW.holds.registered⟩)

theorem Serves.spares (hW : Serves W fd c block) {event : Event} {k : Choice}
    (hunused : AcceptsUnused W (.event event k)) (hspares : SparesMove fd c W (.event event k)) :
    Spares fd c W.history (event, W.answers event k) where
  result := hspares.1
  open' := hspares.2.1
  keeps := hspares.2.2
  accept := hW.accept_ne hunused
  gone := by
    rintro hgone rfl
    have hconnected : Gone .connected := hW.connected ▸ hgone
    exact absurd hconnected (by decide)

theorem chunks_setAtData (c : ℕ) {l : List Observation}
    (hl : ∀ o ∈ l, ∃ d block, o = .setAtData d block) : chunks c l = [] := by
  refine List.filterMap_eq_nil_iff.mpr fun o ho => ?_
  obtain ⟨_, _, rfl⟩ := hl o ho
  rfl

/-- An event of another socket passes nothing on, and reads nothing. -/
theorem Serves.event_of_ne (hW : Serves W fd c block) {event : Event} {k : Choice}
    (hunused : AcceptsUnused W (.event event k)) (hfd : event.fd ≠ fd) :
    chunks c (W.step (.event event k)).history.log = chunks c W.history.log ∧
      (W.step (.event event k)).channel fd = W.channel fd := by
  have hcases := handleEvent_cases W.history (event, W.answers event k)
  simp only [step]
  rcases hcases with ⟨hidle, heq⟩ | ⟨hraised, hstate, heq⟩ | ⟨-, hgone, heq⟩ |
    ⟨hraised, hstate, heq⟩
  · rw [heq, channelAfter_of_ne (hidle.imp_right fun h => ⟨h.1, h.2.2⟩)]
    exact ⟨rfl, rfl⟩
  · obtain ⟨l, hl, hlog⟩ := acceptBranch_log W.history (W.answers event k)
    have hnone : chunks c l = [] := by
      refine List.filterMap_eq_nil_iff.mpr fun o ho => ?_
      rcases hlog o ho with ⟨_, _, rfl⟩ | ⟨_, _, rfl⟩ | rfl | ⟨_, rfl, -⟩ <;> rfl
    rw [heq, hl, chunks_append, hnone, List.append_nil, channelAfter_of_listening hraised hstate,
      Function.update_of_ne (hW.accept_ne hunused hstate).symm]
    exact ⟨rfl, rfl⟩
  · have hne : W.getsockstate event.fd ≠ .listening ∧ W.getsockstate event.fd ≠ .connected := by
      rcases hgone with h | h | h <;> rw [show W.getsockstate event.fd = _ from h] <;> simp
    rw [heq, channelAfter_of_ne (Or.inr hne)]
    refine ⟨?_, rfl⟩
    cases hlook : W.history.state.connectionsBySocket.lookup event.fd with
    | none => rw [removeBranch_log_of_none _ hlook]
    | some d =>
      rcases removeBranch_log (W.answers event k) hlook with ⟨-, hl⟩ | ⟨b, l, -, hl, hsets⟩
      · rw [hl, chunks_append]
        exact List.append_nil _
      · rw [hl, chunks_append]
        show _ ++ chunks c l = _
        rw [chunks_setAtData c hsets, List.append_nil]
  · obtain ⟨l, hl, hsets⟩ := dataBranch_log W.history event (W.answers event k)
    rw [heq, hl, chunks_append, chunks_append, chunks_readLog_of_ne (hW.lookup_ne hfd),
      chunks_setAtData c hsets, channelAfter_of_connected hraised hstate]
    refine ⟨by simp, ?_⟩
    split
    · rw [Function.update_of_ne hfd.symm]
    · rfl

/-- An event of the socket passes the first message on, if the loop is told that it can read. -/
theorem Serves.event_self (hW : Serves W fd c block) {event : Event} (k : Choice)
    (hfd : event.fd = fd) :
    chunks c (W.step (.event event k)).history.log = chunks c W.history.log ++
        (if event.events.inp then
          (W.channel fd).queue.head?.toList.map fun m => (block, m.bytes) else []) ∧
      (W.step (.event event k)).channel fd =
        if event.events.inp then (W.channel fd).pop true else W.channel fd := by
  subst hfd
  have hstate := hW.connected
  obtain ⟨l, hl, hsets⟩ := dataBranch_log W.history event (W.answers event k)
  have hstep : handleEvent W.history (event, W.answers event k) =
      dataBranch W.history event (W.answers event k) := by
    rw [handleEvent, hW.raised]
    simp only [answers, hstate]
    rfl
  have hheard : (W.history.state.listener event.fd).isSome = true := by
    simp [listener, hW.holds.registered, hW.holds.block]
  simp only [step]
  rw [hstep, hl, chunks_append, chunks_append, chunks_readLog hW.holds.registered,
    chunks_setAtData c hsets, taken_answers, channelAfter_of_connected hW.raised hstate, hheard,
    hW.holds.block]
  split
  · rw [Function.update_self]
    exact ⟨by simp, rfl⟩
  · exact ⟨by simp, rfl⟩

/-- **One move.** If it is the turn of the connection, the first message of its queue is passed on,
and the connection is served from then on. -/
theorem Serves.step (hW : Serves W fd c block) {move : Move} (hunused : AcceptsUnused W move)
    (hspares : SparesMove fd c W move) :
    Serves (W.step move) fd c block ∧
      chunks c (W.step move).history.log = chunks c W.history.log ++
        (if IsTurn fd move then
          (W.channel fd).queue.head?.toList.map fun m => (block, m.bytes) else []) ∧
      ((W.step move).channel fd).queue =
        (if IsTurn fd move then (W.channel fd).queue.tail else (W.channel fd).queue) ++
          brought fd move := by
  cases move with
  | arrive fd' m =>
    rcases eq_or_ne fd fd' with rfl | hfd
    · simp only [World.step, IsTurn, brought, Channel.arrive, Function.update_self, hW.broken]
      exact ⟨⟨hW.watched, hW.raised, hW.holds, by simp⟩, by simp, by simp⟩
    · simp only [World.step, IsTurn, brought, Function.update_of_ne hfd, if_neg hfd.symm]
      exact ⟨⟨hW.watched, hW.raised, hW.holds, by simpa [hfd] using hW.broken⟩, by simp, by simp⟩
  | peerClose fd' =>
    have hfd : fd ≠ fd' := Ne.symm hspares
    simp only [World.step, IsTurn, brought, Function.update_of_ne hfd]
    exact ⟨⟨hW.watched, hW.raised, hW.holds, by simpa [hfd] using hW.broken⟩, by simp, by simp⟩
  | event event k =>
    have hserves : ((W.step (.event event k)).channel fd).broken = false →
        Serves (W.step (.event event k)) fd c block := fun hbroken =>
      { watched := handleEvent_watched hW.watched hunused
        raised := handleEvent_raised hW.raised hspares.1
        holds := hW.holds.handleEvent hW.lookup_ne (hW.spares hunused hspares)
        broken := hbroken }
    by_cases hfd : event.fd = fd
    · obtain ⟨hchunks, hchannel⟩ := hW.event_self k hfd
      refine ⟨hserves ?_, ?_, ?_⟩
      · rw [hchannel]
        split <;> exact hW.broken
      · rw [hchunks]
        simp [IsTurn, hfd]
      · rw [hchannel]
        simp only [IsTurn, hfd, true_and, brought, List.append_nil]
        split <;> rfl
    · obtain ⟨hchunks, hchannel⟩ := hW.event_of_ne hunused hfd
      refine ⟨hserves (by rw [hchannel]; exact hW.broken), ?_, ?_⟩
      · rw [hchunks]
        simp [IsTurn, hfd]
      · rw [hchannel]
        simp [IsTurn, hfd, brought]

/-! ### Runs -/

/-- How often it is the turn of `fd`. -/
def turns (fd : SRTSOCKET) (moves : List Move) : ℕ := moves.countP fun move => IsTurn fd move

/-- What arrives for `fd`. -/
def arrivals (fd : SRTSOCKET) (moves : List Move) : List Message := moves.flatMap (brought fd)

/-- A run in which it is not the turn of the connection more often than messages are waiting. -/
theorem Serves.run (hW : Serves W fd c block) {moves : List Move}
    (hunused : Runs.Along World.step AcceptsUnused W moves)
    (hspares : Runs.Along World.step (SparesMove fd c) W moves)
    (hturns : turns fd moves ≤ (W.channel fd).queue.length) :
    chunks c (Runs.exec World.step W moves).history.log = chunks c W.history.log ++
        ((W.channel fd).queue.take (turns fd moves)).map (fun m => (block, m.bytes)) ∧
      ((Runs.exec World.step W moves).channel fd).queue =
        (W.channel fd).queue.drop (turns fd moves) ++ arrivals fd moves := by
  induction moves generalizing W with
  | nil => simp [turns, arrivals]
  | cons move moves ih =>
    obtain ⟨hnext, hchunks, hqueue⟩ := hW.step hunused.1 hspares.1
    have harrivals : arrivals fd (move :: moves) = brought fd move ++ arrivals fd moves := rfl
    have hcount : turns fd (move :: moves) =
        turns fd moves + if IsTurn fd move then 1 else 0 := by simp [turns, List.countP_cons]
    rw [hcount] at hturns ⊢
    split at hturns
    · next hturn =>
      -- the first message is passed on, and the rest of the queue is what the rest of the run sees
      rw [if_pos hturn] at hchunks hqueue ⊢
      obtain ⟨m, queue, hcons⟩ := List.exists_cons_of_length_pos (l := (W.channel fd).queue)
        (by omega)
      rw [hcons, List.length_cons] at hturns
      rw [hcons] at hchunks hqueue ⊢
      have hrest : turns fd moves ≤ queue.length := by omega
      obtain ⟨hchunks', hqueue'⟩ := ih hnext hunused.2 hspares.2
        (by rw [hqueue, List.tail_cons, List.length_append]; omega)
      rw [hqueue, List.tail_cons] at hchunks' hqueue'
      rw [List.take_append_of_le_length hrest] at hchunks'
      rw [List.drop_append_of_le_length hrest] at hqueue'
      refine ⟨?_, ?_⟩
      · rw [Runs.exec_cons, hchunks', hchunks]
        simp
      · rw [Runs.exec_cons, hqueue', harrivals]
        simp
    · next hturn =>
      rw [if_neg hturn] at hchunks hqueue ⊢
      rw [Nat.add_zero] at hturns ⊢
      obtain ⟨hchunks', hqueue'⟩ := ih hnext hunused.2 hspares.2
        (by rw [hqueue, List.length_append]; omega)
      rw [hqueue, List.take_append_of_le_length hturns] at hchunks'
      rw [hqueue, List.drop_append_of_le_length hturns] at hqueue'
      refine ⟨?_, ?_⟩
      · rw [Runs.exec_cons, hchunks', hchunks, List.append_nil]
      · rw [Runs.exec_cons, hqueue', harrivals, List.append_assoc]

theorem watched_step (hwatched : Watched W.history) {move : Move}
    (hunused : AcceptsUnused W move) : Watched (W.step move).history := by
  cases move with
  | arrive fd m => exact hwatched
  | peerClose fd => exact hwatched
  | event event k => exact handleEvent_watched hwatched hunused

/-- **Nobody starves.** From any state that is reached: if a connection has `n` messages or more in
its queue, then the first `n` of them are exactly what its `at_data` block gets while the loop is
told `n` times that it can read from its socket. What happens on other sockets, before, after and in
between, does not matter, as long as it spares the connection. -/
theorem service (socket : SRTSOCKET) {before moves : List Move} {fd : SRTSOCKET} {c : ℕ}
    {block : Proc}
    (hunused : Runs.Along World.step AcceptsUnused (init w socket) (before ++ moves))
    (hW : W = Runs.exec World.step (init w socket) before)
    (hraised : W.history.state.raised = false) (hholds : Holds W.history.state fd c block)
    (hbroken : (W.channel fd).broken = false)
    (hspares : Runs.Along World.step (SparesMove fd c) W moves)
    (hturns : turns fd moves ≤ (W.channel fd).queue.length) :
    chunks c (Runs.exec World.step W moves).history.log = chunks c W.history.log ++
        ((W.channel fd).queue.take (turns fd moves)).map (fun m => (block, m.bytes)) ∧
      ((Runs.exec World.step W moves).channel fd).queue =
        (W.channel fd).queue.drop (turns fd moves) ++ arrivals fd moves := by
  obtain ⟨hbefore, hunused⟩ := Runs.along_append.mp hunused
  rw [← hW] at hunused
  have hwatched : Watched W.history := by
    rw [hW]
    exact Runs.exec_induction (I := fun W => Watched W.history)
      (fun _ _ hwatched hm => watched_step hwatched hm) (watched_start w socket) hbefore
  exact Serves.run ⟨hwatched, hraised, hholds, hbroken⟩ hunused hspares hturns

/-- A message of one byte. -/
def oneByte (byte : UInt8) : Message := ⟨[byte], by simp, by simp [liveMaxPayload]⟩

/-- A peer knocks and gets the id `fd`, and block `7` is registered on connection `c`. -/
def knocking (fd : SRTSOCKET) (c : ℕ) : Move :=
  .event ⟨1, ⟨true, false, false, false⟩⟩ ⟨fd, [], false, true, ⟨[.atData c 7], some true⟩⟩

/-- The loop is told that something happened on `fd`. -/
def ready (fd : SRTSOCKET) : Move :=
  .event ⟨fd, ⟨true, false, false, false⟩⟩ ⟨SRT_INVALID_SOCK, [], false, true, ⟨[], some true⟩⟩

/-- Three messages are waiting on one socket when another connection comes, and goes. -/
def waiting : List Move :=
  [knocking 2 0, .arrive 2 (oneByte 1), .arrive 2 (oneByte 2), .arrive 2 (oneByte 3), knocking 3 1,
    .arrive 3 (oneByte 9)]

theorem service_waiting :
    (chunks 0 (Runs.exec World.step (Runs.exec World.step (init 64 1) waiting)
        [ready 3, ready 2, .peerClose 3, ready 3, .arrive 2 (oneByte 4), ready 2]).history.log =
      [(7, [1]), (7, [2])]) := by
  have hunused : Runs.Along World.step AcceptsUnused (init 64 1) (waiting ++
      [ready 3, ready 2, .peerClose 3, ready 3, .arrive 2 (oneByte 4), ready 2]) := by
    refine ⟨fun _ => by decide, trivial, trivial, trivial, fun _ => by decide, trivial,
      fun h => absurd h (by decide), fun h => absurd h (by decide), trivial,
      fun h => absurd h (by decide), trivial, fun h => absurd h (by decide), trivial⟩
  have hspares : Runs.Along World.step (SparesMove 2 0)
      (Runs.exec World.step (init 64 1) waiting)
      [ready 3, ready 2, .peerClose 3, ready 3, .arrive 2 (oneByte 4), ready 2] :=
    ⟨⟨by decide, by decide, by simp⟩, ⟨by decide, by decide, by simp⟩, by simp [SparesMove],
      ⟨by decide, by decide, by simp⟩, trivial, ⟨by decide, by decide, by simp⟩, trivial⟩
  have hholds : Holds (Runs.exec World.step (init 64 1) waiting).history.state 2 0 7 :=
    ⟨by decide, by decide, by decide, by decide, by decide⟩
  exact (service 1 hunused rfl (by decide) hholds (by decide) hspares (by decide)).1

end World

end Server

end Rbsrt
