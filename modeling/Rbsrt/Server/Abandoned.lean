import Rbsrt.Server.Callbacks
import Rbsrt.Server.Watching

/-!
# Abandoned connections

The end of a connection is noticed because the epoll reports its socket. A registered connection
whose socket the epoll does not watch is *abandoned*: `Server.Watching` says which events do that to
a connection (a block that closes it, a socket that could not be added, another call of `start`).
This module says what becomes of it once the loop waits again, which is nothing. An event of it that
was reported before is still handled, but then the loop has no other way to find it. Its entry
stays in `@connections_by_socket`, `#connection_count` goes on counting it, and neither of its
blocks is ever called again, however long the server runs and however often `start` is called.

What is assumed of libsrt is that `srt_epoll_uwait` reports sockets that are watched when it is
called, and that `srt_accept` does not return the id of a registered connection.

## Main results

* `Abandoned.handleEvent` — one event of another socket
* `abandoned_forever` — every run
-/

namespace Rbsrt

namespace Server

open Observation

variable {w : ℕ} {h : History w} {fd : SRTSOCKET} {c : ℕ}

/-- Connection `c` is registered under `fd`, and the epoll does not watch `fd`. -/
structure Abandoned (fd : SRTSOCKET) (c : ℕ) (s : Server w) : Prop where
  registered : s.connectionsBySocket.lookup fd = some c
  unwatched : fd ∉ s.epoll
  socket : s.socket ≠ fd

/-- It is neither the removal of `c` nor a call of one of its blocks. -/
def Ignores (c : ℕ) (o : Observation) : Prop :=
  ¬ IsRemoved c o ∧ ¬ CallsAtData c o ∧ ¬ CallsAtClose c o

/-- `h'` comes after `h`, and nothing has happened to `c` in between. -/
def IgnoresSince (c : ℕ) (h h' : History w) : Prop :=
  ∃ l, h'.log = h.log ++ l ∧ ∀ o ∈ l, Ignores c o

theorem IgnoresSince.refl (c : ℕ) (h : History w) : IgnoresSince c h h :=
  ⟨[], (List.append_nil _).symm, by simp⟩

theorem IgnoresSince.trans {h h' h'' : History w} (hl : IgnoresSince c h h')
    (hl' : IgnoresSince c h' h'') : IgnoresSince c h h'' := by
  obtain ⟨l, hlog, hignores⟩ := hl
  obtain ⟨l', hlog', hignores'⟩ := hl'
  refine ⟨l ++ l', by rw [hlog', hlog, List.append_assoc], fun o ho => ?_⟩
  exact (List.mem_append.mp ho).elim (hignores o) (hignores' o)

theorem ignores_setAtData {l : List Observation} (hl : ∀ o ∈ l, ∃ d block, o = .setAtData d block) :
    ∀ o ∈ l, Ignores c o := by
  intro o ho
  obtain ⟨_, _, rfl⟩ := hl o ho
  simp [Ignores, IsRemoved, CallsAtData, CallsAtClose]

/-! ### Blocks -/

theorem callBlock_socket (h : History w) (actions : List Action) :
    (callBlock h actions).state.socket = h.state.socket := by
  induction actions generalizing h with
  | nil => rfl
  | cons action actions ih =>
    refine (ih (Runs.record perform h action)).trans ?_
    cases action <;> rfl

/-- A block cannot make the epoll watch anything. -/
theorem Abandoned.callBlock (ha : Abandoned fd c h.state) (actions : List Action) :
    Abandoned fd c (callBlock h actions).state where
  registered := by
    rw [(callBlock_sameTables h actions).connectionsBySocket]
    exact ha.registered
  unwatched := fun hfd => ha.unwatched ((mem_callBlock h actions fd).1.mp hfd).1
  socket := by
    rw [callBlock_socket]
    exact ha.socket

/-! ### One event -/

theorem Abandoned.acceptBranch (ha : Abandoned fd c h.state) {a : Answers}
    (haccept : a.accept ≠ fd) : Abandoned fd c (acceptBranch h a).state := by
  have hcall := Abandoned.callBlock (h := presentConnection h a.accept)
    { ha with } a.block.actions
  have hsocket := socket_callBlock_presentConnection h a.accept a.block.actions
  rw [Server.acceptBranch]
  generalize Server.callBlock (presentConnection h a.accept) a.block.actions = h' at *
  cases a.block.result with
  | none => exact { hcall with }
  | some accepted =>
    cases accepted with
    | false =>
      exact { hcall with unwatched := fun hfd => hcall.unwatched (List.mem_of_mem_filter hfd) }
    | true =>
      simp only [Runs.tell_state, Runs.update_state, hsocket]
      refine ⟨?_, fun hfd => ?_, ?_⟩
      · rw [OrderedHash.lookup_aset_of_ne haccept.symm]
        exact hcall.registered
      · rcases mem_epollAddUsock.mp hfd with hfd | ⟨heq, -⟩
        · exact hcall.unwatched hfd
        · exact haccept heq.symm
      · rw [epollAddUsock]
        split <;> exact hcall.socket

theorem Abandoned.closeConnection (ha : Abandoned fd c h.state) (d : ℕ) (a : Answers) :
    Abandoned fd c (closeConnection h d a).state := by
  rw [Server.closeConnection]
  cases (h.state.heap d).atCloseBlock with
  | none => exact { ha with }
  | some block =>
    have hcall := Abandoned.callBlock (h := h.tell (.callAtClose d block)) ha a.block.actions
    cases a.block.result <;> exact { hcall with }

theorem Abandoned.removeBranch (ha : Abandoned fd c h.state) {sock : SRTSOCKET} (hsock : sock ≠ fd)
    (a : Answers) : Abandoned fd c (removeBranch h sock a).state := by
  have hremove : Abandoned fd c (h.update (·.epollRemoveUsock sock)).state :=
    { ha with unwatched := fun hfd => ha.unwatched (List.mem_of_mem_filter hfd) }
  rw [Server.removeBranch]
  cases (h.update (·.epollRemoveUsock sock)).state.connectionsBySocket.lookup sock with
  | none => exact hremove
  | some d =>
    refine Abandoned.closeConnection (h := unregister (h.update (·.epollRemoveUsock sock)) sock d)
      { hremove with registered := ?_ } d a
    exact (OrderedHash.lookup_delete_of_ne hsock.symm).trans ha.registered

theorem Abandoned.dataBranch (ha : Abandoned fd c h.state) (event : Event) (a : Answers) :
    Abandoned fd c (dataBranch h event a).state := by
  rw [Server.dataBranch]
  split
  · split
    · next byte bytes _ =>
      simp only [Runs.tell_state]
      cases h.state.connectionsBySocket.lookup event.fd with
      | none => exact ha
      | some d =>
        simp only [deliver, Runs.tell_state]
        cases (h.state.heap d).atDataBlock with
        | none => exact ha
        | some block =>
          have hcall := Abandoned.callBlock
            (h := (h.tell (.received event.fd (byte :: bytes))).tell
              (.callAtData d block (byte :: bytes))) ha a.block.actions
          cases a.block.result <;> exact { hcall with }
    · exact ha
  · exact ha

/-- **An event of another socket** leaves an abandoned connection abandoned, and does nothing to
it. -/
theorem Abandoned.handleEvent (ha : Abandoned fd c h.state) (hwatched : Watched h)
    {i : Event × Answers} (hunused : AcceptsUnused h i) (hfd : i.1.fd ≠ fd) :
    Abandoned fd c (handleEvent h i).state ∧ IgnoresSince c h (handleEvent h i) := by
  have hother : h.state.connectionsBySocket.lookup i.1.fd ≠ some c :=
    fun hlook => hfd (hwatched.socket_inj ha.registered hlook)
  rcases handleEvent_cases h i with ⟨-, heq⟩ | ⟨-, hstate, heq⟩ | ⟨-, -, heq⟩ | ⟨-, -, heq⟩ <;>
    rw [heq]
  · exact ⟨ha, .refl c h⟩
  · have haccept : i.2.accept ≠ fd := fun heq =>
      hunused hstate (heq ▸ OrderedHash.mem_keys_iff.mpr ⟨c, ha.registered⟩)
    obtain ⟨l, hl, hlog⟩ := acceptBranch_log h i.2
    refine ⟨ha.acceptBranch haccept, l, hl, fun o ho => ?_⟩
    rcases hlog o ho with ⟨_, _, rfl⟩ | ⟨_, _, rfl⟩ | rfl | ⟨_, rfl, -⟩ <;>
      simp [Ignores, IsRemoved, CallsAtData, CallsAtClose]
  · refine ⟨ha.removeBranch hfd i.2, ?_⟩
    cases hlook : h.state.connectionsBySocket.lookup i.1.fd with
    | none => exact ⟨[], by rw [removeBranch_log_of_none i.2 hlook, List.append_nil], by simp⟩
    | some d =>
      have hd : d ≠ c := fun heq => hother (heq ▸ hlook)
      have hremoved : Ignores c (.removed d) := by
        simp [Ignores, IsRemoved, CallsAtData, CallsAtClose, hd]
      rcases removeBranch_log i.2 hlook with ⟨-, hl⟩ | ⟨block, l, -, hl, hsets⟩
      · exact ⟨_, hl, by simpa using hremoved⟩
      · refine ⟨_, hl, fun o ho => ?_⟩
        simp only [List.mem_cons] at ho
        rcases ho with rfl | rfl | ho
        · exact hremoved
        · simp [Ignores, IsRemoved, CallsAtData, CallsAtClose, hd]
        · exact ignores_setAtData hsets o ho
  · obtain ⟨l, hl, hsets⟩ := dataBranch_log h i.1 i.2
    refine ⟨ha.dataBranch i.1 i.2, _, hl, fun o ho => ?_⟩
    rcases List.mem_append.mp ho with ho | ho
    · obtain ⟨data, -, ho⟩ := List.mem_flatMap.mp ho
      rcases List.mem_cons.mp ho with rfl | ho
      · simp [Ignores, IsRemoved, CallsAtData, CallsAtClose]
      · obtain ⟨⟨d, block⟩, hd, rfl⟩ := List.mem_map.mp ho
        rw [Option.mem_toList, listener, Option.bind_eq_some_iff] at hd
        obtain ⟨d', hlook, hd⟩ := hd
        obtain ⟨_, -, hpair⟩ := Option.map_eq_some_iff.mp hd
        obtain ⟨rfl, rfl⟩ := Prod.mk.inj hpair
        have hne : d' ≠ c := fun heq => hother (heq ▸ hlook)
        simp [Ignores, IsRemoved, CallsAtData, CallsAtClose, hne]
    · exact ignores_setAtData hsets o ho

/-! ### Runs -/

/-- What is assumed of libsrt in a pass: the events are of sockets that are watched when the loop
waits, and no accepted socket is registered. -/
def ReportsWatched (h : History w) : LoopMove → Prop
  | .pass batch => (∀ i ∈ batch, i.1.fd ∈ h.state.epoll) ∧
    Runs.Along Server.handleEvent AcceptsUnused h batch
  | .startAgain _ => True

/-- No accepted socket is registered. -/
def AcceptsUnusedMove (h : History w) : LoopMove → Prop
  | .pass batch => Runs.Along Server.handleEvent AcceptsUnused h batch
  | .startAgain _ => True

theorem Abandoned.pass (ha : Abandoned fd c h.state) (hwatched : Watched h)
    {batch : List (Event × Answers)} (hbatch : ∀ i ∈ batch, i.1.fd ≠ fd)
    (hunused : Runs.Along Server.handleEvent AcceptsUnused h batch) :
    Abandoned fd c (Runs.exec Server.handleEvent h batch).state ∧
      IgnoresSince c h (Runs.exec Server.handleEvent h batch) := by
  induction batch generalizing h with
  | nil => exact ⟨ha, .refl c h⟩
  | cons i batch ih =>
    obtain ⟨hi, hbatch⟩ := List.forall_mem_cons.mp hbatch
    obtain ⟨hnext, hsince⟩ := ha.handleEvent hwatched hunused.1 hi
    obtain ⟨hlast, hsince'⟩ := ih hnext (handleEvent_watched hwatched hunused.1) hbatch hunused.2
    exact ⟨hlast, hsince.trans hsince'⟩

/-- `start` finds everything but the epoll as it was. -/
theorem restart_eq (s : Server w) (addUsock : Bool) :
    s.restart addUsock = { s with epoll := (s.restart addUsock).epoll, raised := false } := by
  rw [restart, epollAddUsock]
  split <;> rfl

theorem watched_restart (hwatched : Watched h) (addUsock : Bool) :
    Watched (h.update (·.restart addUsock)) := by
  intro d
  obtain ⟨n, hn⟩ := hwatched d
  refine ⟨n, hn.update ?_ (Nat.le_of_eq ?_) fun _ => ?_⟩ <;> rw [restart_eq]

theorem watched_move (hwatched : Watched h) {m : LoopMove} (hunused : AcceptsUnusedMove h m) :
    Watched (move h m) := by
  cases m with
  | pass batch =>
    exact Runs.exec_induction (fun _ _ hw hi => handleEvent_watched hw hi) hwatched hunused
  | startAgain addUsock =>
    rw [move]
    split
    · exact watched_restart hwatched addUsock
    · exact hwatched

/-- **One move**, a pass of the loop or another call of `start`. -/
theorem Abandoned.move (ha : Abandoned fd c h.state) (hwatched : Watched h) {m : LoopMove}
    (hreports : ReportsWatched h m) :
    Abandoned fd c (move h m).state ∧ IgnoresSince c h (move h m) := by
  cases m with
  | pass batch =>
    refine ha.pass hwatched (fun i hi heq => ?_) hreports.2
    exact ha.unwatched (heq ▸ hreports.1 i hi)
  | startAgain addUsock =>
    rw [Server.move]
    split
    · refine ⟨⟨?_, fun hfd => ?_, ?_⟩, .refl c h⟩
      · rw [Runs.update_state, restart_eq]
        exact ha.registered
      · rcases mem_epollAddUsock.mp hfd with hfd | ⟨heq, -⟩
        · exact List.not_mem_nil hfd
        · exact ha.socket heq.symm
      · rw [Runs.update_state, restart_eq]
        exact ha.socket
    · exact ⟨ha, .refl c h⟩

/-- **What is abandoned stays abandoned.** From any state between two passes, whatever happens after
that, as long as the reports are about sockets that are watched: the entry of the connection is
never removed, its socket is never watched again, and neither of its blocks is ever called. -/
theorem abandoned_forever (socket : SRTSOCKET) {before after : List LoopMove}
    (hunused : Runs.Along move AcceptsUnusedMove (start w socket) before)
    (ha : Abandoned fd c (Runs.exec move (start w socket) before).state)
    (hreports : Runs.Along move ReportsWatched (Runs.exec move (start w socket) before) after) :
    ∀ t ∈ Runs.states move (Runs.exec move (start w socket) before) after,
      Abandoned fd c t.state ∧ IgnoresSince c (Runs.exec move (start w socket) before) t := by
  have hwatched : Watched (Runs.exec move (start w socket) before) :=
    Runs.exec_induction (fun _ _ ht hm => watched_move ht hm) (watched_start w socket) hunused
  have hstep : ∀ t m, (Watched t ∧ Abandoned fd c t.state ∧
      IgnoresSince c (Runs.exec move (start w socket) before) t) → ReportsWatched t m →
      Watched (move t m) ∧ Abandoned fd c (move t m).state ∧
        IgnoresSince c (Runs.exec move (start w socket) before) (move t m) := by
    rintro t m ⟨ht, hat, hsince⟩ hm
    have hunused : AcceptsUnusedMove t m := by
      cases m with
      | pass batch => exact hm.2
      | startAgain addUsock => trivial
    obtain ⟨hnext, hignores⟩ := hat.move ht hm
    exact ⟨watched_move ht hunused, hnext, hsince.trans hignores⟩
  have hstates := Runs.forall_mem_states hstep ⟨hwatched, ha, .refl c _⟩ hreports
  exact fun t ht => (hstates t ht).2

/-- A connection with both blocks, whose `at_data` block closes it. -/
def closesItself : List LoopMove :=
  [.pass [knock 2 ⟨[.atData 0 7, .atClose 0 8], some true⟩],
    .pass [(⟨2, ⟨true, false, false, false⟩⟩,
      ⟨.connected, SRT_INVALID_SOCK, false, fun cap => some ([1].take cap),
        ⟨[.close 0], some true⟩⟩)]]

/-- The server goes on, is left by an exception, and starts again. -/
def goesOn : List LoopMove :=
  [.pass [knock 3 ⟨[.atData 1 7], some true⟩], .pass [readable 3 [9], knock 4 ⟨[], none⟩],
    .startAgain true, .pass [knock 5 ⟨[], some true⟩]]

theorem abandoned_closesItself :
    .callAtClose 0 8 ∉ (Runs.exec move (start 64 1) (closesItself ++ goesOn)).log ∧
      ∀ t ∈ Runs.states move (Runs.exec move (start 64 1) closesItself) goesOn,
        Abandoned 2 0 t.state ∧
          IgnoresSince 0 (Runs.exec move (start 64 1) closesItself) t := by
  refine ⟨by decide, abandoned_forever 1 ⟨?_, ?_, trivial⟩ ⟨by decide, by decide, by decide⟩ ?_⟩
  · exact ⟨fun _ => by decide, trivial⟩
  · exact ⟨fun h => absurd h (by decide), trivial⟩
  · exact ⟨⟨by decide, fun _ => by decide, trivial⟩,
      ⟨by decide, fun h => absurd h (by decide), fun _ => by decide, trivial⟩, trivial,
      ⟨by decide, fun _ => by decide, trivial⟩, trivial⟩

end Server

end Rbsrt
