import Rbsrt.Server.Session

/-!
# The order of callbacks

Every history of the server is one that no observer of a connection objects to, and what an
observer knows agrees with the server's tables: a connection is registered exactly if it is in
`@connections_by_socket`, under the socket in its own object. `Follows` states this for one
connection; each branch of the loop keeps it for all of them.

The one thing assumed of libsrt is that `srt_accept` does not return the id of a connection that
is registered. Without it the table would lose an entry, and data of one connection would reach
the blocks of another.

## Main results

* `handleEvent_watched` — one event
* `callback_discipline` — every run
-/

namespace Rbsrt

namespace Server

open Observation

variable {w : ℕ} {h : History w} {c d : ℕ} {n : Session}

/-! ### What observers know -/

/-- An observer of `c` has not objected, and what it knows agrees with the server. -/
structure Follows (h : History w) (c : ℕ) (n : Session) : Prop where
  history : Session.ofHistory c h.log = some n
  registered : ∀ fd, h.state.connectionsBySocket.lookup fd = some c ↔
    n.phase = .registered ∧ n.socket = fd
  new : h.state.allocated ≤ c → n.phase = .new
  steady : n.phase = .registered → ∀ block, n.steady = some block →
    (h.state.heap c).atDataBlock = some block
  passed : ∀ block, n.steady = some block → n.passed = n.inbox.map fun data => (block, data)

/-- All observers follow. -/
def Watched (h : History w) : Prop := ∀ c, ∃ n, Follows h c n

theorem watched_start (w : ℕ) (socket : SRTSOCKET) : Watched (start w socket) := fun c =>
  ⟨.fresh,
    { history := rfl
      registered := fun fd => by simp [start, Session.fresh]
      new := fun _ => rfl
      steady := fun hreg => by simp [Session.fresh] at hreg
      passed := fun block hsteady => by simp [Session.fresh] at hsteady }⟩

/-- A connection is registered under one socket. -/
theorem Watched.socket_inj (hw : Watched h) {c : ℕ} {fd fd' : SRTSOCKET}
    (hfd : h.state.connectionsBySocket.lookup fd = some c)
    (hfd' : h.state.connectionsBySocket.lookup fd' = some c) : fd' = fd := by
  obtain ⟨n, hn⟩ := hw c
  exact ((hn.registered fd').mp hfd').2.symm.trans ((hn.registered fd).mp hfd).2

/-- A change that neither the table nor the `at_data` block of a registered connection sees. -/
theorem Follows.update (hn : Follows h c n) {f : Server w → Server w}
    (htable : (f h.state).connectionsBySocket = h.state.connectionsBySocket)
    (halloc : h.state.allocated ≤ (f h.state).allocated)
    (hheap : n.phase = .registered →
      ((f h.state).heap c).atDataBlock = (h.state.heap c).atDataBlock) :
    Follows (h.update f) c n where
  history := hn.history
  registered := by simpa [htable] using hn.registered
  new := fun hc => hn.new (Nat.le_trans halloc hc)
  steady := fun hreg => by simpa [hheap hreg] using hn.steady hreg
  passed := hn.passed

/-- An observation that is about other connections. -/
theorem Follows.tell (hn : Follows h c n) {o : Observation} (ho : o.Foreign c) :
    Follows (h.tell o) c n :=
  { hn with history := Runs.watch_concat hn.history (Session.observe_of_foreign ho) }

theorem Follows.raise (hn : Follows h c n) : Follows (h.update Server.raise) c n :=
  hn.update rfl (Nat.le_refl _) fun _ => rfl

/-- Clearing blocks of a connection that is not registered any more. -/
theorem Follows.modifyConnection (hn : Follows h c n) {f : Connection → Connection}
    (hphase : c = d → n.phase ≠ .registered) :
    Follows (h.update (·.modifyConnection d f)) c n := by
  refine hn.update rfl (Nat.le_refl _) fun hreg => ?_
  have hne : c ≠ d := fun hcd => hphase hcd hreg
  simp [Server.modifyConnection, hne]

/-! ### Blocks -/

/-- What a block does changes no phase; registering an `at_data` block is noticed. -/
theorem Follows.perform (hn : Follows h c n) (action : Action) :
    ∃ n', Follows (Runs.record Server.perform h action) c n' ∧ n'.phase = n.phase := by
  cases action with
  | atData d block =>
    rcases eq_or_ne d c with rfl | hd
    · refine ⟨{ n with steady := none }, ?_, rfl⟩
      exact
        { history := Runs.watch_concat hn.history (Session.Step.setAtData.observed)
          registered := hn.registered
          new := hn.new
          steady := by simp
          passed := by simp }
    · refine ⟨n, ?_, rfl⟩
      have hkeep : Follows (h.update (·.modifyConnection d fun conn =>
          { conn with atDataBlock := some block })) c n :=
        hn.update rfl (Nat.le_refl _) fun _ => by simp [Server.modifyConnection, hd.symm]
      exact hkeep.tell hd
  | atClose d block =>
    refine ⟨n, ?_, rfl⟩
    show Follows ⟨_, h.log ++ []⟩ c n
    rw [List.append_nil]
    refine hn.update (f := (·.modifyConnection d fun conn =>
      { conn with atCloseBlock := some block })) rfl (Nat.le_refl _) fun _ => ?_
    rcases eq_or_ne c d with rfl | hc
    · simp [Server.modifyConnection]
    · simp [Server.modifyConnection, hc]
  | close d =>
    refine ⟨n, ?_, rfl⟩
    show Follows ⟨_, h.log ++ []⟩ c n
    rw [List.append_nil]
    exact hn.update (f := fun s => s.srtClose (s.heap d).socket) rfl (Nat.le_refl _) fun _ => rfl

theorem Follows.callBlock (hn : Follows h c n) (actions : List Action) :
    ∃ n', Follows (Server.callBlock h actions) c n' ∧ n'.phase = n.phase := by
  induction actions generalizing h n with
  | nil => exact ⟨n, hn, rfl⟩
  | cons action actions ih =>
    obtain ⟨n₁, hn₁, hphase₁⟩ := hn.perform action
    obtain ⟨n₂, hn₂, hphase₂⟩ := ih hn₁
    exact ⟨n₂, hn₂, hphase₂.trans hphase₁⟩

/-! ### The branches -/

/-- What is assumed of `srt_accept`: it does not return the id of a registered connection. -/
def AcceptsUnused (h : History w) (i : Event × Answers) : Prop :=
  i.2.getsockstate = .listening → i.2.accept ∉ h.state.connectionsBySocket.keys

instance (h : History w) (i : Event × Answers) : Decidable (AcceptsUnused h i) :=
  inferInstanceAs (Decidable (_ → _))

theorem Follows.presentConnection (hn : Follows h c n) (fd : SRTSOCKET) :
    Follows (Server.presentConnection h fd) c n := by
  refine Follows.tell (hn.update rfl (Nat.le_succ _) fun hreg => ?_) trivial
  have hne : c ≠ h.state.allocated := fun hc => by
    have hnew := hn.new (Nat.le_of_eq hc.symm)
    simp [hnew] at hreg
  simp [Server.newConnection, hne]

/-- A new connection is put into the table, under a socket that is not in it. -/
theorem Follows.register (hn : Follows h d n) (hnew : d = c → n.phase = .new)
    (hfresh : (h.state.heap c).socket ∉ h.state.connectionsBySocket.keys)
    (hc : c < h.state.allocated) {f : Server w → Server w}
    (htable : (f h.state).connectionsBySocket =
      h.state.connectionsBySocket.aset (h.state.heap c).socket c)
    (halloc : (f h.state).allocated = h.state.allocated)
    (hheap : (f h.state).heap = h.state.heap) :
    ∃ n', Follows ((h.update f).tell (.accepted c (h.state.heap c))) d n' := by
  have hnone : h.state.connectionsBySocket.lookup (h.state.heap c).socket = none :=
    OrderedHash.lookup_eq_none_iff.mpr hfresh
  rcases eq_or_ne d c with rfl | hd
  · have hphase := hnew rfl
    obtain ⟨-, hinbox, hpassed⟩ := Session.of_phase_eq_new hn.history hphase
    refine ⟨{ n with
      phase := .registered
      socket := (h.state.heap d).socket
      steady := (h.state.heap d).atDataBlock }, ?_⟩
    exact
      { history := Runs.watch_concat hn.history
          (Session.Step.observed (.accepted hphase))
        registered := fun fd => by
          have hnot : h.state.connectionsBySocket.lookup fd ≠ some d := fun hlook => by
            simp [((hn.registered fd).mp hlook).1] at hphase
          simp only [Runs.tell_state, Runs.update_state, htable, OrderedHash.lookup_aset,
            true_and]
          split
          · next hfd => simp [hfd]
          · next hfd => exact iff_of_false hnot fun hsock => hfd hsock.symm
        new := fun hle => absurd hle (by simpa [halloc] using hc)
        steady := fun _ block hsteady => by simpa [hheap] using hsteady
        passed := fun _ _ => by simp [hinbox, hpassed] }
  · refine ⟨n, Follows.tell ?_ hd.symm⟩
    refine { hn with registered := fun fd => ?_, new := ?_, steady := ?_ }
    · rw [← hn.registered fd, Runs.update_state, htable, OrderedHash.lookup_aset]
      split
      · next hfd => simp [hfd, hnone, hd.symm]
      · rfl
    · simpa [halloc] using hn.new
    · simpa [hheap] using hn.steady

theorem acceptBranch_watched (hw : Watched h) {a : Answers}
    (hunused : a.accept ∉ h.state.connectionsBySocket.keys) : Watched (acceptBranch h a) := by
  have hsame := callBlock_sameTables (presentConnection h a.accept) a.block.actions
  have htable : _ = h.state.connectionsBySocket := hsame.connectionsBySocket
  have halloc : _ = h.state.allocated + 1 := hsame.allocated
  have hsocket := socket_callBlock_presentConnection h a.accept a.block.actions
  intro d
  obtain ⟨n, hn⟩ := hw d
  obtain ⟨n', hn', hphase⟩ := (hn.presentConnection a.accept).callBlock a.block.actions
  rw [acceptBranch]
  cases a.block.result with
  | none => exact ⟨n', hn'.raise⟩
  | some accepted =>
    cases accepted with
    | false => exact ⟨n', (hn'.update rfl (Nat.le_refl _) fun _ => rfl).tell trivial⟩
    | true =>
      refine hn'.register (fun hd => hphase.trans (hn.new (Nat.le_of_eq hd.symm))) ?_ ?_ rfl ?_ ?_
      · rwa [hsocket, htable]
      · omega
      · simp only [epollAddUsock]
        split <;> rfl
      · simp only [epollAddUsock]
        split <;> rfl

theorem Follows.unregister (hn : Follows h d n) {sock : SRTSOCKET}
    (hlook : h.state.connectionsBySocket.lookup sock = some c) :
    ∃ n', Follows (Server.unregister h sock c) d n' ∧ (d = c → n'.phase = .removed) := by
  rcases eq_or_ne d c with rfl | hd
  · obtain ⟨hreg, rfl⟩ := (hn.registered sock).mp hlook
    refine ⟨{ n with phase := .removed }, ?_, fun _ => rfl⟩
    exact
      { history := Runs.watch_concat hn.history
          (Session.Step.observed (.removed hreg))
        registered := fun fd => by
          have hiff := hn.registered fd
          rcases eq_or_ne fd n.socket with rfl | hfd
          · simp [Server.unregister]
          · simp [Server.unregister, OrderedHash.lookup_delete_of_ne hfd, hiff, hfd.symm]
        new := fun hle => by
          have hnew := hn.new hle
          simp [hnew] at hreg
        steady := by simp
        passed := hn.passed }
  · refine ⟨n, Follows.tell ?_ hd.symm, fun hdc => absurd hdc hd⟩
    refine { hn with registered := fun fd => ?_ }
    rw [← hn.registered fd, Runs.update_state]
    rcases eq_or_ne fd sock with rfl | hfd
    · simp [hlook, hd.symm]
    · rw [OrderedHash.lookup_delete_of_ne hfd]

/-- The `at_close` block of a connection that was removed. -/
theorem Follows.closeConnection (hn : Follows h d n) (hphase : d = c → n.phase = .removed)
    (a : Answers) : ∃ n', Follows (Server.closeConnection h c a) d n' := by
  rw [Server.closeConnection]
  cases (h.state.heap c).atCloseBlock with
  | none => exact ⟨n, hn.modifyConnection fun hd => by simp [hphase hd]⟩
  | some block =>
    have htold : ∃ n₁, Follows (h.tell (.callAtClose c block)) d n₁ ∧
        (d = c → n₁.phase = .closed) := by
      rcases eq_or_ne d c with rfl | hd
      · refine ⟨{ n with phase := .closed }, ?_, fun _ => rfl⟩
        exact
          { history := Runs.watch_concat hn.history
              (Session.Step.observed (.callAtClose (hphase rfl)))
            registered := fun fd => by
              have hiff := hn.registered fd
              simp only [hphase rfl, reduceCtorEq, false_and, iff_false] at hiff
              simpa using hiff
            new := fun hle => by
              have hnew := hn.new hle
              simp [hphase rfl] at hnew
            steady := by simp
            passed := hn.passed }
      · exact ⟨n, hn.tell hd.symm, fun hdc => absurd hdc hd⟩
    obtain ⟨n₁, hn₁, hphase₁⟩ := htold
    obtain ⟨n₂, hn₂, hphase₂⟩ := hn₁.callBlock a.block.actions
    cases a.block.result with
    | none => exact ⟨n₂, hn₂.raise⟩
    | some _ =>
      exact ⟨n₂, hn₂.modifyConnection fun hd => by rw [hphase₂, hphase₁ hd]; simp⟩

theorem removeBranch_watched (hw : Watched h) (sock : SRTSOCKET) (a : Answers) :
    Watched (removeBranch h sock a) := by
  intro d
  obtain ⟨n, hn⟩ := hw d
  have hn₁ : Follows (h.update (·.epollRemoveUsock sock)) d n :=
    hn.update rfl (Nat.le_refl _) fun _ => rfl
  rw [removeBranch]
  cases hlook : (h.update (·.epollRemoveUsock sock)).state.connectionsBySocket.lookup sock with
  | none => exact ⟨n, hn₁⟩
  | some c =>
    obtain ⟨n₂, hn₂, hphase⟩ := hn₁.unregister hlook
    exact hn₂.closeConnection hphase a

/-- A message of another connection is passed on. -/
theorem Follows.deliver_of_ne (hn : Follows h d n) (hd : d ≠ c) (data : Bytes) (a : Answers) :
    ∃ n', Follows (Server.deliver h c data a) d n' := by
  rw [Server.deliver]
  cases (h.state.heap c).atDataBlock with
  | none => exact ⟨n, hn⟩
  | some block =>
    obtain ⟨n', hn', -⟩ := (hn.tell (o := .callAtData c block data) hd.symm).callBlock
      a.block.actions
    cases a.block.result with
    | none => exact ⟨n', hn'.raise⟩
    | some _ => exact ⟨n', hn'⟩

/-- A message of a registered connection is read and passed on. -/
theorem Follows.deliver_self (hn : Follows h c n) (hreg : n.phase = .registered) (data : Bytes)
    (a : Answers) :
    ∃ n', Follows (Server.deliver (h.tell (.received n.socket data)) c data a) c n' := by
  have hread : Session.ofHistory c (h.tell (.received n.socket data)).log =
      some { n with inbox := n.inbox ++ [data] } :=
    Runs.watch_concat hn.history (Session.Step.observed (.received hreg))
  rw [Server.deliver]
  cases hblock : ((h.tell (.received n.socket data)).state.heap c).atDataBlock with
  | none =>
    -- without a block it was not accepted with one that is still there
    rw [Runs.tell_state] at hblock
    refine ⟨_, { hn with history := hread, passed := fun block hsteady => ?_ }⟩
    have hsome := hn.steady hreg block hsteady
    simp [hsome] at hblock
  | some block =>
    have hcall : Follows ((h.tell (.received n.socket data)).tell (.callAtData c block data)) c
        { n with inbox := n.inbox ++ [data], passed := n.passed ++ [(block, data)] } :=
      { hn with
        history := Runs.watch_concat hread (Session.Step.observed (.callAtData hreg))
        passed := fun block' hsteady => by
          have hsome := hn.steady hreg block' hsteady
          rw [Runs.tell_state] at hblock
          obtain rfl : block' = block := Option.some.inj (hsome.symm.trans hblock)
          simp [hn.passed block' hsteady] }
    obtain ⟨n', hn', -⟩ := hcall.callBlock a.block.actions
    cases a.block.result with
    | none => exact ⟨n', hn'.raise⟩
    | some _ => exact ⟨n', hn'⟩

/-- A message is read from a socket that the connection is not registered under. -/
theorem Follows.overhear (hn : Follows h d n) {fd : SRTSOCKET}
    (hfd : n.phase = .registered → fd ≠ n.socket) (data : Bytes) :
    Follows (h.tell (.received fd data)) d n :=
  { hn with
    history := Runs.watch_concat hn.history (Session.Step.observed (.overheard hfd)) }

theorem dataBranch_watched (hw : Watched h) (event : Event) (a : Answers) :
    Watched (dataBranch h event a) := by
  intro d
  obtain ⟨n, hn⟩ := hw d
  rw [dataBranch]
  split
  · split
    · next byte bytes _ =>
      simp only [Runs.tell_state]
      cases hlook : h.state.connectionsBySocket.lookup event.fd with
      | none =>
        refine ⟨n, hn.overhear (fun hreg hfd => ?_) _⟩
        simp [(hn.registered event.fd).mpr ⟨hreg, hfd.symm⟩] at hlook
      | some c =>
        rcases eq_or_ne d c with rfl | hd
        · obtain ⟨hreg, hfd⟩ := (hn.registered event.fd).mp hlook
          rw [← hfd]
          exact hn.deliver_self hreg _ a
        · refine (hn.overhear (fun hreg hfd => ?_) _).deliver_of_ne hd _ a
          rw [(hn.registered event.fd).mpr ⟨hreg, hfd.symm⟩] at hlook
          exact hd (Option.some.inj hlook)
    · exact ⟨n, hn⟩
  · exact ⟨n, hn⟩

/-! ### Runs -/

/-- **One event** gives no observer a reason to object. -/
theorem handleEvent_watched (hw : Watched h) {i : Event × Answers} (hi : AcceptsUnused h i) :
    Watched (handleEvent h i) := by
  rcases handleEvent_cases h i with ⟨-, heq⟩ | ⟨-, hstate, heq⟩ | ⟨-, -, heq⟩ | ⟨-, -, heq⟩
  · rw [heq]
    exact hw
  · rw [heq]
    exact acceptBranch_watched hw (hi hstate)
  · rw [heq]
    exact removeBranch_watched hw i.1.fd i.2
  · rw [heq]
    exact dataBranch_watched hw i.1 i.2

theorem watched_of_mem_reached {socket : SRTSOCKET} {batches : Batches}
    (hunused : Throughout (w := w) AcceptsUnused socket batches) :
    ∀ h ∈ reached w socket batches, Watched h :=
  Runs.forall_mem_states (fun _ _ hw hi => handleEvent_watched hw hi) (watched_start w socket)
    hunused

/-- **The discipline of callbacks**, for every connection and in every state of a run: a block is
called only after the connection was accepted; the data passed to an `at_data` block that was
registered by the acceptor and never replaced is what was read from the connection's socket while
it was registered; and after the `at_close` block, nothing is called any more. -/
theorem callback_discipline (socket : SRTSOCKET) (batches : Batches)
    (hunused : Throughout (w := w) AcceptsUnused socket batches) :
    ∀ h ∈ reached w socket batches, ∀ c,
      Runs.Precedes (IsAccepted c) (fun o => CallsAtData c o ∨ CallsAtClose c o) h.log ∧
      (∀ conn block, .accepted c conn ∈ h.log → conn.atDataBlock = some block →
        Runs.NeverAfter (IsAccepted c) (SetsAtData c) h.log →
        chunks c h.log = (messages c conn.socket h.log).map fun data => (block, data)) ∧
      Runs.NeverAfter (CallsAtClose c) (fun o => CallsAtData c o ∨ CallsAtClose c o) h.log := by
  intro h hh c
  obtain ⟨n, hn⟩ := watched_of_mem_reached hunused h hh c
  refine ⟨Session.calls_follow_accepted hn.history, fun conn block hacc hblock hnever => ?_,
    Session.close_is_last hn.history⟩
  obtain ⟨hinbox, hsteady⟩ := Session.of_accepted hn.history hacc
  rw [← Session.passed_of_history hn.history, ← hinbox]
  exact hn.passed block ((hsteady hnever).trans hblock)

theorem callback_discipline_twoPeers :
    ∃ h ∈ reached 64 1 twoPeers, .callAtClose 0 8 ∈ h.log ∧ messages 0 2 h.log = [[1, 2]] ∧
      chunks 0 h.log = (messages 0 2 h.log).map fun data => (7, data) := by
  have hunused : Throughout (w := 64) AcceptsUnused 1 twoPeers := by rw [Throughout]; decide
  have hlast : ∃ h ∈ reached 64 1 twoPeers, h = run 64 1 twoPeers :=
    ⟨_, List.getLast_mem (l := reached 64 1 twoPeers) (by simp [reached, twoPeers]), rfl⟩
  obtain ⟨h, hh, rfl⟩ := hlast
  refine ⟨_, hh, by decide, by decide, ?_⟩
  exact (callback_discipline 1 twoPeers hunused _ hh 0).2.1 ⟨2, some 7, some 8⟩ 7 (by decide) rfl
    (by decide)

end Server

end Rbsrt
