import Rbsrt.Server.Loop

/-!
# Registered connections and watched sockets

A connection is in `@connections_by_socket` from when it is accepted until its end is reported, and
its end is reported because the epoll watches its socket. The two are changed next to each other,
but nothing checks that both changes succeed, the user's blocks run in between, and `start` makes a
new epoll each time it is called.

## Moves

A pass of the `while` loop handles a batch of events. If an exception has left the loop, `start` can
be called again; it finds the table as it was left. A run is a list of such moves (`LoopMove`), and
the loop is about to wait in every state in between that is not one of an exception.

## What breaks it

A block that calls `Connection#close` on a registered connection takes its socket out of the epoll
and leaves it in the table; an accepted connection may be closed before it is registered, may not be
a connection at all, or may fail to be added to the epoll; and starting again forgets what was
watched. `KeepsWatched` is the condition on an event. It is exact (`allWatched_handleEvent_iff`).

## Main results

* `allWatched_handleEvent_iff` — which events leave every registered connection watched
* `allWatched_of_keeps` — so do runs of such events in which nothing is registered when `start` is
  called again
-/

namespace Rbsrt

namespace Server

variable {w : ℕ}

/-- Every registered connection is watched. -/
def AllWatched (s : Server w) : Prop := ∀ fd ∈ s.connectionsBySocket.keys, fd ∈ s.epoll

/-- Only open sockets are watched. -/
def WatchesOpened (s : Server w) : Prop := ∀ fd ∈ s.epoll, fd ∈ s.opened

instance (s : Server w) : Decidable (AllWatched s) :=
  List.decidableBAll (fun fd => fd ∈ s.epoll) s.connectionsBySocket.keys

/-! ### What blocks close -/

/-- The sockets of the connections a block closes. -/
def closedBy (s : Server w) (actions : List Action) : List SRTSOCKET :=
  actions.filterMap fun
    | .close c => some (s.heap c).socket
    | _ => none

theorem closedBy_congr {s s' : Server w} (h : ∀ c, (s'.heap c).socket = (s.heap c).socket)
    (actions : List Action) : closedBy s' actions = closedBy s actions := by
  refine List.filterMap_congr fun action _ => ?_
  cases action with
  | atData c block => rfl
  | atClose c block => rfl
  | close c => exact congrArg some (h c)

theorem closedBy_cons (s : Server w) (action : Action) (actions : List Action) :
    closedBy s (action :: actions) = closedBy s [action] ++ closedBy s actions := by
  rw [closedBy, ← List.singleton_append, List.filterMap_append]
  rfl

theorem mem_epoll_perform {s : Server w} {action : Action} {fd : SRTSOCKET} :
    fd ∈ (s.perform action).1.epoll ↔ fd ∈ s.epoll ∧ fd ∉ closedBy s [action] := by
  cases action with
  | atData c block => simp [perform, modifyConnection, closedBy]
  | atClose c block => simp [perform, modifyConnection, closedBy]
  | close c => simp [perform, srtClose, closedBy]

theorem mem_opened_perform {s : Server w} {action : Action} {fd : SRTSOCKET} :
    fd ∈ (s.perform action).1.opened ↔ fd ∈ s.opened ∧ fd ∉ closedBy s [action] := by
  cases action with
  | atData c block => simp [perform, modifyConnection, closedBy]
  | atClose c block => simp [perform, modifyConnection, closedBy]
  | close c => simp [perform, srtClose, closedBy]

/-- **What a block leaves open, and watched.** -/
theorem mem_callBlock (h : History w) (actions : List Action) (fd : SRTSOCKET) :
    (fd ∈ (callBlock h actions).state.epoll ↔
        fd ∈ h.state.epoll ∧ fd ∉ closedBy h.state actions) ∧
      (fd ∈ (callBlock h actions).state.opened ↔
        fd ∈ h.state.opened ∧ fd ∉ closedBy h.state actions) := by
  induction actions generalizing h with
  | nil => simp [callBlock, closedBy]
  | cons action actions ih =>
    obtain ⟨hepoll, hopened⟩ := ih (Runs.record perform h action)
    have hsame := closedBy_congr (perform_sameTables h.state action).socket actions
    rw [Runs.record_state] at hepoll hopened
    rw [hsame, mem_epoll_perform] at hepoll
    rw [hsame, mem_opened_perform] at hopened
    rw [closedBy_cons, List.mem_append, not_or, ← and_assoc, ← and_assoc]
    exact ⟨hepoll, hopened⟩

theorem allWatched_callBlock_iff {h : History w} (hw : AllWatched h.state) (actions : List Action) :
    AllWatched (callBlock h actions).state ↔
      ∀ fd ∈ h.state.connectionsBySocket.keys, fd ∉ closedBy h.state actions := by
  rw [AllWatched, (callBlock_sameTables h actions).connectionsBySocket]
  refine forall₂_congr fun fd hfd => ?_
  rw [(mem_callBlock h actions fd).1, and_iff_right (hw fd hfd)]

/-! ### One event -/

variable {h : History w} {a : Answers}

/-- The `at_close` block of the connection under a socket. -/
def closer (s : Server w) (fd : SRTSOCKET) : Option Proc :=
  (s.connectionsBySocket.lookup fd).bind fun c => (s.heap c).atCloseBlock

/-- The sockets of the connections that are closed by the block an event calls, if it calls one. -/
def blockCloses (h : History w) (i : Event × Answers) : List SRTSOCKET :=
  match i.2.getsockstate with
  | .listening => closedBy (h.state.newConnection i.2.accept) i.2.block.actions
  | .closed | .nonexist | .broken =>
    if h.state.closer i.1.fd = none then [] else closedBy h.state i.2.block.actions
  | .connected =>
    if taken i.1 i.2 = [] ∨ h.state.listener i.1.fd = none then []
    else closedBy h.state i.2.block.actions
  | _ => []

/-- No connection that stays registered is closed, and one that becomes registered is a connection,
is still open, and can be watched. -/
structure KeepsWatched (h : History w) (i : Event × Answers) : Prop where
  stays : ∀ fd ∈ h.state.connectionsBySocket.keys,
    ¬ (Gone i.2.getsockstate ∧ fd = i.1.fd) → fd ∉ blockCloses h i
  accepted : i.2.getsockstate = .listening → i.2.block.result = some true →
    i.2.accept ≠ SRT_INVALID_SOCK ∧ i.2.accept ∉ blockCloses h i ∧ i.2.addUsock = true

theorem mem_epollAddUsock {s : Server w} {fd fd' : SRTSOCKET} {ok : Bool} :
    fd' ∈ (s.epollAddUsock fd ok).epoll ↔ fd' ∈ s.epoll ∨ fd' = fd ∧ ok = true ∧ fd ∈ s.opened := by
  rw [epollAddUsock]
  split
  · next h => simp [h, List.mem_insert_iff, or_comm]
  · next h => simp [h]

theorem mem_opened_newConnection {s : Server w} {fd fd' : SRTSOCKET} :
    fd' ∈ (s.newConnection fd).opened ↔ fd' ∈ s.opened ∨ fd' = fd ∧ fd ≠ SRT_INVALID_SOCK := by
  rw [newConnection]
  split
  · next h => simp [h]
  · next h => simp [h, List.mem_insert_iff, or_comm]

/-- Registering a socket that is new to the table and the epoll: it has to be watched as well. -/
theorem allWatched_register_iff {s : Server w} {fd : SRTSOCKET} (ok : Bool) (c : ℕ)
    (hkeys : fd ∉ s.connectionsBySocket.keys) (hepoll : fd ∉ s.epoll) :
    AllWatched { s.epollAddUsock fd ok with
        connectionsBySocket := s.connectionsBySocket.aset fd c } ↔
      AllWatched s ∧ ok = true ∧ fd ∈ s.opened := by
  have hself : fd ∈ (s.epollAddUsock fd ok).epoll ↔ ok = true ∧ fd ∈ s.opened := by
    rw [mem_epollAddUsock, or_iff_right hepoll, and_iff_right rfl]
  have hothers : ∀ fd' ∈ s.connectionsBySocket.keys,
      (fd' ∈ (s.epollAddUsock fd ok).epoll ↔ fd' ∈ s.epoll) := by
    intro fd' hfd'
    have hne : fd' ≠ fd := fun heq => hkeys (heq ▸ hfd')
    rw [mem_epollAddUsock, or_iff_left fun h => hne h.1]
  constructor
  · intro hall
    refine ⟨fun fd' hfd' => (hothers fd' hfd').mp (hall fd' ?_), hself.mp (hall fd ?_)⟩
    · exact OrderedHash.mem_keys_aset.mpr (Or.inr hfd')
    · exact OrderedHash.mem_keys_aset.mpr (Or.inl rfl)
  · rintro ⟨hall, haccept⟩ fd' hfd'
    rcases OrderedHash.mem_keys_aset.mp hfd' with rfl | hfd'
    · exact hself.mpr haccept
    · exact (hothers fd' hfd').mpr (hall fd' hfd')

/-- Closing a socket that is not registered. -/
theorem allWatched_srtClose_iff {s : Server w} {fd : SRTSOCKET}
    (hkeys : fd ∉ s.connectionsBySocket.keys) :
    AllWatched (s.srtClose fd) ↔ AllWatched s := by
  refine forall₂_congr fun fd' hfd' => ?_
  have hne : fd' ≠ fd := fun heq => hkeys (heq ▸ hfd')
  simp [srtClose, hne]

/-- **A peer.** Its connection is registered and watched, if it is accepted; the connections that
are registered already stay watched unless the acceptor block closes them. -/
theorem allWatched_acceptBranch_iff (hw : AllWatched h.state) (hopened : WatchesOpened h.state)
    (hfresh : a.accept ∉ h.state.opened) :
    AllWatched (acceptBranch h a).state ↔
      (∀ fd ∈ h.state.connectionsBySocket.keys,
        fd ∉ closedBy (h.state.newConnection a.accept) a.block.actions) ∧
      (a.block.result = some true → a.accept ≠ SRT_INVALID_SOCK ∧
        a.accept ∉ closedBy (h.state.newConnection a.accept) a.block.actions ∧
        a.addUsock = true) := by
  have hblock : AllWatched (callBlock (presentConnection h a.accept) a.block.actions).state ↔
      ∀ fd ∈ h.state.connectionsBySocket.keys,
        fd ∉ closedBy (h.state.newConnection a.accept) a.block.actions :=
    allWatched_callBlock_iff (h := presentConnection h a.accept) hw a.block.actions
  have hmem := mem_callBlock (presentConnection h a.accept) a.block.actions a.accept
  have htable : _ = h.state.connectionsBySocket :=
    (callBlock_sameTables (presentConnection h a.accept) a.block.actions).connectionsBySocket
  have hsocket := socket_callBlock_presentConnection h a.accept a.block.actions
  -- the accepted socket is neither registered nor watched yet
  have hkeys : a.accept ∉ h.state.connectionsBySocket.keys := fun hk => hfresh (hopened _ (hw _ hk))
  have hepoll : a.accept ∉ h.state.epoll := fun he => hfresh (hopened _ he)
  rw [acceptBranch, ← hblock]
  generalize callBlock (presentConnection h a.accept) a.block.actions = h' at *
  rw [← htable] at hkeys
  cases hresult : a.block.result with
  | none =>
    refine (and_iff_left ?_).symm
    intro hnone
    cases hnone
  | some accepted =>
    cases accepted with
    | false =>
      refine (allWatched_srtClose_iff hkeys).trans (and_iff_left ?_).symm
      intro hfalse
      cases hfalse
    | true =>
      simp only [Runs.tell_state, Runs.update_state, hsocket]
      have hnew : a.accept ∈ h'.state.opened ↔ a.accept ≠ SRT_INVALID_SOCK ∧
          a.accept ∉ closedBy (h.state.newConnection a.accept) a.block.actions := by
        rw [hmem.2, presentConnection_state, mem_opened_newConnection, or_iff_right hfresh,
          and_iff_right rfl]
      have hregister := allWatched_register_iff a.addUsock h.state.allocated hkeys
        fun he => hepoll (hmem.1.mp he).1
      refine hregister.trans (and_congr_right fun _ => ?_)
      rw [hnew, and_comm, and_assoc, true_imp_iff]

/-- A block that is called for a connection, and what follows it. -/
theorem allWatched_callBlock_tell_iff (hw : AllWatched h.state) (o : Observation)
    (actions : List Action) :
    AllWatched (callBlock (h.tell o) actions).state ↔
      ∀ fd ∈ h.state.connectionsBySocket.keys, fd ∉ closedBy h.state actions :=
  allWatched_callBlock_iff (h := h.tell o) hw actions

theorem allWatched_closeConnection_iff (hw : AllWatched h.state) (c : ℕ) :
    AllWatched (closeConnection h c a).state ↔
      ((h.state.heap c).atCloseBlock ≠ none →
        ∀ fd ∈ h.state.connectionsBySocket.keys, fd ∉ closedBy h.state a.block.actions) := by
  rw [closeConnection]
  cases (h.state.heap c).atCloseBlock with
  | none => exact iff_of_true hw fun hnone => absurd rfl hnone
  | some block =>
    have hcall := allWatched_callBlock_tell_iff hw (.callAtClose c block) a.block.actions
    rw [forall_prop_of_true (by simp), ← hcall]
    cases a.block.result <;> rfl

/-- **A socket that is gone** is unregistered with the rest, and its `at_close` block may close
others. -/
theorem allWatched_removeBranch_iff (hw : AllWatched h.state) (sock : SRTSOCKET) :
    AllWatched (removeBranch h sock a).state ↔
      (h.state.closer sock ≠ none → ∀ fd ∈ h.state.connectionsBySocket.keys, fd ≠ sock →
        fd ∉ closedBy h.state a.block.actions) := by
  rw [removeBranch, closer]
  simp only [Runs.update_state, epollRemoveUsock]
  cases hlook : h.state.connectionsBySocket.lookup sock with
  | none =>
    refine iff_of_true (fun fd hfd => ?_) fun hnone => absurd rfl hnone
    have hne : fd ≠ sock := fun heq => OrderedHash.lookup_eq_none_iff.mp hlook (heq ▸ hfd)
    exact List.mem_filter.mpr ⟨hw fd hfd, by simpa using hne⟩
  | some c =>
    have hrest : AllWatched (unregister (h.update (·.epollRemoveUsock sock)) sock c).state := by
      intro fd hfd
      obtain ⟨hfd, hne⟩ := OrderedHash.mem_keys_delete.mp hfd
      exact List.mem_filter.mpr ⟨hw fd hfd, by simpa using hne⟩
    refine (allWatched_closeConnection_iff hrest c).trans (imp_congr_right fun _ => ?_)
    refine forall_congr' fun fd => ?_
    change fd ∈ (h.state.connectionsBySocket.delete sock).keys → _ ↔ _
    rw [OrderedHash.mem_keys_delete, and_imp]
    rfl

theorem allWatched_deliver_iff (hw : AllWatched h.state) (c : ℕ) (data : Bytes) :
    AllWatched (deliver h c data a).state ↔
      ((h.state.heap c).atDataBlock ≠ none →
        ∀ fd ∈ h.state.connectionsBySocket.keys, fd ∉ closedBy h.state a.block.actions) := by
  rw [deliver]
  cases (h.state.heap c).atDataBlock with
  | none => exact iff_of_true hw fun hnone => absurd rfl hnone
  | some block =>
    have hcall := allWatched_callBlock_tell_iff hw (.callAtData c block data) a.block.actions
    rw [forall_prop_of_true (by simp), ← hcall]
    cases a.block.result <;> rfl

/-- **A message** changes nothing, but its `at_data` block may close connections. -/
theorem allWatched_dataBranch_iff (hw : AllWatched h.state) (event : Event) :
    AllWatched (dataBranch h event a).state ↔
      (taken event a ≠ [] → h.state.listener event.fd ≠ none →
        ∀ fd ∈ h.state.connectionsBySocket.keys, fd ∉ closedBy h.state a.block.actions) := by
  rw [dataBranch, taken]
  split
  · split
    · next byte bytes _ =>
      rw [forall_prop_of_true (List.cons_ne_nil _ _), listener]
      simp only [Runs.tell_state]
      cases hlook : h.state.connectionsBySocket.lookup event.fd with
      | none => exact iff_of_true hw fun hnone => absurd rfl hnone
      | some c =>
        have hdeliver := allWatched_deliver_iff (a := a)
          (h := h.tell (.received event.fd (byte :: bytes))) hw c (byte :: bytes)
        simpa using hdeliver
    · exact iff_of_true hw fun hnil => absurd rfl hnil
  · exact iff_of_true hw fun hnil => absurd rfl hnil

theorem blockCloses_of_gone {i : Event × Answers} (hgone : Gone i.2.getsockstate) :
    blockCloses h i =
      if h.state.closer i.1.fd = none then [] else closedBy h.state i.2.block.actions := by
  rw [blockCloses]
  rcases hgone with hstate | hstate | hstate <;> rw [hstate]

theorem blockCloses_of_connected {i : Event × Answers} (hstate : i.2.getsockstate = .connected) :
    blockCloses h i =
      if taken i.1 i.2 = [] ∨ h.state.listener i.1.fd = none then []
      else closedBy h.state i.2.block.actions := by
  rw [blockCloses, hstate]

theorem keepsWatched_iff {i : Event × Answers} : KeepsWatched h i ↔
    (∀ fd ∈ h.state.connectionsBySocket.keys,
      ¬ (Gone i.2.getsockstate ∧ fd = i.1.fd) → fd ∉ blockCloses h i) ∧
    (i.2.getsockstate = .listening → i.2.block.result = some true →
      i.2.accept ≠ SRT_INVALID_SOCK ∧ i.2.accept ∉ blockCloses h i ∧ i.2.addUsock = true) :=
  ⟨fun hkeeps => ⟨hkeeps.stays, hkeeps.accepted⟩, fun hkeeps => ⟨hkeeps.1, hkeeps.2⟩⟩

/-- Away from the listening socket only the first condition matters. -/
theorem keepsWatched_iff_of_ne {i : Event × Answers} (hstate : i.2.getsockstate ≠ .listening) :
    KeepsWatched h i ↔ ∀ fd ∈ h.state.connectionsBySocket.keys,
      ¬ (Gone i.2.getsockstate ∧ fd = i.1.fd) → fd ∉ blockCloses h i := by
  rw [keepsWatched_iff]
  exact and_iff_left fun hlistening => absurd hlistening hstate

theorem keepsWatched_of_nil {i : Event × Answers} (hstate : i.2.getsockstate ≠ .listening)
    (hnil : blockCloses h i = []) : KeepsWatched h i := by
  rw [keepsWatched_iff_of_ne hstate, hnil]
  exact fun fd _ _ => List.not_mem_nil

/-- A socket in no other state is left alone. -/
theorem blockCloses_of_other {i : Event × Answers} (hl : i.2.getsockstate ≠ .listening)
    (hg : ¬ Gone i.2.getsockstate) (hc : i.2.getsockstate ≠ .connected) : blockCloses h i = [] := by
  rw [blockCloses]
  revert hl hg hc
  cases i.2.getsockstate <;> simp [Gone]

theorem ne_listening_of_gone {status : SockStatus} (hgone : Gone status) :
    status ≠ .listening := by
  rcases hgone with hstate | hstate | hstate <;> rw [hstate] <;> decide

/-- **Which events leave every registered connection watched.** -/
theorem allWatched_handleEvent_iff {i : Event × Answers} (hw : AllWatched h.state)
    (hopened : WatchesOpened h.state) (hraised : h.state.raised = false)
    (hfresh : i.2.getsockstate = .listening → i.2.accept ∉ h.state.opened) :
    AllWatched (handleEvent h i).state ↔ KeepsWatched h i := by
  rcases handleEvent_cases h i with ⟨hnone, heq⟩ | ⟨-, hstate, heq⟩ | ⟨-, hgone, heq⟩ |
    ⟨-, hstate, heq⟩
  · -- nothing is done
    obtain ⟨hl, hg, hc⟩ := hnone.resolve_left (by simp [hraised])
    rw [heq]
    exact iff_of_true hw (keepsWatched_of_nil hl (blockCloses_of_other hl hg hc))
  · have hcloses : blockCloses h i =
        closedBy (h.state.newConnection i.2.accept) i.2.block.actions := by
      rw [blockCloses, hstate]
    have hgone : ¬ Gone .listening := by decide
    rw [heq, allWatched_acceptBranch_iff hw hopened (hfresh hstate), keepsWatched_iff, hcloses]
    simp only [hstate, hgone, false_and, not_false_eq_true, forall_const]
  · rw [heq, allWatched_removeBranch_iff hw, keepsWatched_iff_of_ne (ne_listening_of_gone hgone),
      blockCloses_of_gone hgone]
    simp only [hgone, true_and]
    by_cases hcloser : h.state.closer i.1.fd = none
    · simp [hcloser]
    · simp only [if_neg hcloser]
      exact forall_prop_of_true hcloser
  · have hne : i.2.getsockstate ≠ .listening := by rw [hstate]; decide
    have hgone : ¬ Gone .connected := by decide
    rw [heq, allWatched_dataBranch_iff hw, keepsWatched_iff_of_ne hne,
      blockCloses_of_connected hstate]
    simp only [hstate, hgone, false_and, not_false_eq_true, forall_const]
    by_cases hskip : taken i.1 i.2 = [] ∨ h.state.listener i.1.fd = none
    · rw [if_pos hskip]
      refine iff_of_true (fun ht hl => ?_) fun fd _ => List.not_mem_nil
      rcases hskip with hskip | hskip
      exacts [absurd hskip ht, absurd hskip hl]
    · rw [if_neg hskip]
      obtain ⟨ht, hl⟩ := not_or.mp hskip
      exact (forall_prop_of_true ht).trans (forall_prop_of_true hl)

/-! ### Only open sockets are watched -/

theorem WatchesOpened.callBlock (hopened : WatchesOpened h.state) (actions : List Action) :
    WatchesOpened (callBlock h actions).state := by
  intro fd hfd
  obtain ⟨hepoll, hnot⟩ := (mem_callBlock h actions fd).1.mp hfd
  exact (mem_callBlock h actions fd).2.mpr ⟨hopened fd hepoll, hnot⟩

theorem WatchesOpened.epollAddUsock {s : Server w} (hopened : WatchesOpened s) (fd : SRTSOCKET)
    (ok : Bool) : WatchesOpened (s.epollAddUsock fd ok) := by
  have hsame : (s.epollAddUsock fd ok).opened = s.opened := by
    rw [Server.epollAddUsock]
    split <;> rfl
  intro fd' hfd'
  rw [hsame]
  rcases mem_epollAddUsock.mp hfd' with hfd' | ⟨rfl, -, hfd'⟩
  · exact hopened fd' hfd'
  · exact hfd'

theorem WatchesOpened.srtClose {s : Server w} (hopened : WatchesOpened s) (fd : SRTSOCKET) :
    WatchesOpened (s.srtClose fd) := by
  intro fd' hfd'
  obtain ⟨hfd', hne⟩ := List.mem_filter.mp hfd'
  exact List.mem_filter.mpr ⟨hopened fd' hfd', hne⟩

theorem WatchesOpened.acceptBranch (hopened : WatchesOpened h.state) (a : Answers) :
    WatchesOpened (acceptBranch h a).state := by
  have hnew : WatchesOpened (h.state.newConnection a.accept) := fun fd hfd =>
    mem_opened_newConnection.mpr (Or.inl (hopened fd hfd))
  have hcall := WatchesOpened.callBlock (h := presentConnection h a.accept) hnew
    a.block.actions
  rw [Server.acceptBranch]
  generalize Server.callBlock (presentConnection h a.accept) a.block.actions = h' at *
  cases a.block.result with
  | none => exact hcall
  | some accepted =>
    cases accepted with
    | false => exact hcall.srtClose a.accept
    | true => exact hcall.epollAddUsock (h'.state.heap h.state.allocated).socket a.addUsock

theorem WatchesOpened.closeConnection (hopened : WatchesOpened h.state) (c : ℕ) (a : Answers) :
    WatchesOpened (closeConnection h c a).state := by
  rw [Server.closeConnection]
  cases (h.state.heap c).atCloseBlock with
  | none => exact hopened
  | some block =>
    have hcall := WatchesOpened.callBlock (h := h.tell (.callAtClose c block)) hopened
      a.block.actions
    cases a.block.result <;> exact hcall

theorem WatchesOpened.removeBranch (hopened : WatchesOpened h.state) (sock : SRTSOCKET)
    (a : Answers) : WatchesOpened (removeBranch h sock a).state := by
  have hremoved : WatchesOpened (h.update (·.epollRemoveUsock sock)).state := fun fd hfd =>
    hopened fd (List.mem_of_mem_filter hfd)
  rw [Server.removeBranch]
  cases (h.update (·.epollRemoveUsock sock)).state.connectionsBySocket.lookup sock with
  | none => exact hremoved
  | some c =>
    exact WatchesOpened.closeConnection
      (h := unregister (h.update (·.epollRemoveUsock sock)) sock c) hremoved c a

theorem WatchesOpened.deliver (hopened : WatchesOpened h.state) (c : ℕ) (data : Bytes)
    (a : Answers) : WatchesOpened (deliver h c data a).state := by
  rw [Server.deliver]
  cases (h.state.heap c).atDataBlock with
  | none => exact hopened
  | some block =>
    have hcall := WatchesOpened.callBlock (h := h.tell (.callAtData c block data)) hopened
      a.block.actions
    cases a.block.result <;> exact hcall

theorem WatchesOpened.dataBranch (hopened : WatchesOpened h.state) (event : Event)
    (a : Answers) : WatchesOpened (dataBranch h event a).state := by
  rw [Server.dataBranch]
  split
  · split
    · simp only [Runs.tell_state]
      cases h.state.connectionsBySocket.lookup event.fd with
      | none => exact hopened
      | some c => exact WatchesOpened.deliver (h := h.tell _) hopened c _ a
    · exact hopened
  · exact hopened

theorem WatchesOpened.handleEvent (hopened : WatchesOpened h.state) (i : Event × Answers) :
    WatchesOpened (handleEvent h i).state := by
  rcases handleEvent_cases h i with ⟨-, heq⟩ | ⟨-, -, heq⟩ | ⟨-, -, heq⟩ | ⟨-, -, heq⟩ <;> rw [heq]
  · exact hopened
  · exact hopened.acceptBranch i.2
  · exact hopened.removeBranch i.1.fd i.2
  · exact hopened.dataBranch i.1 i.2

/-! ### Blocks that raise -/

theorem deliver_raised_of_none {c : ℕ} {data : Bytes} (hnone : a.block.result = none)
    (hblock : (h.state.heap c).atDataBlock ≠ none) : (deliver h c data a).state.raised = true := by
  rw [deliver]
  cases hdata : (h.state.heap c).atDataBlock with
  | none => exact absurd hdata hblock
  | some block => simp [hnone, raise]

theorem closeConnection_raised_of_none {c : ℕ} (hnone : a.block.result = none)
    (hblock : (h.state.heap c).atCloseBlock ≠ none) :
    (closeConnection h c a).state.raised = true := by
  rw [closeConnection]
  cases hclose : (h.state.heap c).atCloseBlock with
  | none => exact absurd hclose hblock
  | some block => simp [hnone, raise]

/-- The block of a connection that is removed raises. -/
theorem removeBranch_raised_of_none {sock : SRTSOCKET} (hnone : a.block.result = none)
    (hcloser : h.state.closer sock ≠ none) : (removeBranch h sock a).state.raised = true := by
  rw [closer] at hcloser
  rw [removeBranch]
  simp only [Runs.update_state, epollRemoveUsock]
  cases hlook : h.state.connectionsBySocket.lookup sock with
  | none => simp [hlook] at hcloser
  | some c =>
    rw [hlook, Option.bind_some] at hcloser
    exact closeConnection_raised_of_none
      (h := unregister (h.update (·.epollRemoveUsock sock)) sock c) hnone hcloser

/-- The block that gets a message raises. -/
theorem dataBranch_raised_of_none {event : Event} (hnone : a.block.result = none)
    (htaken : taken event a ≠ []) (hlistener : h.state.listener event.fd ≠ none) :
    (dataBranch h event a).state.raised = true := by
  rw [taken] at htaken
  rw [dataBranch]
  split at htaken
  · next hin =>
    rw [if_pos hin]
    split at htaken
    · next byte bytes hrecv =>
      rw [listener] at hlistener
      simp only [Runs.tell_state]
      cases hlook : h.state.connectionsBySocket.lookup event.fd with
      | none => simp [hlook] at hlistener
      | some c =>
        rw [hlook, Option.bind_some, ne_eq, Option.map_eq_none_iff] at hlistener
        exact deliver_raised_of_none (h := h.tell (.received event.fd (byte :: bytes))) hnone
          hlistener
    · exact absurd rfl htaken
  · exact absurd rfl htaken

/-- An event that leaves the loop running although its block was to raise has called no block. -/
theorem keepsWatched_of_not_raised {i : Event × Answers} (hraised : h.state.raised = false)
    (hnone : i.2.block.result = none) (hnext : (handleEvent h i).state.raised = false) :
    KeepsWatched h i := by
  rcases handleEvent_cases h i with ⟨hidle, -⟩ | ⟨-, -, heq⟩ | ⟨-, hgone, heq⟩ | ⟨-, hstate, heq⟩
  · obtain ⟨hl, hg, hc⟩ := hidle.resolve_left (by simp [hraised])
    exact keepsWatched_of_nil hl (blockCloses_of_other hl hg hc)
  · rw [heq, acceptBranch, hnone] at hnext
    cases hnext
  · refine keepsWatched_of_nil (ne_listening_of_gone hgone) ?_
    rw [blockCloses_of_gone hgone]
    refine if_pos ?_
    by_contra hcloser
    rw [heq, removeBranch_raised_of_none hnone hcloser] at hnext
    cases hnext
  · refine keepsWatched_of_nil (by rw [hstate]; decide) ?_
    rw [blockCloses_of_connected hstate]
    refine if_pos ?_
    by_contra hcalled
    obtain ⟨htaken, hlistener⟩ := not_or.mp hcalled
    rw [heq, dataBranch_raised_of_none hnone htaken hlistener] at hnext
    cases hnext

/-! ### Runs with restarts -/

/-- A pass of the `while` loop, or another call of `start`. -/
inductive LoopMove
  | pass (batch : List (Event × Answers))
  | startAgain (addUsock : Bool)

/-- `start` makes a new epoll that watches the server's socket, and takes the table as it is. -/
def restart (s : Server w) (addUsock : Bool) : Server w :=
  { s with epoll := [], raised := false }.epollAddUsock s.socket addUsock

/-- One move. After an exception there are no passes until `start` is called again, which the loop
does not return from otherwise. -/
def move (h : History w) : LoopMove → History w
  | .pass batch => Runs.exec handleEvent h batch
  | .startAgain addUsock => if h.state.raised then h.update (·.restart addUsock) else h

/-- What is assumed of `srt_accept`: it does not return a socket that is open already. -/
def AcceptsUnopened (h : History w) : LoopMove → Prop
  | .pass batch => Runs.Along handleEvent
      (fun h i => i.2.getsockstate = .listening → i.2.accept ∉ h.state.opened) h batch
  | .startAgain _ => True

/-- Every event of a pass keeps the registered connections watched or ends the loop, and nothing is
registered when `start` is called again. -/
def KeepsMove (h : History w) : LoopMove → Prop
  | .pass batch => Runs.Along handleEvent
      (fun h i => i.2.block.result = none ∨ KeepsWatched h i) h batch
  | .startAgain _ => h.state.raised = true → h.state.connectionsBySocket.keys = []

/-- The invariant of the runs. -/
structure Watching (h : History w) : Prop where
  opened : WatchesOpened h.state
  watched : h.state.raised = false → AllWatched h.state

theorem watching_start (w : ℕ) (socket : SRTSOCKET) : Watching (start w socket) where
  opened := fun _ hfd => hfd
  watched := fun _ _ hfd => absurd hfd List.not_mem_nil

theorem Watching.handleEvent {i : Event × Answers} (hwatching : Watching h)
    (hfresh : i.2.getsockstate = .listening → i.2.accept ∉ h.state.opened)
    (hkeeps : i.2.block.result = none ∨ KeepsWatched h i) : Watching (handleEvent h i) := by
  refine ⟨hwatching.opened.handleEvent i, fun hnext => ?_⟩
  by_cases hraised : h.state.raised = false
  · rw [allWatched_handleEvent_iff (hwatching.watched hraised) hwatching.opened hraised hfresh]
    exact hkeeps.elim (fun hnone => keepsWatched_of_not_raised hraised hnone hnext) id
  · have hsame : Server.handleEvent h i = h := if_pos (by simpa using hraised)
    rw [hsame] at hnext
    exact absurd hnext hraised

theorem Watching.pass {batch : List (Event × Answers)} (hwatching : Watching h)
    (hfresh : AcceptsUnopened h (.pass batch)) (hkeeps : KeepsMove h (.pass batch)) :
    Watching (move h (.pass batch)) := by
  change Watching (Runs.exec Server.handleEvent h batch)
  induction batch generalizing h with
  | nil => exact hwatching
  | cons i batch ih => exact ih (hwatching.handleEvent hfresh.1 hkeeps.1) hfresh.2 hkeeps.2

theorem Watching.startAgain {addUsock : Bool} (hwatching : Watching h)
    (hkeeps : KeepsMove h (.startAgain addUsock)) : Watching (move h (.startAgain addUsock)) := by
  rw [move]
  by_cases hraised : h.state.raised = true
  · rw [if_pos hraised]
    have hnone : WatchesOpened { h.state with epoll := [], raised := false } := fun _ hfd =>
      absurd hfd List.not_mem_nil
    refine ⟨hnone.epollAddUsock _ _, fun _ fd hfd => ?_⟩
    have htable : (h.state.restart addUsock).connectionsBySocket = h.state.connectionsBySocket := by
      rw [restart, epollAddUsock]
      split <;> rfl
    rw [Runs.update_state, htable, hkeeps hraised] at hfd
    exact absurd hfd List.not_mem_nil
  · rwa [if_neg hraised]

/-- In every state in which the loop is about to wait, every registered connection is watched. -/
def WatchedThroughout (w : ℕ) (socket : SRTSOCKET) (moves : List LoopMove) : Prop :=
  ∀ h ∈ start w socket :: Runs.states move (start w socket) moves,
    h.state.raised = false → AllWatched h.state

instance (socket : SRTSOCKET) (moves : List LoopMove) :
    Decidable (WatchedThroughout w socket moves) :=
  List.decidableBAll (fun h : History w => h.state.raised = false → AllWatched h.state)
    (start w socket :: Runs.states move (start w socket) moves)

/-- **Every registered connection is watched whenever the loop is about to wait**, in every run in
which no block closes a connection that stays registered, every accepted connection is open and can
be added to the epoll, and no connection is registered when `start` is called again. -/
theorem allWatched_of_keeps (socket : SRTSOCKET) (moves : List LoopMove)
    (hfresh : Runs.Along move AcceptsUnopened (start w socket) moves)
    (hkeeps : Runs.Along move KeepsMove (start w socket) moves) :
    WatchedThroughout w socket moves := by
  have hstates : ∀ h ∈ Runs.states move (start w socket) moves, Watching h := by
    refine Runs.forall_mem_states (A := fun h m => AcceptsUnopened h m ∧ KeepsMove h m)
      (fun h m hwatching hm => ?_) (watching_start w socket) (hfresh.and hkeeps)
    cases m with
    | pass batch => exact hwatching.pass hm.1 hm.2
    | startAgain addUsock => exact hwatching.startAgain hm.2
  intro h hh
  rcases List.mem_cons.mp hh with rfl | hh
  · exact (watching_start w socket).watched
  · exact (hstates h hh).watched

instance (h : History w) (i : Event × Answers) : Decidable (KeepsWatched h i) :=
  have := List.decidableBAll (fun fd => ¬ (Gone i.2.getsockstate ∧ fd = i.1.fd) →
    fd ∉ blockCloses h i) h.state.connectionsBySocket.keys
  decidable_of_iff _ keepsWatched_iff.symm

instance (h : History w) : ∀ m, Decidable (AcceptsUnopened h m)
  | .pass batch => Runs.decidableAlong _ _ h batch
  | .startAgain _ => isTrue trivial

instance (h : History w) : ∀ m, Decidable (KeepsMove h m)
  | .pass batch => Runs.decidableAlong _ _ h batch
  | .startAgain _ => inferInstanceAs (Decidable (_ → _))

/-- A connection comes and goes, the next one makes the acceptor raise, and `start` is called
again. -/
def comesAndGoes : List LoopMove :=
  [.pass [knock 2 ⟨[.atData 0 7], some true⟩, readable 2 [1]], .pass [hangup 2],
    .pass [knock 3 ⟨[.close 1], none⟩], .startAgain true, .pass [knock 4 ⟨[], some true⟩]]

theorem allWatched_comesAndGoes : WatchedThroughout 64 1 comesAndGoes :=
  allWatched_of_keeps 1 comesAndGoes (by decide) (by decide)

/-- A message for the second connection, whose `at_data` block closes the first. -/
def closesOther : List LoopMove :=
  [.pass [knock 2 ⟨[], some true⟩, knock 3 ⟨[.atData 1 7], some true⟩],
    .pass [(⟨3, ⟨true, false, false, false⟩⟩,
      ⟨.connected, SRT_INVALID_SOCK, false, fun cap => some ([1].take cap),
        ⟨[.close 0], some true⟩⟩)]]

/-- A connection is registered when the acceptor raises, and `start` is called again. -/
def startsOver : List LoopMove :=
  [.pass [knock 2 ⟨[], some true⟩, knock 3 ⟨[], none⟩], .startAgain true]

theorem not_allWatched_closesOther :
    ¬ WatchedThroughout 64 1 closesOther ∧ ¬ WatchedThroughout 64 1 startsOver := by
  constructor <;> decide

end Server

end Rbsrt
