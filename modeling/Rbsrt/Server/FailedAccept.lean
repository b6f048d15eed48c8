import Rbsrt.Server.Accounting

/-!
# Accepts that fail

`srt_accept` returns `SRT_INVALID_SOCK` when there is no connection to be had. `Socket#accept`
checks for it; the loop of `SRT::Server#start` does not, and goes on as if `-1` were a socket: it
wraps it in a connection object, calls the acceptor block with that, and registers or closes it,
whatever the block says.

## What becomes of it

An accepted failure is counted and registered under the key `-1`, but no epoll watches it. The next
one replaces it in the table and is counted again (`exec_failedAccepts`). A rejected one is taken
from the count.

## Main results

* `acceptsSafely_iff` — the acceptor is called for successful accepts only, and failures change
  nothing, exactly in the runs without failures
* `exec_failedAccepts` — what a series of accepted failures leaves behind
-/

namespace Rbsrt

namespace Server

variable {w : ℕ}

/-- The result of `srt_accept`, as a caller that checks it sees it. -/
def srtAccept (a : Answers) : Option SRTSOCKET :=
  if a.accept = SRT_INVALID_SOCK then none else some a.accept

/-- The loop accepts, and there is nothing to accept. -/
def AcceptFails (h : History w) (i : Event × Answers) : Prop :=
  h.state.raised = false ∧ i.2.getsockstate = .listening ∧ srtAccept i.2 = none

instance (h : History w) (i : Event × Answers) : Decidable (AcceptFails h i) :=
  inferInstanceAs (Decidable (_ ∧ _ ∧ _))

/-- Every call of the acceptor block in an event gets a connection that was accepted, and an event
on which the accept fails leaves the table, the count and the epoll alone. -/
structure AcceptsSafely (h : History w) (i : Event × Answers) : Prop where
  argument : ∀ l, (handleEvent h i).log = h.log ++ l →
    ∀ c conn, .callAcceptor c conn ∈ l → srtAccept i.2 = some conn.socket
  connectionsBySocket : AcceptFails h i →
    (handleEvent h i).state.connectionsBySocket = h.state.connectionsBySocket
  numConnections : AcceptFails h i →
    (handleEvent h i).state.numConnections = h.state.numConnections
  epoll : AcceptFails h i → (handleEvent h i).state.epoll = h.state.epoll

variable {h : History w} {i : Event × Answers}

/-! ### Who calls the acceptor block -/

/-- The acceptor block is called only for a listening socket, with what `srt_accept` returned. -/
theorem handleEvent_callAcceptor {l : List Observation} {c : ℕ} {conn : Connection}
    (hlog : (handleEvent h i).log = h.log ++ l) (hcall : .callAcceptor c conn ∈ l) :
    h.state.raised = false ∧ i.2.getsockstate = .listening ∧ conn = ⟨i.2.accept, none, none⟩ := by
  have hmem : ∀ l', (handleEvent h i).log = h.log ++ l' → .callAcceptor c conn ∈ l' := by
    intro l' hl'
    rwa [← List.append_cancel_left (hlog.symm.trans hl')]
  rcases handleEvent_cases h i with ⟨-, heq⟩ | ⟨hraised, hstate, heq⟩ | ⟨-, -, heq⟩ | ⟨-, -, heq⟩
  · have hnil := hmem [] (by rw [heq, List.append_nil])
    simp at hnil
  · obtain ⟨l', hl', hrest⟩ := acceptBranch_calls h i.2
    rcases List.mem_cons.mp (hmem _ (heq ▸ hl')) with ho | ho
    · exact ⟨hraised, hstate, (Observation.callAcceptor.inj ho).2⟩
    · rcases hrest _ ho with ⟨_, _, ho⟩ | ho | ⟨_, ho, -⟩ <;> simp at ho
  · cases hlook : h.state.connectionsBySocket.lookup i.1.fd with
    | none =>
      have hnil := hmem [] (by rw [heq, removeBranch_log_of_none i.2 hlook, List.append_nil])
      simp at hnil
    | some d =>
      rcases removeBranch_log i.2 hlook with ⟨-, hl'⟩ | ⟨block, l', -, hl', hsets⟩
      · have ho := hmem _ (heq ▸ hl')
        simp at ho
      · have ho := hmem _ (heq ▸ hl')
        simp only [List.mem_cons, reduceCtorEq, false_or] at ho
        obtain ⟨_, _, ho⟩ := hsets _ ho
        cases ho
  · obtain ⟨l', hl', hsets⟩ := dataBranch_log h i.1 i.2
    rcases List.mem_append.mp (hmem _ (heq ▸ hl')) with ho | ho
    · simp [readLog] at ho
    · obtain ⟨_, _, ho⟩ := hsets _ ho
      cases ho

/-- A failed accept has the acceptor block called all the same, with the socket `-1`. -/
theorem AcceptFails.callAcceptor (hfails : AcceptFails h i) :
    ∃ l, (handleEvent h i).log = h.log ++ l ∧
      .callAcceptor h.state.allocated ⟨i.2.accept, none, none⟩ ∈ l := by
  obtain ⟨l, hlog, -⟩ := acceptBranch_calls h i.2
  have heq : handleEvent h i = acceptBranch h i.2 := by
    rw [handleEvent, hfails.1, hfails.2.1]
    rfl
  exact ⟨_, heq ▸ hlog, List.mem_cons_self⟩

/-- **One event.** It is safe exactly if its accept does not fail. -/
theorem acceptsSafely_iff_not_fails (h : History w) (i : Event × Answers) :
    AcceptsSafely h i ↔ ¬ AcceptFails h i := by
  constructor
  · intro hsafe hfails
    obtain ⟨l, hlog, hcall⟩ := hfails.callAcceptor
    have hsome := hsafe.argument l hlog _ _ hcall
    rw [hfails.2.2] at hsome
    cases hsome
  · intro hnot
    refine ⟨fun l hlog c conn hcall => ?_, fun hfails => absurd hfails hnot,
      fun hfails => absurd hfails hnot, fun hfails => absurd hfails hnot⟩
    obtain ⟨hraised, hstate, rfl⟩ := handleEvent_callAcceptor hlog hcall
    have hsucceeds : srtAccept i.2 ≠ none := fun haccept => hnot ⟨hraised, hstate, haccept⟩
    rw [srtAccept] at hsucceeds ⊢
    split at hsucceeds
    · exact absurd rfl hsucceeds
    · next hvalid => exact if_neg hvalid

/-- **A run accepts safely exactly if no accept in it fails.** -/
theorem acceptsSafely_iff (socket : SRTSOCKET) (batches : Batches) :
    Throughout (w := w) AcceptsSafely socket batches ↔
      Throughout (w := w) (fun h i => ¬ AcceptFails h i) socket batches :=
  Runs.along_congr (I := fun _ => True) (A := fun _ _ => True) (fun _ _ _ _ => trivial)
    (fun h i _ _ => acceptsSafely_iff_not_fails h i) trivial
    (Runs.along_const.mpr fun _ _ => trivial)

/-! ### What failures leave behind -/

/-- The accept fails, and the acceptor block accepts. -/
def AcceptedFailure (i : Event × Answers) : Prop :=
  i.2.getsockstate = .listening ∧ srtAccept i.2 = none ∧ i.2.block.result = some true

theorem AcceptedFailure.entry (hi : AcceptedFailure i) (hraised : h.state.raised = false) :
    entry h i = .accept SRT_INVALID_SOCK h.state.allocated := by
  have haccept : i.2.accept = SRT_INVALID_SOCK := by
    by_contra hne
    have hsome : srtAccept i.2 = some i.2.accept := if_neg hne
    rw [hi.2.1] at hsome
    cases hsome
  rw [Server.entry, hraised, hi.1, hi.2.2, haccept]
  rfl

/-- **A series of accepted failures** adds to the count each time, and to the table once. -/
theorem exec_failedAccepts (is : List (Event × Answers)) (his : ∀ i ∈ is, AcceptedFailure i)
    (hraised : h.state.raised = false) :
    (Runs.exec handleEvent h is).state.numConnections =
        h.state.numConnections + BitVec.ofNat w is.length ∧
      ∀ fd, fd ∈ (Runs.exec handleEvent h is).state.connectionsBySocket.keys ↔
        fd ∈ h.state.connectionsBySocket.keys ∨ is ≠ [] ∧ fd = SRT_INVALID_SOCK := by
  induction is generalizing h with
  | nil => simp
  | cons i is ih =>
    have hi := his i List.mem_cons_self
    have hnext : (handleEvent h i).state.raised = false :=
      handleEvent_raised hraised (by rw [hi.2.2]; simp)
    have hledger := ledger_handleEvent h i
    rw [hi.entry hraised] at hledger
    have hcount : (handleEvent h i).state.numConnections = h.state.numConnections + 1 :=
      congrArg Ledger.count hledger
    have htable : (handleEvent h i).state.connectionsBySocket =
        h.state.connectionsBySocket.aset SRT_INVALID_SOCK h.state.allocated :=
      congrArg Ledger.table hledger
    obtain ⟨hn, hkeys⟩ := ih (fun j hj => his j (List.mem_cons_of_mem i hj)) hnext
    rw [Runs.exec_cons]
    refine ⟨?_, fun fd => ?_⟩
    · have hone : (1 : BitVec w) = BitVec.ofNat w 1 := rfl
      rw [hn, hcount, List.length_cons, hone, BitVec.add_assoc, ← BitVec.ofNat_add, Nat.add_comm 1]
    · rw [hkeys, htable, OrderedHash.mem_keys_aset]
      simp only [ne_eq, reduceCtorEq, not_false_eq_true, true_and]
      constructor
      · rintro ((rfl | hfd) | ⟨-, rfl⟩)
        exacts [Or.inr rfl, Or.inl hfd, Or.inr rfl]
      · rintro (hfd | rfl)
        exacts [Or.inl (Or.inr hfd), Or.inl (Or.inl rfl)]

/-- One failed accept that the acceptor block accepts: it has been called with the socket `-1`,
which is registered and counted and not watched. -/
theorem not_acceptsSafely_failed :
    ¬ Throughout (w := 64) AcceptsSafely 1 [[knock SRT_INVALID_SOCK ⟨[], some true⟩]] := by
  rintro ⟨hsafe, -⟩
  exact absurd (hsafe.numConnections (by decide)) (by decide)

end Server

end Rbsrt
