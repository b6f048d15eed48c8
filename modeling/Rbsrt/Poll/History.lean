import Rbsrt.Poll.Wait

/-!
# What a poll has been told

The user of a poll sees its methods return or raise. `registration` reads off this history which
object is registered for a socket: the one that was added last, unless it was removed since. The
hash `@sockets` is that (`Kept`), with one twist: a `remove` that raises an `SRT::Error` has removed
the socket all the same.

`wait` looks up everything it reports in that hash. So whatever libsrt leaves in the array, whatever
other threads do in the meantime, and also when more sockets are ready than the array has entries: a
socket that was never added, or was removed, is never reported.

The other side of it is that a socket that does not exist any more cannot be taken out. All three
methods check for it first, and raise.

## Main results

* `Kept.move` — one move
* `reportsRegistered` — every run
* `stays_of_nonexistent` — sockets that are closed
-/

namespace Rbsrt

namespace Poll

/-! ### Histories -/

/-- The socket object a method is called with. -/
def Call.object : Call → SocketObject
  | .add o _ | .update o _ | .remove o => o

/-- A call, and what the user sees of it. -/
abbrev Entry := Call × Except Error Returned

/-- A poll and the calls so far. -/
abbrev History := Runs.Recorded Poll Entry

/-- One call, with its entry. -/
def recorded (p : Poll) (i : Call × Answers) : Poll × List Entry :=
  (p.step i, [(i.1, (p.call i).2)])

/-- What an entry says about a socket. -/
def register (fd : SRTSOCKET) (r : Option SocketObject) : Entry → Option SocketObject
  | (.add o _, .ok _) => if o.socket = fd then some o else r
  | (.remove o, .ok _) | (.remove o, .error .srt) => if o.socket = fd then none else r
  | _ => r

/-- The object that is registered for a socket, as the user can tell. -/
def registration (fd : SRTSOCKET) (t : List Entry) : Option SocketObject :=
  t.foldl (register fd) none

theorem registration_concat (fd : SRTSOCKET) (t : List Entry) (entry : Entry) :
    registration fd (t ++ [entry]) = register fd (registration fd t) entry := by
  rw [registration, List.foldl_append]
  rfl

/-- The hash is what the user was told. -/
def Kept (h : History) : Prop := ∀ fd, h.state.sockets.lookup fd = registration fd h.log

variable {h : History} {p : Poll}

theorem unwrap_error {o : SocketObject} {a : Answers} {e : Error} (h : unwrap o a = .error e) :
    ∃ message, e = .type message := by
  rw [unwrap] at h
  split at h
  · exact ⟨_, (Except.error.inj h).symm⟩
  · cases h

/-- A socket that does not exist is not removed, and that is no error of libsrt. -/
theorem remove_error {o : SocketObject} {a : Answers} (ha : a.getsockstate = .nonexist) :
    ∃ message, p.remove o a = (p, .error (.type message)) := by
  rcases unwrap_cases o a with ⟨⟨e, he⟩, -⟩ | ⟨-, hsome⟩
  · obtain ⟨message, rfl⟩ := unwrap_error he
    exact ⟨message, by rw [remove, he]⟩
  · exact absurd ha hsome

theorem lookup_aset_eq (sockets : OrderedHash SRTSOCKET SocketObject) (o : SocketObject)
    (fd : SRTSOCKET) :
    (sockets.aset o.socket o).lookup fd = if o.socket = fd then some o else sockets.lookup fd := by
  split
  · next heq => rw [← heq, OrderedHash.lookup_aset_self]
  · next hne => rw [OrderedHash.lookup_aset_of_ne (Ne.symm hne)]

theorem lookup_delete_eq (sockets : OrderedHash SRTSOCKET SocketObject) (fd fd' : SRTSOCKET) :
    (sockets.delete fd').lookup fd = if fd' = fd then none else sockets.lookup fd := by
  split
  · next heq => rw [heq, OrderedHash.lookup_delete_self]
  · next hne => rw [OrderedHash.lookup_delete_of_ne (Ne.symm hne)]

/-- **A call changes the hash as its entry says.** -/
theorem lookup_call (p : Poll) (i : Call × Answers) (fd : SRTSOCKET) :
    (p.step i).sockets.lookup fd = register fd (p.sockets.lookup fd) (i.1, (p.call i).2) := by
  obtain ⟨c, a⟩ := i
  cases c with
  | add o splat =>
    show (p.add o splat a).1.sockets.lookup fd = register fd _ (_, (p.add o splat a).2)
    rcases p.add_cases o splat a with ⟨e, he⟩ | ⟨events, -, hadd⟩
    · rw [he]
      rfl
    · rw [hadd]
      exact lookup_aset_eq p.sockets o fd
  | update o splat =>
    show (p.update o splat a).1.sockets.lookup fd = register fd _ (_, (p.update o splat a).2)
    rcases p.update_cases o splat a with ⟨-, e, he⟩ | ⟨-, events, -, hupdate⟩
    · rw [he]
      rfl
    · rw [hupdate]
      rfl
  | remove o =>
    show (p.remove o a).1.sockets.lookup fd = register fd _ (_, (p.remove o a).2)
    rcases p.remove_cases o a with ⟨hnone, -⟩ | ⟨-, -, hremove⟩ | ⟨-, -, hremove⟩
    · obtain ⟨message, he⟩ := remove_error (p := p) (o := o) hnone
      rw [he]
      rfl
    · rw [hremove]
      exact lookup_delete_eq p.sockets fd o.socket
    · rw [hremove]
      exact lookup_delete_eq p.sockets fd o.socket

theorem Kept.record (hkept : Kept h) (i : Call × Answers) : Kept (Runs.record recorded h i) := by
  intro fd
  rw [Runs.record_state, Runs.record_log, recorded, registration_concat, ← hkept fd]
  exact lookup_call h.state i fd

theorem Kept.exec (hkept : Kept h) (is : List (Call × Answers)) :
    Kept (Runs.exec (Runs.record recorded) h is) := by
  induction is generalizing h with
  | nil => exact hkept
  | cons i is ih => exact ih (hkept.record i)

theorem exec_record_state (h : History) (is : List (Call × Answers)) :
    (Runs.exec (Runs.record recorded) h is).state = Runs.exec step h.state is := by
  induction is generalizing h with
  | nil => rfl
  | cons i is ih => exact ih (Runs.record recorded h i)

/-! ### Runs with waits -/

/-- What can happen next: a call, or a `wait` with the calls of other threads while it is blocked,
what `srt_epoll_uwait` finds and what is in the array before. -/
inductive Move
  | call (c : Call) (a : Answers)
  | wait (timeout : Timeout) (calls : List (Call × Answers)) (u : Uwait) (memory : ℕ → Event)

/-- The calls of a move. A `wait` that raises does not block. -/
def Move.calls (p : Poll) : Move → List (Call × Answers)
  | .call c a => [(c, a)]
  | .wait timeout calls _ _ =>
    match p.prepare timeout with
    | .error _ => []
    | .ok _ => calls

/-- One move. -/
def move (h : History) (m : Move) : History :=
  Runs.exec (Runs.record recorded) h (m.calls h.state)

/-- What the move reports is registered, as the user can tell. -/
def ReportsRegistered (h : History) : Move → Prop
  | .call _ _ => True
  | .wait timeout calls u memory => ∀ r, (h.state.wait timeout calls u memory).2 = .ok r →
    ∀ flag, ∀ o ∈ r.of flag,
      registration o.socket (move h (.wait timeout calls u memory)).log = some o

theorem Kept.reports (hkept : Kept h) (hcarried : Carried h.state.sockets) (m : Move) :
    ReportsRegistered h m := by
  cases m with
  | call c a => trivial
  | wait timeout calls u memory =>
    intro r hr flag o ho
    cases hprepare : h.state.prepare timeout with
    | error e =>
      rw [wait, hprepare] at hr
      cases hr
    | ok n =>
      rw [wait_of_prepare calls u hprepare memory] at hr
      obtain rfl := Except.ok.inj hr
      rw [of_sortEvents] at ho
      obtain ⟨event, -, -, hlook⟩ := mem_filterMap_found.mp ho
      have hcalls : Move.calls h.state (.wait timeout calls u memory) = calls := by
        rw [Move.calls, hprepare]
      have hsocket := carried_exec hcarried calls event.fd o hlook
      have hregistered := hkept.exec calls o.socket
      rw [exec_record_state, hsocket, hlook] at hregistered
      rw [move, hcalls, hsocket]
      exact hregistered.symm

/-- **One move.** -/
theorem Kept.move (hkept : Kept h) (m : Move) : Kept (move h m) := hkept.exec _

/-- **A poll reports what was added and not removed**, in every run: whatever libsrt answers,
however many sockets are ready, whatever is in memory, and whatever is called while `wait` is
blocked. -/
theorem reportsRegistered (moves : List Move) :
    Runs.Along move ReportsRegistered ⟨init, []⟩ moves := by
  refine Runs.along_of_invariant (I := fun h => Kept h ∧ Carried h.state.sockets) ?_ ?_ ?_
  · intro h m hh
    refine ⟨hh.1.move m, ?_⟩
    rw [Poll.move, exec_record_state]
    exact carried_exec hh.2 _
  · exact fun h m hh => hh.1.reports hh.2 m
  · exact ⟨fun fd => rfl, carried_init⟩

/-! ### Sockets that are closed -/

/-- If the call is about `fd`, then that socket does not exist any more. -/
def Nonexistent (fd : SRTSOCKET) (i : Call × Answers) : Prop :=
  i.1.object.socket = fd → i.2.getsockstate = .nonexist

instance (fd : SRTSOCKET) (i : Call × Answers) : Decidable (Nonexistent fd i) :=
  inferInstanceAs (Decidable (_ → _))

/-- The entry says that its call raised, if it is about `fd`. -/
def Raises (fd : SRTSOCKET) (entry : Entry) : Prop :=
  entry.1.object.socket = fd → ∃ e, entry.2 = .error e

/-- A call about a socket that does not exist raises and changes nothing. -/
theorem call_of_nonexistent {i : Call × Answers} (hnone : i.2.getsockstate = .nonexist) :
    ∃ e, p.call i = (p, .error e) := by
  obtain ⟨c, a⟩ := i
  have hunwrap : ∀ o, ∃ e, unwrap o a = .error e := by
    intro o
    rcases unwrap_cases o a with ⟨he, -⟩ | ⟨-, hsome⟩
    · exact he
    · exact absurd hnone hsome
  cases c with
  | add o splat =>
    obtain ⟨e, he⟩ := hunwrap o
    exact ⟨e, by rw [call, add, he]⟩
  | update o splat =>
    obtain ⟨e, he⟩ := hunwrap o
    cases hsplat : epollEventWithSplat noEvents splat with
    | error e => exact ⟨e, by rw [call, update, hsplat]⟩
    | ok events => exact ⟨e, by simp only [call, update, hsplat, he]⟩
  | remove o =>
    obtain ⟨e, he⟩ := hunwrap o
    exact ⟨e, by rw [call, remove, he]⟩

/-- What is said about other sockets. -/
theorem register_of_ne {fd : SRTSOCKET} {r : Option SocketObject} {entry : Entry}
    (hne : entry.1.object.socket ≠ fd) : register fd r entry = r := by
  obtain ⟨c, result⟩ := entry
  cases c with
  | add o splat => cases result <;> simp [register, show o.socket ≠ fd from hne]
  | update o splat => rfl
  | remove o =>
    rcases result with e | v
    · cases e <;> simp [register, show o.socket ≠ fd from hne]
    · simp [register, show o.socket ≠ fd from hne]

/-- A call that finds the socket gone, or is about another one. -/
theorem stays_call {fd : SRTSOCKET} {i : Call × Answers} (hi : Nonexistent fd i) :
    (p.step i).sockets.lookup fd = p.sockets.lookup fd ∧ Raises fd (i.1, (p.call i).2) := by
  by_cases hfd : i.1.object.socket = fd
  · obtain ⟨e, he⟩ := call_of_nonexistent (p := p) (hi hfd)
    rw [step, he]
    exact ⟨rfl, fun _ => ⟨e, rfl⟩⟩
  · rw [lookup_call, register_of_ne hfd]
    exact ⟨rfl, fun heq => absurd heq hfd⟩

/-- `h'` comes after `h`; the entry for `fd` is the same, and every call about it has raised. -/
def Stuck (fd : SRTSOCKET) (h h' : History) : Prop :=
  h'.state.sockets.lookup fd = h.state.sockets.lookup fd ∧
    ∃ l, h'.log = h.log ++ l ∧ ∀ entry ∈ l, Raises fd entry

theorem stuck_exec {fd : SRTSOCKET} {is : List (Call × Answers)} (his : ∀ i ∈ is, Nonexistent fd i)
    (h : History) : Stuck fd h (Runs.exec (Runs.record recorded) h is) := by
  induction is generalizing h with
  | nil => exact ⟨rfl, [], (List.append_nil _).symm, by simp⟩
  | cons i is ih =>
    obtain ⟨hi, his⟩ := List.forall_mem_cons.mp his
    obtain ⟨hlook, hraises⟩ := stays_call (p := h.state) hi
    obtain ⟨hlook', l, hl, hentries⟩ := ih his (Runs.record recorded h i)
    refine ⟨hlook'.trans hlook, (i.1, (h.state.call i).2) :: l, ?_, ?_⟩
    · rw [Runs.exec_cons, hl, Runs.record_log, recorded, List.append_assoc]
      rfl
    · exact List.forall_mem_cons.mpr ⟨hraises, hentries⟩

/-- **A socket that was closed cannot be taken out of a poll.** From any state on, as long as it
does not exist: the entry of the socket stays what it was, and each call of `add`, `update` and
`remove` that is about it raises. -/
theorem stays_of_nonexistent {fd : SRTSOCKET} {moves : List Move}
    (hclosed : Runs.Along move (fun h m => ∀ i ∈ m.calls h.state, Nonexistent fd i) h moves) :
    ∀ t ∈ Runs.states move h moves, Stuck fd h t := by
  refine Runs.forall_mem_states (I := Stuck fd h) (fun t m ht hm => ?_)
    ⟨rfl, [], (List.append_nil _).symm, by simp⟩ hclosed
  obtain ⟨hlook, l, hl, hentries⟩ := ht
  obtain ⟨hlook', l', hl', hentries'⟩ := stuck_exec hm t
  refine ⟨hlook'.trans hlook, l ++ l', ?_, ?_⟩
  · rw [move, hl', hl, List.append_assoc]
  · exact fun entry hentry => (List.mem_append.mp hentry).elim (hentries entry) (hentries' entry)

/-- The socket does not exist. -/
def nonexistent : Answers := ⟨.nonexist, false⟩

/-- A socket has been added. -/
def socketAdded : History :=
  move ⟨init, []⟩ (.call (.add socketObject [.id (.sym "in".toList)]) succeeding)

/-- It is closed; it is removed in vain, and another one is added while the poll waits. -/
theorem stays_closed :
    socketAdded.state.sockets.lookup 2 = some socketObject ∧
      ∀ t ∈ Runs.states move socketAdded [.call (.remove socketObject) nonexistent,
          .wait .none [addSecond] (.ready []) fun _ => readyToRead 2],
        Stuck 2 socketAdded t :=
  ⟨by decide, stays_of_nonexistent ⟨by decide, by decide, trivial⟩⟩

end Poll

end Rbsrt
