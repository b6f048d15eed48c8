import Mathlib.Data.Finset.Erase
import Rbsrt.General.Custody
import Rbsrt.General.Runs
import Rbsrt.Libsrt

/-!
# Who closes which socket

The extension gets sockets from `srt_create_socket` and `srt_accept` and keeps the id of each in the
struct of a Ruby object. An object that Ruby collects takes the id with it, so its `deallocate`
function is the last chance to close the socket. There are four classes of objects and four such
functions: two always close, one does in some states of the socket, one never does.

## Objects

`World` has the objects that are alive and the sockets that are open. Every operation is a list of
small changes: allocating an object (with id `0`), storing an id in it, opening and closing sockets,
freeing an object. What libsrt answers and which objects Ruby collects is part of an operation.

## Where sockets get lost

`Socket#accept` makes its result with `SRT::Socket.new`, which creates a socket, and then stores the
accepted one over it. A connection that is collected leaves its socket open, and so does a client
that never connected. `KeepsOwned` excludes these three and nothing else.

## Main results

* `owned_step_iff` — which operations keep each open socket in exactly one object
* `ownsSockets_iff` — a run does exactly if all of its operations do
-/

namespace Rbsrt

namespace Ownership

/-- The classes with a socket. -/
inductive Klass
  | socket
  | connection
  | server
  | client
deriving DecidableEq

/-- An object of one of them: what `rbsrt_socket_base_t` has of its struct. -/
structure Wrapper where
  klass : Klass
  socket : SRTSOCKET
deriving DecidableEq

/-- The objects that are alive, by their addresses, and the sockets that are open. -/
structure World where
  objects : ℕ → Option Wrapper
  next : ℕ
  unused : ∀ k, next ≤ k → objects k = none
  opened : Finset SRTSOCKET

/-! ### Small changes -/

namespace World

/-- Nothing has happened yet. -/
def start : World := ⟨fun _ => none, 0, fun _ _ => rfl, ∅⟩

/-- `rbsrt_socket_allocate`, `rbsrt_connection_allocate`, `rbsrt_server_allocate` and
`rbsrt_client_allocate` -/
def allocate (klass : Klass) (s : World) : World where
  objects := Function.update s.objects s.next (some ⟨klass, 0⟩)
  next := s.next + 1
  unused := by
    intro k hk
    rw [Function.update_of_ne (by omega)]
    exact s.unused k (by omega)
  opened := s.opened

/-- Putting an id into an object: `client->socket = fd` -/
def store (k : ℕ) (fd : SRTSOCKET) (s : World) : World where
  objects := Function.update s.objects k ((s.objects k).map fun x => { x with socket := fd })
  next := s.next
  unused := by
    intro j hj
    by_cases hjk : j = k
    · subst hjk
      rw [Function.update_self, s.unused j hj, Option.map_none]
    · rw [Function.update_of_ne hjk]
      exact s.unused j hj
  opened := s.opened

/-- `free(socket)` -/
def free (k : ℕ) (s : World) : World where
  objects := Function.update s.objects k none
  next := s.next
  unused := by
    intro j hj
    by_cases hjk : j = k
    · rw [hjk, Function.update_self]
    · rw [Function.update_of_ne hjk]
      exact s.unused j hj
  opened := s.opened

/-- `srt_create_socket` and `srt_accept`, by what they answer. -/
def srtOpen (answer : SRTSOCKET) (s : World) : World :=
  { s with opened := if answer = SRT_INVALID_SOCK then s.opened else insert answer s.opened }

/-- `srt_close` -/
def srtClose (fd : SRTSOCKET) (s : World) : World := { s with opened := s.opened.erase fd }

/-- The id an object has stored. -/
def holds (s : World) (k : ℕ) : Option SRTSOCKET := (s.objects k).map Wrapper.socket

/-- Each open socket is stored in exactly one object. -/
def Owned (s : World) : Prop := Custody.Owned s.opened s.holds

/-- Every object has been collected. -/
def Collected (s : World) : Prop := ∀ k, s.objects k = none

end World

open World

/-! ### The operations -/

/-- `socket->socket = srt_create_socket()` -/
def createInto (k : ℕ) (created : SRTSOCKET) (s : World) : World :=
  (s.srtOpen created).store k created

/-- `rbsrt_socket_initialize`. The answer is not looked at. -/
def socketInitialize (k : ℕ) (created : SRTSOCKET) (s : World) : World := createInto k created s

/-- `rbsrt_client_initialize`. Neither is it here. -/
def clientInitialize (k : ℕ) (created : SRTSOCKET) (s : World) : World := createInto k created s

/-- `SRT::Socket.new` -/
def socketNew (created : SRTSOCKET) (s : World) : World :=
  socketInitialize s.next created (s.allocate .socket)

/-- `SRT::Client.new` -/
def clientNew (created : SRTSOCKET) (s : World) : World :=
  clientInitialize s.next created (s.allocate .client)

/-- What `rbsrt_server_initialize` meets: whether it is given Strings, the socket, and whether the
address can be read, bound and listened at. -/
structure ServerAnswers where
  strings : Bool
  created : SRTSOCKET
  inetPton : Bool
  bind : Bool
  listen : Bool

/-- How `rbsrt_server_initialize` ends. All but the first raise. -/
inductive ServerExit
  | returned
  | wrongType
  | createFailed
  | badAddress
  | bindFailed
  | listenFailed
deriving DecidableEq

/-- `rbsrt_server_initialize` -/
def serverInitialize (k : ℕ) (a : ServerAnswers) (s : World) : World × ServerExit :=
  if a.strings = false then (s, .wrongType)
  else if a.created = SRT_INVALID_SOCK then (createInto k a.created s, .createFailed)
  else if a.inetPton = false then (createInto k a.created s, .badAddress)
  else if a.bind = false then (createInto k a.created s, .bindFailed)
  else if a.listen = false then (createInto k a.created s, .listenFailed)
  else (createInto k a.created s, .returned)

/-- `SRT::Server.new` -/
def serverNew (a : ServerAnswers) (s : World) : World × ServerExit :=
  serverInitialize s.next a (s.allocate .server)

/-- `rbsrt_socket_accept` -/
def socketAccept (accepted created : SRTSOCKET) (s : World) : World :=
  if accepted = SRT_INVALID_SOCK then s
  else (socketNew created (s.srtOpen accepted)).store s.next accepted

/-- The accept of `rbsrt_server_start`, up to where it calls the acceptor block. -/
def serverAccept (remote : SRTSOCKET) (s : World) : World :=
  ((s.srtOpen remote).allocate .connection).store s.next remote

/-- How the acceptor block ends. What else it does are operations before that. -/
inductive Verdict
  | truthy
  | falsy
  | raised
deriving DecidableEq

/-- What `rbsrt_server_start` does with the verdict on a connection. -/
def acceptorDone (k : ℕ) (verdict : Verdict) (s : World) : World :=
  match s.objects k, verdict with
  | some ⟨.connection, remote⟩, .falsy => s.srtClose remote
  | _, _ => s

/-- `rbsrt_socket_close` and `rbsrt_server_close` -/
def close (k : ℕ) (s : World) : World :=
  match s.objects k with
  | some x => s.srtClose x.socket
  | none => s

/-- `rbsrt_socket_deallocate` -/
def socketDeallocate (fd : SRTSOCKET) (s : World) : World := s.srtClose fd

/-- `rbsrt_connection_deallocate` -/
def connectionDeallocate (s : World) : World := s

/-- `rbsrt_server_deallocate` -/
def serverDeallocate (fd : SRTSOCKET) (status : SockStatus) (s : World) : World :=
  if status ≠ .closed ∨ status ≠ .closing then s.srtClose fd else s

/-- `rbsrt_client_deallocate` -/
def clientDeallocate (fd : SRTSOCKET) (status : SockStatus) (s : World) : World :=
  match status with
  | .connected | .connecting | .opened => s.srtClose fd
  | _ => s

/-- What the class of an object does before its struct is freed. -/
def deallocate (x : Wrapper) (status : SockStatus) (s : World) : World :=
  match x.klass with
  | .socket => socketDeallocate x.socket s
  | .connection => connectionDeallocate s
  | .server => serverDeallocate x.socket status s
  | .client => clientDeallocate x.socket status s

/-- The garbage collector takes an object. That nothing reaches the object any more is not asked:
it may be any, at any time. -/
def collect (k : ℕ) (status : SockStatus) (s : World) : World :=
  match s.objects k with
  | some x => (deallocate x status s).free k
  | none => s

/-- What a program, its threads and the garbage collector do one after the other. -/
inductive Operation
  | socketNew (created : SRTSOCKET)
  | clientNew (created : SRTSOCKET)
  | serverNew (a : ServerAnswers)
  | socketAccept (accepted created : SRTSOCKET)
  | serverAccept (remote : SRTSOCKET)
  | acceptorDone (k : ℕ) (verdict : Verdict)
  | close (k : ℕ)
  | collect (k : ℕ) (status : SockStatus)

/-- One operation. -/
def step (s : World) : Operation → World
  | .socketNew created => socketNew created s
  | .clientNew created => clientNew created s
  | .serverNew a => (serverNew a s).1
  | .socketAccept accepted created => socketAccept accepted created s
  | .serverAccept remote => serverAccept remote s
  | .acceptorDone k verdict => acceptorDone k verdict s
  | .close k => close k s
  | .collect k status => collect k status s

/-- **No orphaned sockets.** After every operation each open socket is stored in exactly one object,
and once all objects are collected no socket is open. -/
def OwnsSockets (ops : List Operation) : Prop :=
  ∀ s ∈ Runs.states step start ops, s.Owned ∧ (s.Collected → s.opened = ∅)

/-- `Socket#accept` does not get both sockets, and an object is not collected before its socket is
closed, unless its class closes it then. -/
def KeepsOwned (s : World) : Operation → Prop
  | .socketAccept accepted created => accepted = SRT_INVALID_SOCK ∨ created = SRT_INVALID_SOCK
  | .collect k status =>
    match s.objects k with
    | some ⟨.connection, fd⟩ => fd ∉ s.opened
    | some ⟨.client, fd⟩ =>
      fd ∈ s.opened → status = .connected ∨ status = .connecting ∨ status = .opened
    | _ => True
  | _ => True

/-- What `srt_create_socket` and `srt_accept` answer in an operation. -/
def answers : Operation → List SRTSOCKET
  | .socketNew created | .clientNew created => [created]
  | .serverNew a => if a.strings then [a.created] else []
  | .socketAccept accepted created =>
    if accepted = SRT_INVALID_SOCK then [] else [accepted, created]
  | .serverAccept remote => [remote]
  | _ => []

/-- The sockets libsrt opens in it. -/
def granted (op : Operation) : List SRTSOCKET := (answers op).filter (· ≠ SRT_INVALID_SOCK)

/-- libsrt's ids are positive, and it counts them down from a random start: none comes again while
an object still has it. -/
structure Fresh (s : World) (op : Operation) : Prop where
  nodup : (granted op).Nodup
  ne_zero : ∀ fd ∈ granted op, fd ≠ 0
  unheld : ∀ fd ∈ granted op, ∀ k, s.holds k ≠ some fd

/-- Only addresses that have been given out have to be looked at. -/
theorem holds_ne {s : World} {fd : SRTSOCKET} (h : ∀ k < s.next, s.holds k ≠ some fd) (k : ℕ) :
    s.holds k ≠ some fd := by
  rcases Nat.lt_or_ge k s.next with hk | hk
  · exact h k hk
  · simp [holds, s.unused k hk]

instance (s : World) (op : Operation) : Decidable (Fresh s op) :=
  have : Decidable (∀ fd ∈ granted op, fd ≠ 0) := List.decidableBAll (fun fd => fd ≠ 0) (granted op)
  have : Decidable (∀ fd ∈ granted op, ∀ k < s.next, s.holds k ≠ some fd) :=
    List.decidableBAll (fun fd => ∀ k < s.next, s.holds k ≠ some fd) (granted op)
  decidable_of_iff ((granted op).Nodup ∧ (∀ fd ∈ granted op, fd ≠ 0) ∧
      ∀ fd ∈ granted op, ∀ k < s.next, s.holds k ≠ some fd)
    ⟨fun h => ⟨h.1, h.2.1, fun fd hfd => holds_ne (h.2.2 fd hfd)⟩,
      fun h => ⟨h.nodup, h.ne_zero, fun fd hfd k _ => h.unheld fd hfd k⟩⟩

instance (s : World) : (op : Operation) → Decidable (KeepsOwned s op)
  | .socketAccept accepted created =>
    inferInstanceAs (Decidable (accepted = SRT_INVALID_SOCK ∨ created = SRT_INVALID_SOCK))
  | .collect k status =>
    match h : s.objects k with
    | some ⟨.connection, fd⟩ => decidable_of_iff (fd ∉ s.opened) (by simp only [KeepsOwned, h])
    | some ⟨.client, fd⟩ =>
      decidable_of_iff
        (fd ∈ s.opened → status = .connected ∨ status = .connecting ∨ status = .opened)
        (by simp only [KeepsOwned, h])
    | some ⟨.socket, fd⟩ => isTrue (by simp only [KeepsOwned, h])
    | some ⟨.server, fd⟩ => isTrue (by simp only [KeepsOwned, h])
    | none => isTrue (by simp only [KeepsOwned, h])
  | .socketNew _ | .clientNew _ | .serverNew _ | .serverAccept _ | .acceptorDone _ _ | .close _ =>
    isTrue trivial

/-! ### What the small changes do -/

variable {s : World} {k : ℕ} {fd : SRTSOCKET} {klass : Klass}

namespace World

@[simp] theorem opened_allocate : (s.allocate klass).opened = s.opened := rfl

@[simp] theorem opened_free : (s.free k).opened = s.opened := rfl

theorem holds_next : s.holds s.next = none := by
  rw [holds, s.unused s.next le_rfl, Option.map_none]

@[simp] theorem holds_allocate :
    (s.allocate klass).holds = Function.update s.holds s.next (some 0) :=
  Function.comp_update (Option.map Wrapper.socket) s.objects s.next (some ⟨klass, 0⟩)

@[simp] theorem holds_free : (s.free k).holds = Function.update s.holds k none :=
  Function.comp_update (Option.map Wrapper.socket) s.objects k none

/-- Storing changes what an object that is alive holds. -/
theorem holds_store {held : SRTSOCKET} (hk : s.holds k = some held) :
    (s.store k fd).holds = Function.update s.holds k (some fd) := by
  obtain ⟨x, hx, -⟩ := Option.map_eq_some_iff.mp hk
  have hstored : (s.objects k).map (fun x => { x with socket := fd })
      = some { x with socket := fd } := by rw [hx, Option.map_some]
  change Option.map Wrapper.socket ∘ Function.update s.objects k _ = _
  rw [hstored]
  exact Function.comp_update (Option.map Wrapper.socket) s.objects k _

/-- An object that has just been allocated gets its id. -/
theorem holds_store_allocate :
    ((s.allocate klass).store s.next fd).holds = Function.update s.holds s.next (some fd) := by
  have hzero : (s.allocate klass).holds s.next = some 0 := by simp
  rw [holds_store hzero, holds_allocate, Function.update_idem]

theorem opened_srtOpen_of_ne (hfd : fd ≠ SRT_INVALID_SOCK) :
    (s.srtOpen fd).opened = insert fd s.opened := if_neg hfd

theorem mem_opened_srtOpen {answer : SRTSOCKET} (hfd : fd ∈ (s.srtOpen answer).opened) :
    fd ∈ s.opened ∨ fd ∈ [answer].filter (· ≠ SRT_INVALID_SOCK) := by
  by_cases hanswer : answer = SRT_INVALID_SOCK
  · subst hanswer
    exact Or.inl hfd
  · rw [opened_srtOpen_of_ne hanswer, Finset.mem_insert] at hfd
    rcases hfd with rfl | hfd
    · exact Or.inr (by simp [hanswer])
    · exact Or.inl hfd

end World

/-! ### One operation -/

/-- What is true of every world a run without losses leads to. -/
structure Sound (s : World) : Prop where
  owned : s.Owned
  zero : 0 ∉ s.opened
  invalid : SRT_INVALID_SOCK ∉ s.opened

/-- **A new object** has the socket opened for it, if there is one. -/
theorem owned_wrapped {t : World} (h : Sound s)
    (hfresh : fd ≠ SRT_INVALID_SOCK → ∀ j, s.holds j ≠ some fd)
    (hopened : t.opened = (s.srtOpen fd).opened)
    (hholds : t.holds = Function.update s.holds s.next (some fd)) : t.Owned := by
  rw [Owned, hopened, hholds]
  by_cases hfd : fd = SRT_INVALID_SOCK
  · subst hfd
    exact (Custody.owned_hold_iff h.owned holds_next).mpr h.invalid
  · rw [opened_srtOpen_of_ne hfd]
    exact h.owned.grant holds_next (hfresh hfd)

theorem owned_createInto (h : Sound s) (hfresh : fd ≠ SRT_INVALID_SOCK → ∀ j, s.holds j ≠ some fd) :
    (createInto s.next fd (s.allocate klass)).Owned :=
  owned_wrapped h hfresh rfl holds_store_allocate

/-- However `SRT::Server.new` ends, the object has the socket, if one was created. -/
theorem serverNew_fst (a : ServerAnswers) :
    (serverNew a s).1 =
      if a.strings then createInto s.next a.created (s.allocate .server)
      else s.allocate .server := by
  unfold serverNew serverInitialize
  cases a.strings with
  | false => rfl
  | true =>
    simp only [Bool.true_eq_false, if_false, if_true]
    split_ifs <;> rfl

theorem owned_serverNew (a : ServerAnswers) (h : Sound s) (hfresh : Fresh s (.serverNew a)) :
    (serverNew a s).1.Owned := by
  rw [serverNew_fst]
  cases hstrings : a.strings with
  | false =>
    rw [if_neg Bool.false_ne_true, Owned, opened_allocate, holds_allocate]
    exact (Custody.owned_hold_iff h.owned holds_next).mpr h.zero
  | true =>
    rw [if_pos rfl]
    refine owned_createInto h fun hne => hfresh.unheld a.created ?_
    simp [granted, answers, hstrings, hne]

/-- `Socket#accept` loses the socket its result was made with. -/
theorem owned_socketAccept_iff {accepted created : SRTSOCKET} (h : Sound s)
    (hfresh : Fresh s (.socketAccept accepted created)) :
    (socketAccept accepted created s).Owned ↔
      accepted = SRT_INVALID_SOCK ∨ created = SRT_INVALID_SOCK := by
  by_cases haccepted : accepted = SRT_INVALID_SOCK
  · simpa [socketAccept, haccepted] using h.owned
  have hgranted : accepted ∈ granted (.socketAccept accepted created) := by
    simp [granted, answers, haccepted]
  have hholds : (socketAccept accepted created s).holds
      = Function.update s.holds s.next (some accepted) := by
    have hnew : (socketNew created (s.srtOpen accepted)).holds
        = Function.update s.holds s.next (some created) := holds_store_allocate
    have hself : (socketNew created (s.srtOpen accepted)).holds s.next = some created := by
      rw [hnew, Function.update_self]
    rw [socketAccept, if_neg haccepted, holds_store hself, hnew, Function.update_idem]
  have hopened : (socketAccept accepted created s).opened
      = ((s.srtOpen accepted).srtOpen created).opened := by
    rw [socketAccept, if_neg haccepted]
    rfl
  by_cases hcreated : created = SRT_INVALID_SOCK
  · subst hcreated
    exact iff_of_true (owned_wrapped h (fun _ => hfresh.unheld accepted hgranted) hopened hholds)
      (Or.inr rfl)
  · refine iff_of_false ?_ (not_or.mpr ⟨haccepted, hcreated⟩)
    rw [Owned, hopened, hholds, opened_srtOpen_of_ne hcreated]
    have hboth : granted (.socketAccept accepted created) = [accepted, created] := by
      simp [granted, answers, haccepted, hcreated]
    have hne : accepted ≠ created := by simpa [hboth] using hfresh.nodup
    have hunheld : ∀ j, s.holds j ≠ some created := hfresh.unheld created (by simp [hboth])
    refine Custody.not_owned_insert fun j => ?_
    by_cases hj : j = s.next
    · subst hj
      simpa using hne
    · rw [Function.update_of_ne hj]
      exact hunheld j

theorem owned_srtClose (h : s.Owned) : (s.srtClose fd).Owned := h.mono (Finset.erase_subset fd _)

theorem owned_close (h : s.Owned) : (close k s).Owned := by
  unfold close
  split
  · exact owned_srtClose h
  · exact h

theorem owned_acceptorDone (verdict : Verdict) (h : s.Owned) :
    (acceptorDone k verdict s).Owned := by
  unfold acceptorDone
  split
  · exact owned_srtClose h
  · exact h

/-- An object may go when its socket is closed. -/
theorem owned_free_iff {x : Wrapper} (hk : s.holds k = some x.socket) (h : s.Owned) :
    (s.free k).Owned ↔ x.socket ∉ s.opened := by
  rw [Owned, opened_free, holds_free, Custody.owned_drop_iff h]
  constructor
  · intro hclosed
    exact hclosed x.socket hk
  · intro hclosed a ha
    rw [hk] at ha
    exact Option.some.inj ha ▸ hclosed

theorem notMem_opened_srtClose : fd ∉ (s.srtClose fd).opened := Finset.notMem_erase fd s.opened

/-- The condition in `rbsrt_server_deallocate` is met in every state of the socket. -/
theorem serverDeallocate_eq (fd : SRTSOCKET) (status : SockStatus) (s : World) :
    serverDeallocate fd status s = s.srtClose fd := by
  refine if_pos ?_
  by_cases hstatus : status = .closed
  · exact Or.inr (by simp [hstatus])
  · exact Or.inl hstatus

/-- An object closes its socket when it goes, or does nothing. -/
theorem deallocate_eq (x : Wrapper) (status : SockStatus) (s : World) :
    deallocate x status s = s.srtClose x.socket ∨ deallocate x status s = s := by
  obtain ⟨klass, fd⟩ := x
  cases klass with
  | socket => exact Or.inl rfl
  | connection => exact Or.inr rfl
  | server => exact Or.inl (serverDeallocate_eq fd status s)
  | client => cases status <;> simp [deallocate, clientDeallocate]

/-- **The collector.** Only connections, and clients that are not on their way, take open sockets
with them. -/
theorem owned_collect_iff (status : SockStatus) (h : s.Owned) :
    (collect k status s).Owned ↔ KeepsOwned s (.collect k status) := by
  cases hx : s.objects k with
  | none => simpa [collect, KeepsOwned, hx] using h
  | some x =>
    have hk : s.holds k = some x.socket := by rw [holds, hx, Option.map_some]
    have hclosing : ((s.srtClose x.socket).free k).Owned :=
      (owned_free_iff (s := s.srtClose x.socket) hk (owned_srtClose h)).mpr notMem_opened_srtClose
    obtain ⟨klass, fd⟩ := x
    simp only [collect, KeepsOwned, hx]
    cases klass with
    | socket => simpa [deallocate, socketDeallocate] using hclosing
    | connection => simpa [deallocate, connectionDeallocate] using owned_free_iff hk h
    | server => simpa [deallocate, serverDeallocate_eq] using hclosing
    | client =>
      have hfree := owned_free_iff hk h
      cases status <;> simp [deallocate, clientDeallocate, hclosing, hfree]

/-- **Exactly these operations keep each open socket in one object.** -/
theorem owned_step_iff {op : Operation} (h : Sound s) (hfresh : Fresh s op) :
    (step s op).Owned ↔ KeepsOwned s op := by
  have hcreated : ∀ created, granted op = [created].filter (· ≠ SRT_INVALID_SOCK) →
      created ≠ SRT_INVALID_SOCK → ∀ j, s.holds j ≠ some created := by
    intro created hgranted hne
    exact hfresh.unheld created (by simp [hgranted, hne])
  cases op with
  | socketNew created =>
    exact iff_of_true (owned_createInto h (hcreated created rfl)) trivial
  | clientNew created =>
    exact iff_of_true (owned_createInto h (hcreated created rfl)) trivial
  | serverNew a => exact iff_of_true (owned_serverNew a h hfresh) trivial
  | socketAccept accepted created => exact owned_socketAccept_iff h hfresh
  | serverAccept remote =>
    exact iff_of_true (owned_wrapped h (hcreated remote rfl) rfl holds_store_allocate) trivial
  | acceptorDone k verdict => exact iff_of_true (owned_acceptorDone verdict h.owned) trivial
  | close k => exact iff_of_true (owned_close h.owned) trivial
  | collect k status => exact owned_collect_iff status h.owned

theorem mem_opened_deallocate {x : Wrapper} {status : SockStatus}
    (hfd : fd ∈ (deallocate x status s).opened) : fd ∈ s.opened := by
  rcases deallocate_eq x status s with hclose | hsame
  · rw [hclose] at hfd
    exact Finset.mem_of_mem_erase hfd
  · rwa [hsame] at hfd

/-- Nothing is opened but what libsrt says. -/
theorem mem_opened_step {op : Operation} (hfd : fd ∈ (step s op).opened) :
    fd ∈ s.opened ∨ fd ∈ granted op := by
  cases op with
  | socketNew created => exact mem_opened_srtOpen hfd
  | clientNew created => exact mem_opened_srtOpen hfd
  | serverNew a =>
    simp only [step, serverNew_fst] at hfd
    cases hstrings : a.strings with
    | false => exact Or.inl (by simpa [hstrings] using hfd)
    | true =>
      rw [hstrings, if_pos rfl] at hfd
      simpa [granted, answers, hstrings] using mem_opened_srtOpen hfd
  | socketAccept accepted created =>
    simp only [step, socketAccept] at hfd
    split at hfd
    · exact Or.inl hfd
    · next haccepted =>
      have hboth : granted (.socketAccept accepted created)
          = [accepted].filter (· ≠ SRT_INVALID_SOCK)
            ++ [created].filter (· ≠ SRT_INVALID_SOCK) := by
        rw [granted, answers, if_neg haccepted, ← List.filter_append, List.singleton_append]
      rw [hboth, List.mem_append]
      rcases mem_opened_srtOpen hfd with hfd | hfd
      · exact (mem_opened_srtOpen hfd).imp_right Or.inl
      · exact Or.inr (Or.inr hfd)
  | serverAccept remote => exact mem_opened_srtOpen hfd
  | acceptorDone k verdict =>
    simp only [step, acceptorDone] at hfd
    split at hfd
    · exact Or.inl (Finset.mem_of_mem_erase hfd)
    · exact Or.inl hfd
  | close k =>
    simp only [step, close] at hfd
    split at hfd
    · exact Or.inl (Finset.mem_of_mem_erase hfd)
    · exact Or.inl hfd
  | collect k status =>
    simp only [step, collect] at hfd
    split at hfd
    · exact Or.inl (mem_opened_deallocate hfd)
    · exact Or.inl hfd

theorem ne_invalid_of_mem_granted {op : Operation} (hfd : fd ∈ granted op) :
    fd ≠ SRT_INVALID_SOCK := by
  simpa using (List.mem_filter.mp hfd).2

theorem sound_step {op : Operation} (h : Sound s) (hfresh : Fresh s op) (hkeeps : KeepsOwned s op) :
    Sound (step s op) where
  owned := (owned_step_iff h hfresh).mpr hkeeps
  zero := by
    intro hzero
    rcases mem_opened_step hzero with hbefore | hgranted
    · exact h.zero hbefore
    · exact hfresh.ne_zero 0 hgranted rfl
  invalid := by
    intro hinvalid
    rcases mem_opened_step hinvalid with hbefore | hgranted
    · exact h.invalid hbefore
    · exact ne_invalid_of_mem_granted hgranted rfl

/-! ### Runs -/

theorem sound_start : Sound start where
  owned := by simp [Owned, Custody.Owned, start]
  zero := Finset.notMem_empty 0
  invalid := Finset.notMem_empty SRT_INVALID_SOCK

/-- Once all objects are collected there is nothing open, if each open socket is in an object. -/
theorem opened_eq_empty (h : s.Owned) (hcollected : s.Collected) : s.opened = ∅ :=
  Custody.Owned.eq_empty h fun k => by rw [holds, hcollected k, Option.map_none]

/-- **Runs without losses** are those in which `Socket#accept` is not given a second socket, and no
connection or idle client is collected while its socket is open. -/
theorem ownsSockets_iff (ops : List Operation) (hfresh : Runs.Along step Fresh start ops) :
    OwnsSockets ops ↔ Runs.Along step KeepsOwned start ops := by
  refine Runs.forall_mem_states_iff (fun s op h => sound_step h) ?_ sound_start hfresh
  intro s op h hfresh
  rw [← owned_step_iff h hfresh]
  constructor
  · exact And.left
  · intro howned
    exact ⟨howned, opened_eq_empty howned⟩

/-- A server turns one connection down and accepts another, which is closed before it is collected,
as the server is in the end. -/
theorem ownsSockets_closesAll :
    OwnsSockets [.serverNew ⟨true, 5, true, true, true⟩, .serverAccept 7, .acceptorDone 1 .falsy,
      .serverAccept 8, .acceptorDone 2 .truthy, .collect 1 .closed, .close 2, .collect 2 .closed,
      .collect 0 .listening] :=
  (ownsSockets_iff _ (by decide)).mpr (by decide)

/-- An open socket that is stored nowhere has been lost. -/
theorem not_ownsSockets_of_orphan {ops : List Operation} (fd : SRTSOCKET)
    (hopened : fd ∈ (Runs.exec step start ops).opened)
    (hunheld : ∀ k < (Runs.exec step start ops).next,
      (Runs.exec step start ops).holds k ≠ some fd) :
    ¬ OwnsSockets ops := by
  intro h
  rcases Runs.exec_mem_states step start ops with hstart | hstate
  · rw [hstart] at hopened
    exact Finset.notMem_empty fd hopened
  · obtain ⟨k, hk, -⟩ := (h _ hstate).1 fd hopened
    exact holds_ne hunheld k hk

/-- A client that is collected before it connects, a socket that is accepted, and a connection that
is collected because the acceptor block raised. -/
theorem not_ownsSockets_loses :
    ¬ OwnsSockets [.clientNew 5, .collect 0 .init] ∧
      ¬ OwnsSockets [.socketNew 5, .socketAccept 7 9] ∧
      ¬ OwnsSockets [.serverNew ⟨true, 5, true, true, true⟩, .serverAccept 7,
        .acceptorDone 1 .raised, .collect 1 .connected] := by
  refine ⟨not_ownsSockets_of_orphan 5 ?_ ?_, not_ownsSockets_of_orphan 9 ?_ ?_,
    not_ownsSockets_of_orphan 7 ?_ ?_⟩
  all_goals decide

end Ownership

end Rbsrt
