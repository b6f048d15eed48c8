import Rbsrt.Server.Loop

/-!
# One connection's session

What a connection object goes through, seen from the history of the server: it is new, then it
may be accepted and is registered under its socket, then it may be removed, and then its
`at_close` block may be called. Data is passed on only while it is registered.

`Session.observe` is an observer in the sense of `Runs.watch` that follows a history on behalf of
one connection and objects to everything that is not of this form. It keeps the messages read
from the connection's socket while it was registered, and those passed to its `at_data` block. A
history that it does not object to is one in which the callbacks of the connection come in the
right order; that the server's histories are such is proved in `Server.Callbacks`.

## Main results

* `calls_follow_accepted`, `close_is_last` — the order of the callbacks
* `passed_of_history`, `of_accepted` — what the observer keeps, in terms of the history
-/

namespace Rbsrt

/-! ### Reading a history -/

namespace Observation

/-- Connection `c` is accepted. -/
def IsAccepted (c : ℕ) (o : Observation) : Prop := ∃ conn, o = .accepted c conn

/-- Connection `c` is removed. -/
def IsRemoved (c : ℕ) (o : Observation) : Prop := o = .removed c

/-- An `at_data` block is registered on connection `c`. -/
def SetsAtData (c : ℕ) (o : Observation) : Prop := ∃ block, o = .setAtData c block

/-- The `at_data` block of connection `c` is called. -/
def CallsAtData (c : ℕ) (o : Observation) : Prop := ∃ block data, o = .callAtData c block data

/-- The `at_close` block of connection `c` is called. -/
def CallsAtClose (c : ℕ) (o : Observation) : Prop := ∃ block, o = .callAtClose c block

instance (c : ℕ) (o : Observation) : Decidable (IsAccepted c o) :=
  match o with
  | .accepted d conn => decidable_of_iff (d = c) (by simp [IsAccepted])
  | .callAcceptor _ _ | .rejected _ | .removed _ | .received _ _ | .setAtData _ _
  | .callAtData _ _ _ | .callAtClose _ _ => isFalse (by simp [IsAccepted])

instance (c : ℕ) (o : Observation) : Decidable (IsRemoved c o) :=
  inferInstanceAs (Decidable (o = .removed c))

instance (c : ℕ) (o : Observation) : Decidable (SetsAtData c o) :=
  match o with
  | .setAtData d block => decidable_of_iff (d = c) (by simp [SetsAtData])
  | .callAcceptor _ _ | .accepted _ _ | .rejected _ | .removed _ | .received _ _
  | .callAtData _ _ _ | .callAtClose _ _ => isFalse (by simp [SetsAtData])

/-- A message read from `fd`. -/
def messageOf (fd : SRTSOCKET) : Observation → Option Bytes
  | .received fd' data => if fd' = fd then some data else none
  | _ => none

/-- What is passed to the `at_data` block of `c`, with the block. -/
def chunkOf (c : ℕ) : Observation → Option (Proc × Bytes)
  | .callAtData c' block data => if c' = c then some (block, data) else none
  | _ => none

/-- It is about another connection, or not about a registered one. -/
def Foreign (c : ℕ) : Observation → Prop
  | .accepted c' _ | .removed c' | .setAtData c' _ | .callAtData c' _ _ | .callAtClose c' _ =>
    c' ≠ c
  | .callAcceptor _ _ | .rejected _ => True
  | .received _ _ => False

end Observation

open Observation

/-- The part of a history in which `c` is registered. -/
def registeredPart (c : ℕ) (t : List Observation) : List Observation :=
  (t.dropWhile fun o => ¬ IsAccepted c o).takeWhile fun o => ¬ IsRemoved c o

/-- The messages read from `fd` while `c` was registered. -/
def messages (c : ℕ) (fd : SRTSOCKET) (t : List Observation) : List Bytes :=
  (registeredPart c t).filterMap (messageOf fd)

/-- What was passed to `at_data` blocks of `c`. -/
def chunks (c : ℕ) (t : List Observation) : List (Proc × Bytes) := t.filterMap (chunkOf c)

theorem chunks_append (c : ℕ) (t u : List Observation) :
    chunks c (t ++ u) = chunks c t ++ chunks c u :=
  List.filterMap_append

theorem filterMap_cons_toList {α β : Type*} (f : α → Option β) (x : α) (t : List α) :
    (x :: t).filterMap f = (f x).toList ++ t.filterMap f := by
  cases h : f x <;> simp [h]

/-! ### The observer -/

/-- Where a connection is in its life. -/
inductive Phase
  | new
  | registered
  | removed
  | closed
deriving DecidableEq

/-- What an observer of one connection knows. `steady` is the `at_data` block the connection was
accepted with, unless another one was registered since. -/
structure Session where
  phase : Phase
  socket : SRTSOCKET
  steady : Option Proc
  inbox : List Bytes
  passed : List (Proc × Bytes)

namespace Session

/-- Before anything has happened. -/
def fresh : Session := ⟨.new, SRT_INVALID_SOCK, none, [], []⟩

/-- One observation, on behalf of connection `c`. -/
def observe (c : ℕ) (s : Session) : Observation → Option Session
  | .accepted c' conn =>
    if c' ≠ c then some s
    else if s.phase = .new then
      some { s with
        phase := .registered
        socket := conn.socket
        steady := conn.atDataBlock }
    else none
  | .callAcceptor _ _ | .rejected _ => some s
  | .removed c' =>
    if c' ≠ c then some s
    else if s.phase = .registered then some { s with phase := .removed } else none
  | .received fd data =>
    if s.phase = .registered ∧ fd = s.socket then some { s with inbox := s.inbox ++ [data] }
    else some s
  | .setAtData c' _ => if c' ≠ c then some s else some { s with steady := none }
  | .callAtData c' block data =>
    if c' ≠ c then some s
    else if s.phase = .registered then some { s with passed := s.passed ++ [(block, data)] }
    else none
  | .callAtClose c' _ =>
    if c' ≠ c then some s
    else if s.phase = .removed then some { s with phase := .closed } else none

/-- What an observer has made of a history. -/
def ofHistory (c : ℕ) (t : List Observation) : Option Session := Runs.watch (observe c) fresh t

variable {c : ℕ} {s s' : Session} {o : Observation} {t : List Observation}

/-- The observations that are not objected to, and what they change. -/
inductive Step (c : ℕ) (s : Session) : Observation → Session → Prop
  | foreign {o : Observation} (h : o.Foreign c) : Step c s o s
  | accepted {conn : Connection} (h : s.phase = .new) :
    Step c s (.accepted c conn)
      { s with
        phase := .registered
        socket := conn.socket
        steady := conn.atDataBlock }
  | removed (h : s.phase = .registered) : Step c s (.removed c) { s with phase := .removed }
  | received {data : Bytes} (h : s.phase = .registered) :
    Step c s (.received s.socket data) { s with inbox := s.inbox ++ [data] }
  | overheard {fd : SRTSOCKET} {data : Bytes} (h : s.phase = .registered → fd ≠ s.socket) :
    Step c s (.received fd data) s
  | setAtData {block : Proc} : Step c s (.setAtData c block) { s with steady := none }
  | callAtData {block : Proc} {data : Bytes} (h : s.phase = .registered) :
    Step c s (.callAtData c block data) { s with passed := s.passed ++ [(block, data)] }
  | callAtClose {block : Proc} (h : s.phase = .removed) :
    Step c s (.callAtClose c block) { s with phase := .closed }

/-- What is not objected to is a step. -/
theorem step_of_observe (h : observe c s o = some s') : Step c s o s' := by
  cases o with
  | accepted c' conn =>
    simp only [observe] at h
    split_ifs at h with hc hnew
    · exact Option.some.inj h ▸ .foreign hc
    · obtain rfl := Option.some.inj h
      obtain rfl := not_not.mp hc
      exact .accepted hnew
  | callAcceptor c' conn => exact Option.some.inj h ▸ .foreign trivial
  | rejected c' => exact Option.some.inj h ▸ .foreign trivial
  | removed c' =>
    simp only [observe] at h
    split_ifs at h with hc hreg
    · exact Option.some.inj h ▸ .foreign hc
    · obtain rfl := Option.some.inj h
      obtain rfl := not_not.mp hc
      exact .removed hreg
  | received fd data =>
    simp only [observe] at h
    split_ifs at h with hreg
    · obtain rfl := Option.some.inj h
      obtain ⟨hreg, rfl⟩ := hreg
      exact .received hreg
    · exact Option.some.inj h ▸ .overheard fun hr hfd => hreg ⟨hr, hfd⟩
  | setAtData c' block =>
    simp only [observe] at h
    split_ifs at h with hc
    · exact Option.some.inj h ▸ .foreign hc
    · obtain rfl := Option.some.inj h
      obtain rfl := not_not.mp hc
      exact .setAtData
  | callAtData c' block data =>
    simp only [observe] at h
    split_ifs at h with hc hreg
    · exact Option.some.inj h ▸ .foreign hc
    · obtain rfl := Option.some.inj h
      obtain rfl := not_not.mp hc
      exact .callAtData hreg
  | callAtClose c' block =>
    simp only [observe] at h
    split_ifs at h with hc hrem
    · exact Option.some.inj h ▸ .foreign hc
    · obtain rfl := Option.some.inj h
      obtain rfl := not_not.mp hc
      exact .callAtClose hrem

theorem observe_of_foreign (h : o.Foreign c) : observe c s o = some s := by
  cases o with
  | received fd data => exact h.elim
  | callAcceptor c' conn => rfl
  | rejected c' => rfl
  | accepted c' conn => exact if_pos h
  | removed c' => exact if_pos h
  | setAtData c' block => exact if_pos h
  | callAtData c' block data => exact if_pos h
  | callAtClose c' block => exact if_pos h

/-- A step is not objected to. -/
theorem Step.observed (h : Step c s o s') : observe c s o = some s' := by
  have hself : ¬ c ≠ c := not_not.mpr rfl
  cases h with
  | foreign hforeign => exact observe_of_foreign hforeign
  | accepted hnew => rw [observe, if_neg hself, if_pos hnew]
  | removed hreg => rw [observe, if_neg hself, if_pos hreg]
  | received hreg => rw [observe, if_pos ⟨hreg, rfl⟩]
  | overheard hne => rw [observe, if_neg fun hreg => hne hreg.1 hreg.2]
  | setAtData => rw [observe, if_neg hself]
  | callAtData hreg => rw [observe, if_neg hself, if_pos hreg]
  | callAtClose hrem => rw [observe, if_neg hself, if_pos hrem]

/-- A callback of the connection is none of another one. -/
theorem not_foreign (ho : CallsAtData c o ∨ CallsAtClose c o) : ¬ o.Foreign c := by
  rcases ho with ⟨_, _, rfl⟩ | ⟨_, rfl⟩ <;> simp [Foreign]

/-- A new connection stays new until it is accepted. -/
theorem Step.of_new (h : Step c s o s') (hs : s.phase = .new) :
    IsAccepted c o ∨ s'.phase = .new ∧ s'.inbox = s.inbox ∧ s'.passed = s.passed := by
  cases h with
  | accepted _ => exact Or.inl ⟨_, rfl⟩
  | foreign _ | overheard _ | setAtData => exact Or.inr ⟨hs, rfl, rfl⟩
  | removed hphase | received hphase | callAtData hphase | callAtClose hphase =>
    rw [hs] at hphase
    cases hphase

/-- An acceptance is not forgotten, and its block is known until another one is registered. -/
theorem Step.of_ne_new (h : Step c s o s') (hs : s.phase ≠ .new) :
    s'.phase ≠ .new ∧ (¬ SetsAtData c o → s'.steady = s.steady) := by
  cases h with
  | accepted hnew => exact absurd hnew hs
  | setAtData => exact ⟨hs, fun hset => absurd ⟨_, rfl⟩ hset⟩
  | foreign _ | overheard _ | received _ | callAtData _ => exact ⟨hs, fun _ => rfl⟩
  | removed _ | callAtClose _ => exact ⟨Phase.noConfusion, fun _ => rfl⟩

/-- The connection was registered at some time, and is not any more. -/
def Over (s : Session) : Prop := s.phase = .removed ∨ s.phase = .closed

theorem Over.phase_ne (h : s.Over) : s.phase ≠ .new ∧ s.phase ≠ .registered := by
  rcases h with h | h <;> rw [h] <;> exact ⟨Phase.noConfusion, Phase.noConfusion⟩

/-- What is over stays over. -/
theorem Step.of_over (h : Step c s o s') (hs : s.Over) : s'.Over ∧ s'.inbox = s.inbox := by
  cases h with
  | accepted hphase => exact absurd hphase hs.phase_ne.1
  | removed hphase | received hphase | callAtData hphase => exact absurd hphase hs.phase_ne.2
  | foreign _ | overheard _ | setAtData => exact ⟨hs, rfl⟩
  | callAtClose _ => exact ⟨Or.inr rfl, rfl⟩

/-- Nothing happens to a connection that is closed. -/
theorem Step.of_closed (h : Step c s o s') (hs : s.phase = .closed) :
    s'.phase = .closed ∧ ¬ CallsAtData c o ∧ ¬ CallsAtClose c o := by
  cases h with
  | foreign hforeign =>
    exact ⟨hs, fun hdata => not_foreign (Or.inl hdata) hforeign,
      fun hclose => not_foreign (Or.inr hclose) hforeign⟩
  | overheard _ | setAtData => exact ⟨hs, by simp [CallsAtData], by simp [CallsAtClose]⟩
  | accepted hphase | removed hphase | received hphase | callAtData hphase | callAtClose hphase =>
    rw [hs] at hphase
    cases hphase

/-- A connection that is registered was registered before, or is accepted. -/
theorem Step.registered_before (h : Step c s o s') (hs : s.phase ≠ .new)
    (hs' : s'.phase = .registered) : s.phase = .registered := by
  by_contra hreg
  have hover : s.Over := by
    rw [Over]
    cases hphase : s.phase <;> simp_all
  exact (h.of_over hover).1.phase_ne.2 hs'

/-- While a connection is registered, only its removal ends that, and its socket stays. -/
theorem Step.of_registered (h : Step c s o s') (hs : s.phase = .registered) :
    s'.socket = s.socket ∧ (IsRemoved c o ↔ s'.phase ≠ .registered) := by
  cases h with
  | accepted hphase | callAtClose hphase =>
    rw [hs] at hphase
    cases hphase
  | removed _ => exact ⟨rfl, iff_of_true rfl Phase.noConfusion⟩
  | foreign hforeign =>
    refine ⟨rfl, iff_of_false ?_ (not_not.mpr hs)⟩
    rintro rfl
    exact hforeign rfl
  | received _ | overheard _ | setAtData | callAtData _ =>
    exact ⟨rfl, iff_of_false (by simp [IsRemoved]) (not_not.mpr hs)⟩

theorem ofHistory_append {u : List Observation} (h : ofHistory c t = some s) :
    ofHistory c (t ++ u) = Runs.watch (observe c) s u := by
  rw [ofHistory, Runs.watch_append, show Runs.watch (observe c) fresh t = some s from h]
  rfl

/-! ### Order -/

theorem phase_ne_new (h : Step c s o s') (ho : CallsAtData c o ∨ CallsAtClose c o) :
    s.phase ≠ .new := by
  cases h with
  | foreign hforeign => exact absurd hforeign (not_foreign ho)
  | callAtData hreg => simp [hreg]
  | callAtClose hrem => simp [hrem]
  | _ => simp [CallsAtData, CallsAtClose] at ho

/-- **Callbacks follow the acceptance** of the connection. -/
theorem calls_follow_accepted (h : ofHistory c t = some s) :
    Runs.Precedes (IsAccepted c) (fun o => CallsAtData c o ∨ CallsAtClose c o) t := by
  refine Runs.precedes_of_watch (R := fun s => s.phase ≠ .new) (by simp [fresh]) ?_ ?_ h
  · intro s o s' hobs hacc hnew
    obtain ⟨hnew', -⟩ := ((step_of_observe hobs).of_new (not_not.mp hnew)).resolve_left hacc
    exact not_not.mpr hnew'
  · exact fun s o s' hobs => phase_ne_new (step_of_observe hobs)

/-- **Nothing follows the close**: neither data nor another close. -/
theorem close_is_last (h : ofHistory c t = some s) :
    Runs.NeverAfter (CallsAtClose c) (fun o => CallsAtData c o ∨ CallsAtClose c o) t := by
  refine Runs.neverAfter_of_watch (R := fun s => s.phase = .closed) ?_ ?_ ?_ h
  · rintro s o s' hobs ⟨block, rfl⟩
    cases step_of_observe hobs with
    | foreign hforeign => exact absurd hforeign (not_foreign (Or.inr ⟨block, rfl⟩))
    | callAtClose _ => rfl
  · exact fun s o s' hobs hclosed => ((step_of_observe hobs).of_closed hclosed).1
  · intro s o s' hobs hclosed
    obtain ⟨-, hdata, hclose⟩ := (step_of_observe hobs).of_closed hclosed
    exact not_or.mpr ⟨hdata, hclose⟩

/-! ### What is kept -/

theorem chunkOf_of_foreign (h : o.Foreign c) : chunkOf c o = none := by
  cases o <;> simp_all [Foreign, chunkOf]

/-- Everything passed on is kept. -/
theorem passed_of_watch (h : Runs.watch (observe c) s t = some s') :
    s'.passed = s.passed ++ chunks c t := by
  induction t generalizing s with
  | nil => simp [← Option.some.inj h, chunks]
  | cons o t ih =>
    obtain ⟨s₂, h₂, h₃⟩ := Runs.exists_of_watch_cons h
    rw [ih h₃, chunks, chunks, filterMap_cons_toList]
    cases step_of_observe h₂ with
    | foreign hforeign => simp [chunkOf_of_foreign hforeign]
    | _ => simp [chunkOf]

theorem Step.inbox (h : Step c s o s') :
    s'.inbox = s.inbox ++
      if s.phase = .registered then (messageOf s.socket o).toList else [] := by
  cases h with
  | @foreign o hforeign => cases o <;> simp_all [Foreign, messageOf]
  | overheard hne =>
    split
    · next hreg => simp [messageOf, hne hreg]
    · simp
  | _ => simp_all [messageOf]

/-- After it is removed, nothing more is kept. -/
theorem inbox_of_over (h : Runs.watch (observe c) s t = some s') (hs : s.Over) :
    s'.inbox = s.inbox := by
  refine (Runs.watch_induction (R := fun r => r.Over ∧ r.inbox = s.inbox) ?_ ⟨hs, rfl⟩ h).2
  rintro r o - r' hobs ⟨hr, hinbox⟩
  obtain ⟨hover, hsame⟩ := (step_of_observe hobs).of_over hr
  exact ⟨hover, hsame.trans hinbox⟩

/-- While a connection is registered, what is read from its socket is kept. -/
theorem inbox_of_registered (h : Runs.watch (observe c) s t = some s')
    (hs : s.phase = .registered) :
    s'.inbox = s.inbox ++
      (t.takeWhile fun o => ¬ IsRemoved c o).filterMap (messageOf s.socket) := by
  induction t generalizing s with
  | nil => simp [← Option.some.inj h]
  | cons o t ih =>
    obtain ⟨s₂, h₂, h₃⟩ := Runs.exists_of_watch_cons h
    have hstep := step_of_observe h₂
    by_cases hrem : IsRemoved c o
    · rw [List.takeWhile_cons_of_neg (by simpa using hrem), List.filterMap_nil, List.append_nil]
      obtain rfl : o = .removed c := hrem
      cases hstep with
      | foreign hforeign => simp [Foreign] at hforeign
      | removed _ =>
        have hkept := inbox_of_over h₃ (Or.inl rfl)
        exact hkept
    · obtain ⟨hsocket, hiff⟩ := hstep.of_registered hs
      have hs₂ : s₂.phase = .registered := not_not.mp (mt hiff.mpr hrem)
      rw [List.takeWhile_cons_of_pos (by simpa using hrem), filterMap_cons_toList, ih h₃ hs₂,
        hstep.inbox, if_pos hs, hsocket, List.append_assoc]

/-- A connection that is still new has not been accepted, and nothing was read or passed on. -/
theorem of_phase_eq_new (h : ofHistory c t = some s) (hs : s.phase = .new) :
    (∀ o ∈ t, ¬ IsAccepted c o) ∧ s.inbox = [] ∧ s.passed = [] := by
  constructor
  · intro o ho hacc
    obtain ⟨t₁, t₂, rfl⟩ := List.append_of_mem ho
    obtain ⟨s₁, s₂, -, h₂, h₃⟩ := Runs.watch_split h
    have hne : s₂.phase ≠ .new := by
      obtain ⟨conn, rfl⟩ := hacc
      cases step_of_observe h₂ with
      | foreign hforeign => simp [Foreign] at hforeign
      | accepted _ => exact Phase.noConfusion
    refine absurd hs (Runs.watch_induction (R := fun r => r.phase ≠ .new) ?_ hne h₃)
    exact fun r o _ r' hobs hr => ((step_of_observe hobs).of_ne_new hr).1
  · refine Runs.watch_induction (R := fun r => r.phase = .new → r.inbox = [] ∧ r.passed = [])
      ?_ (fun _ => ⟨rfl, rfl⟩) h hs
    intro r o _ r' hobs hr hnew'
    have hstep := step_of_observe hobs
    have hnew : r.phase = .new := by
      by_contra hne
      exact (hstep.of_ne_new hne).1 hnew'
    rcases hstep.of_new hnew with ⟨conn, rfl⟩ | ⟨-, hinbox, hpassed⟩
    · cases hstep with
      | foreign hforeign => simp [Foreign] at hforeign
      | accepted _ => cases hnew'
    · rw [hinbox, hpassed]
      exact hr hnew

/-- If no `at_data` block is registered, the one of the acceptance stays. -/
theorem steady_of_not_setsAtData (h : Runs.watch (observe c) s t = some s')
    (hs : s.phase ≠ .new) (ht : ∀ o ∈ t, ¬ SetsAtData c o) : s'.steady = s.steady := by
  refine (Runs.watch_induction (R := fun r => r.phase ≠ .new ∧ r.steady = s.steady)
    ?_ ⟨hs, rfl⟩ h).2
  rintro r o ho r' hobs ⟨hr, hsteady⟩
  obtain ⟨hne, hsame⟩ := (step_of_observe hobs).of_ne_new hr
  exact ⟨hne, (hsame (ht o ho)).trans hsteady⟩

/-- **What an observer knows of an accepted connection**: its messages, and the block it was
accepted with, if no other was registered after that. -/
theorem of_accepted (h : ofHistory c t = some s) {conn : Connection}
    (hacc : .accepted c conn ∈ t) :
    s.inbox = messages c conn.socket t ∧
      (Runs.NeverAfter (IsAccepted c) (SetsAtData c) t → s.steady = conn.atDataBlock) := by
  obtain ⟨t₁, t₂, rfl⟩ := List.append_of_mem hacc
  obtain ⟨s₁, s₂, h₁, h₂, h₃⟩ := Runs.watch_split h
  cases step_of_observe h₂ with
  | foreign hforeign => simp [Foreign] at hforeign
  | accepted hnew =>
    obtain ⟨hnone, hinbox, -⟩ := of_phase_eq_new h₁ hnew
    have hpart : registeredPart c (t₁ ++ .accepted c conn :: t₂) =
        .accepted c conn :: t₂.takeWhile fun o => ¬ IsRemoved c o := by
      rw [registeredPart, List.dropWhile_append_of_pos (by simpa using hnone),
        List.dropWhile_cons_of_neg (by simp [IsAccepted]),
        List.takeWhile_cons_of_pos (by simp [IsRemoved])]
    refine ⟨?_, fun hnever => ?_⟩
    · rw [messages, hpart, filterMap_cons_toList, inbox_of_registered h₃ rfl]
      simp [hinbox, messageOf]
    · exact steady_of_not_setsAtData h₃ (by simp) (hnever.of_append ⟨conn, rfl⟩)

/-- A connection that is registered at the end, and was not new, was registered all along. -/
theorem registered_of_phase_ne_new (h : Runs.watch (observe c) s t = some s') (hs : s.phase ≠ .new)
    (hs' : s'.phase = .registered) :
    s.phase = .registered ∧ s'.socket = s.socket ∧
      s'.inbox = s.inbox ++ t.filterMap (messageOf s.socket) := by
  induction t generalizing s with
  | nil =>
    obtain rfl := Option.some.inj h
    exact ⟨hs', rfl, by simp⟩
  | cons o t ih =>
    obtain ⟨s₂, h₂, h₃⟩ := Runs.exists_of_watch_cons h
    have hstep := step_of_observe h₂
    obtain ⟨hreg₂, hsocket, hinbox⟩ := ih h₃ (hstep.of_ne_new hs).1
    have hreg : s.phase = .registered := hstep.registered_before hs hreg₂
    rw [(hstep.of_registered hreg).1] at hsocket hinbox
    rw [hinbox, hstep.inbox, if_pos hreg, filterMap_cons_toList, List.append_assoc]
    exact ⟨hreg, hsocket, rfl⟩

/-- A connection that is registered at the end was registered all along, or is accepted. -/
theorem registered_of_watch {t₀ : List Observation} (h₀ : ofHistory c t₀ = some s)
    (h : Runs.watch (observe c) s t = some s') (hs' : s'.phase = .registered) :
    (s.phase = .registered ∧ s'.socket = s.socket ∧
      s'.inbox = s.inbox ++ t.filterMap (messageOf s.socket)) ∨
    ∃ t₁ conn t₂, t = t₁ ++ .accepted c conn :: t₂ ∧ s'.socket = conn.socket ∧
      s'.inbox = t₂.filterMap (messageOf conn.socket) ∧ s'.passed = chunks c t₂ := by
  by_cases hacc : ∃ conn, .accepted c conn ∈ t
  · right
    obtain ⟨conn, hconn⟩ := hacc
    obtain ⟨t₁, t₂, rfl⟩ := List.append_of_mem hconn
    obtain ⟨s₁, s₂, h₁, h₂, h₃⟩ := Runs.watch_split h
    cases step_of_observe h₂ with
    | foreign hforeign => simp [Foreign] at hforeign
    | accepted hnew =>
      have hhist : ofHistory c (t₀ ++ t₁) = some s₁ := (ofHistory_append h₀).trans h₁
      obtain ⟨-, hinbox, hpassed⟩ := of_phase_eq_new hhist hnew
      obtain ⟨-, hsocket, hinbox'⟩ := registered_of_phase_ne_new h₃ (by simp) hs'
      have hpassed' := passed_of_watch h₃
      exact ⟨t₁, conn, t₂, rfl, hsocket, by simpa [hinbox] using hinbox',
        by simpa [hpassed] using hpassed'⟩
  · left
    refine registered_of_phase_ne_new h (fun hnew => ?_) hs'
    have hkeep : s'.phase = .new := by
      refine Runs.watch_induction (R := fun r => r.phase = .new) ?_ hnew h
      intro r o ho r' hobs hr
      refine (((step_of_observe hobs).of_new hr).resolve_left ?_).1
      rintro ⟨conn, rfl⟩
      exact hacc ⟨conn, ho⟩
    rw [hkeep] at hs'
    cases hs'

/-- What is read for an accepted connection is the beginning of what is read from its socket after
that, and all of it while the connection is registered. -/
theorem inbox_of_accepted {t₁ t₂ : List Observation} {conn : Connection}
    (h : ofHistory c (t₁ ++ .accepted c conn :: t₂) = some s) :
    s.inbox <+: t₂.filterMap (messageOf conn.socket) ∧
      (s.phase = .registered → s.inbox = t₂.filterMap (messageOf conn.socket)) := by
  obtain ⟨s₁, s₂, h₁, h₂, h₃⟩ := Runs.watch_split h
  cases step_of_observe h₂ with
  | foreign hforeign => simp [Foreign] at hforeign
  | accepted hnew =>
    have hempty : s₁.inbox = [] := (of_phase_eq_new h₁ hnew).2.1
    constructor
    · rw [inbox_of_registered h₃ rfl, hempty, List.nil_append]
      exact (List.takeWhile_prefix _).filterMap _
    · intro hreg
      rw [(registered_of_phase_ne_new h₃ (by simp) hreg).2.2, hempty, List.nil_append]

theorem passed_of_history (h : ofHistory c t = some s) : s.passed = chunks c t := by
  rw [passed_of_watch h, fresh, List.nil_append]

end Session

end Rbsrt
