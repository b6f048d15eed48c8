import Rbsrt.Server.Loop
import Rbsrt.Socket.Transmission

/-!
# A stream of Strings

One side sends Strings with `sendmsg`, the other receives with `recvmsg` or in the server's loop.
In between is a channel that keeps messages in order and loses none. The sender cuts Strings into
packets and the channel may accept only the beginning of a packet; the receivers read one message at
a time into buffers of two different sizes. Passes of the sender's loop and receives are
interleaved in any order.

The two receivers are the ones of the models: `recvmsg` below and `Server.taken`. Both buffers hold
any packet, so it does not matter which of them receives.

## Main results

* `Inv.step` — one move
* `exec_sendLoop` — the moves are the ones `sendLoop` makes
* `stream_integrity` — what is received is what was sent, at every moment
-/

namespace Rbsrt

/-! ### `SRT::Socket#recvmsg` -/

/-- `rbsrt_socket_recvmsg(self)`; no data is `nil`. -/
def recvmsg (state : SockStatus) (recvmsg2 : ℕ → Option Bytes) : Except String (Option Bytes) :=
  if state = .nonexist then .error "TypeError"
  else
    match recvmsg2 (payloadSize * 2) with
    | none => .error "SRT::Error"
    | some [] => .ok none
    | some (byte :: bytes) => .ok (some (byte :: bytes))

namespace Stream

/-! ### The system -/

/-- The two ways to receive. -/
inductive Receiver
  | recvmsg
  | server

/-- What a receiver gets hold of in one read. -/
def Receiver.read (r : Receiver) (recvmsg2 : ℕ → Option Bytes) : List Bytes :=
  match r with
  | .recvmsg =>
    match Rbsrt.recvmsg .connected recvmsg2 with
    | .ok (some data) => [data]
    | _ => []
  | .server =>
    Server.taken ⟨1, ⟨true, false, false, false⟩⟩
      ⟨.connected, SRT_INVALID_SOCK, false, recvmsg2, ⟨[], some true⟩⟩

/-- A call of `sendmsg` that has not returned: its argument, `total_nbytes`, and the messages it has
put into the channel. -/
structure Sending where
  message : Bytes
  total : ℤ
  pieces : List Bytes

/-- The two sides and the channel. `finished` remembers, for each call of `sendmsg` that has
returned, its argument and the messages it has put into the channel. -/
structure State where
  pending : List Bytes
  sending : Option Sending
  channel : List Bytes
  received : List Bytes
  finished : List (Bytes × List Bytes)

/-- What can happen next: `sendmsg` is called with the next String, its loop makes a pass in which
`srt_sendmsg2` returns `nbytes`, or a message is received. -/
inductive Move
  | call
  | packet (nbytes : ℤ)
  | receive (receiver : Receiver)

/-- One move. -/
def step (s : State) : Move → State
  | .call =>
    match s.sending, s.pending with
    | none, message :: rest => { s with pending := rest, sending := some ⟨message, 0, []⟩ }
    | _, _ => s
  | .packet nbytes =>
    match s.sending with
    | none => s
    | some c =>
      let data := (c.message.drop c.total.toNat).take nbytes.toNat
      match turn (bufLen c.message.length) c.total nbytes with
      | .again total =>
        { s with
          channel := s.channel ++ [data]
          sending := some { c with total, pieces := c.pieces ++ [data] } }
      | .returned _ =>
        { s with
          channel := s.channel ++ [data]
          sending := none
          finished := s.finished ++ [(c.message, c.pieces ++ [data])] }
      | .raised => { s with sending := none }
  | .receive r =>
    { s with
      received := s.received ++ r.read fun cap => s.channel.head?.map (·.take cap)
      channel := s.channel.tail }

/-- Nothing is sent yet. -/
def init (strings : List Bytes) : State := ⟨strings, none, [], [], []⟩

/-- What is assumed of `srt_sendmsg2`: it accepts at least one byte, and no more than asked for. -/
def Accepts (s : State) : Move → Prop
  | .packet nbytes => ∀ c, s.sending = some c →
    1 ≤ nbytes ∧ nbytes ≤ packetSize (bufLen c.message.length) c.total
  | _ => True

instance (s : State) : ∀ move : Move, Decidable (Accepts s move)
  | .call | .receive _ => isTrue trivial
  | .packet nbytes =>
    match h : s.sending with
    | none => isTrue fun c hc => by simp [h] at hc
    | some c => decidable_of_iff
      (1 ≤ nbytes ∧ nbytes ≤ packetSize (bufLen c.message.length) c.total) (by simp [Accepts, h])

/-- All calls of `sendmsg` so far, with what they have put into the channel. -/
def State.calls (s : State) : List (Bytes × List Bytes) :=
  s.finished ++ (s.sending.map fun c => (c.message, c.pieces)).toList

/-! ### The invariant -/

/-- What is known of a run over `strings`. -/
structure Inv (strings : List Bytes) (s : State) : Prop where
  order : s.calls.map Prod.fst ++ s.pending = strings
  fifo : s.received ++ s.channel = (s.calls.map Prod.snd).flatten
  fits : ∀ c ∈ s.calls, ∀ data ∈ c.2, data ≠ [] ∧ data.length ≤ payloadSize
  finished : ∀ c ∈ s.finished, c.2.flatten = c.1
  sending : ∀ c, s.sending = some c → 0 ≤ c.total ∧ c.total < c.message.length ∧
    c.pieces.flatten = c.message.take c.total.toNat

theorem inv_init (strings : List Bytes) : Inv strings (init strings) where
  order := rfl
  fifo := rfl
  fits := fun _ h => absurd h List.not_mem_nil
  finished := fun _ h => absurd h List.not_mem_nil
  sending := fun _ h => by simp [init] at h

variable {strings : List Bytes} {s : State}

theorem calls_of_idle (h : s.sending = none) : s.calls = s.finished := by
  simp [State.calls, h]

theorem calls_of_sending {c : Sending} (h : s.sending = some c) :
    s.calls = s.finished ++ [(c.message, c.pieces)] := by
  simp [State.calls, h]

/-! ### Receives -/

/-- A message that is not empty and no longer than a packet fits into both buffers. -/
theorem Receiver.read_eq (r : Receiver) {data : Bytes} (hne : data ≠ [])
    (hlen : data.length ≤ payloadSize) : r.read (fun cap => some (data.take cap)) = [data] := by
  obtain ⟨byte, bytes, rfl⟩ := List.exists_cons_of_ne_nil hne
  rw [payloadSize] at hlen
  cases r with
  | recvmsg =>
    have htake : (byte :: bytes).take (payloadSize * 2) = byte :: bytes :=
      List.take_of_length_le (by rw [payloadSize]; omega)
    simp [Receiver.read, Rbsrt.recvmsg, htake]
  | server =>
    have htake : (byte :: bytes).take readBufSize = byte :: bytes :=
      List.take_of_length_le (by rw [readBufSize, payloadSize]; omega)
    simp [Receiver.read, Server.taken, htake]

/-- A message in the channel is one of the pieces of a call. -/
theorem Inv.fits_channel (h : Inv strings s) {data : Bytes} (hdata : data ∈ s.channel) :
    data ≠ [] ∧ data.length ≤ payloadSize := by
  have hmem : data ∈ (s.calls.map Prod.snd).flatten :=
    h.fifo ▸ List.mem_append_right s.received hdata
  obtain ⟨pieces, hpieces, hdata⟩ := List.mem_flatten.mp hmem
  obtain ⟨c, hc, rfl⟩ := List.mem_map.mp hpieces
  exact h.fits c hc data hdata

/-- A receive takes the first message, whole. -/
theorem Inv.step_receive (h : Inv strings s) (r : Receiver) :
    (step s (.receive r)).received ++ (step s (.receive r)).channel = s.received ++ s.channel := by
  show (s.received ++ r.read fun cap => s.channel.head?.map (·.take cap)) ++ s.channel.tail = _
  cases hch : s.channel with
  | nil => cases r <;> simp [Receiver.read, Rbsrt.recvmsg, Server.taken]
  | cons data rest =>
    have hdata : data ∈ s.channel := hch ▸ List.mem_cons_self
    obtain ⟨hne, hlen⟩ := h.fits_channel hdata
    have hread : r.read (fun cap => some (data.take cap)) = [data] := r.read_eq hne hlen
    show (s.received ++ r.read fun cap => some (data.take cap)) ++ rest = _
    rw [hread, List.append_assoc, List.singleton_append]

theorem Inv.receive (h : Inv strings s) (r : Receiver) : Inv strings (step s (.receive r)) where
  order := h.order
  fifo := (h.step_receive r).trans h.fifo
  fits := h.fits
  finished := h.finished
  sending := h.sending

/-! ### Sends -/

/-- The strings that can be sent. -/
def Sendable (strings : List Bytes) : Prop := ∀ m ∈ strings, m ≠ [] ∧ m.length < 2 ^ 31

theorem Inv.call (h : Inv strings s) (hstrings : Sendable strings) :
    Inv strings (step s .call) := by
  rw [step]
  split
  · next message rest hsending hpending =>
    have hcalls := calls_of_idle hsending
    have hmem : message ∈ strings := by
      rw [← h.order, hpending]
      simp
    obtain ⟨hne, -⟩ := hstrings message hmem
    have hlen : 0 < message.length := List.length_pos_of_ne_nil hne
    refine ⟨?_, ?_, ?_, h.finished, ?_⟩
    · rw [calls_of_sending rfl, ← h.order, hcalls, hpending]
      simp
    · rw [calls_of_sending rfl, h.fifo, hcalls]
      simp
    · intro c hc
      rw [calls_of_sending rfl, ← hcalls] at hc
      rcases List.mem_append.mp hc with hc | hc
      · exact h.fits c hc
      · obtain rfl := List.mem_singleton.mp hc
        simp
    · intro c hc
      obtain rfl := Option.some.inj hc
      exact ⟨le_refl 0, by simpa using hlen, rfl⟩
  · exact h

/-- What a pass puts into the channel. -/
def Sending.data (c : Sending) (nbytes : ℤ) : Bytes :=
  (c.message.drop c.total.toNat).take nbytes.toNat

/-- A pass that goes on. -/
theorem step_again {c : Sending} {nbytes total : ℤ} (hsending : s.sending = some c)
    (hturn : turn (bufLen c.message.length) c.total nbytes = .again total) :
    step s (.packet nbytes) =
      { s with
        channel := s.channel ++ [c.data nbytes]
        sending := some ⟨c.message, total, c.pieces ++ [c.data nbytes]⟩ } := by
  simp only [step, hsending, hturn]
  rfl

/-- A pass that is the last. -/
theorem step_returned {c : Sending} {nbytes total : ℤ} (hsending : s.sending = some c)
    (hturn : turn (bufLen c.message.length) c.total nbytes = .returned total) :
    step s (.packet nbytes) =
      { s with
        channel := s.channel ++ [c.data nbytes]
        sending := none
        finished := s.finished ++ [(c.message, c.pieces ++ [c.data nbytes])] } := by
  simp only [step, hsending, hturn]
  rfl

/-- One more piece. -/
theorem Sending.flatten_concat (c : Sending) {nbytes : ℤ} (htotal : 0 ≤ c.total)
    (hnbytes : 0 ≤ nbytes) (h : c.pieces.flatten = c.message.take c.total.toNat) :
    (c.pieces ++ [c.data nbytes]).flatten = c.message.take (c.total + nbytes).toNat := by
  rw [List.flatten_append, h, List.flatten_singleton, Sending.data, Int.toNat_add htotal hnbytes,
    List.take_add]

/-- What the channel gets is not empty and no longer than a packet. -/
theorem Sending.data_fits (c : Sending) {nbytes : ℤ} (hlen : c.message.length < 2 ^ 31)
    (htotal : 0 ≤ c.total) (hone : 1 ≤ nbytes)
    (hle : nbytes ≤ packetSize (bufLen c.message.length) c.total) :
    c.data nbytes ≠ [] ∧ (c.data nbytes).length ≤ payloadSize := by
  have hsize := packetSize_le (bufLen c.message.length) c.total
  have hsub := packetSize_le_sub (bufLen c.message.length) c.total
  rw [bufLen_of_lt hlen] at hsize hsub hle
  have hlength : (c.data nbytes).length = nbytes.toNat := by
    rw [Sending.data, List.length_take, List.length_drop]
    omega
  refine ⟨fun hnil => ?_, by omega⟩
  rw [hnil, List.length_nil] at hlength
  omega

/-- One more piece of the String that is being sent, whether its call goes on or returns. -/
theorem Inv.concat (h : Inv strings s) {c : Sending} (hsending : s.sending = some c) {data : Bytes}
    (hdata : data ≠ [] ∧ data.length ≤ payloadSize) :
    (s.finished ++ [(c.message, c.pieces ++ [data])]).map Prod.fst ++ s.pending = strings ∧
      s.received ++ (s.channel ++ [data]) =
        ((s.finished ++ [(c.message, c.pieces ++ [data])]).map Prod.snd).flatten ∧
      ∀ d ∈ s.finished ++ [(c.message, c.pieces ++ [data])], ∀ piece ∈ d.2,
        piece ≠ [] ∧ piece.length ≤ payloadSize := by
  have hcalls := calls_of_sending hsending
  refine ⟨?_, ?_, ?_⟩
  · rw [← h.order, hcalls]
    simp
  · rw [← List.append_assoc, h.fifo, hcalls]
    simp
  · intro d hd piece hpiece
    rcases List.mem_append.mp hd with hd | hd
    · exact h.fits d (hcalls ▸ List.mem_append_left _ hd) piece hpiece
    · obtain rfl := List.mem_singleton.mp hd
      rcases List.mem_append.mp hpiece with hpiece | hpiece
      · exact h.fits (c.message, c.pieces) (by simp [hcalls]) piece hpiece
      · exact List.mem_singleton.mp hpiece ▸ hdata

/-- **One pass of the sender's loop.** -/
theorem Inv.packet (h : Inv strings s) (hstrings : Sendable strings) {nbytes : ℤ}
    (haccepts : Accepts s (.packet nbytes)) : Inv strings (step s (.packet nbytes)) := by
  cases hsending : s.sending with
  | none => simpa only [step, hsending] using h
  | some c =>
    have hmem : c.message ∈ strings := by
      rw [← h.order, calls_of_sending hsending]
      simp
    obtain ⟨-, hlen⟩ := hstrings c.message hmem
    obtain ⟨hone, hle⟩ := haccepts c hsending
    obtain ⟨htotal, hlt, hpieces⟩ := h.sending c hsending
    have hdata := c.data_fits hlen htotal hone hle
    have hflatten := c.flatten_concat htotal (show 0 ≤ nbytes by omega) hpieces
    obtain ⟨horder, hfifo, hfits⟩ := h.concat hsending hdata
    cases hturn : turn (bufLen c.message.length) c.total nbytes with
    | again total =>
      obtain ⟨-, rfl, hagain⟩ := turn_eq_again_iff.mp hturn
      rw [bufLen_of_lt hlen] at hagain
      rw [step_again hsending hturn]
      refine ⟨?_, ?_, ?_, h.finished, ?_⟩
      · rw [calls_of_sending rfl]
        exact horder
      · rw [calls_of_sending rfl]
        exact hfifo
      · rw [calls_of_sending rfl]
        exact hfits
      · intro d hd
        obtain rfl := Option.some.inj hd
        exact ⟨show 0 ≤ c.total + nbytes by omega, hagain, hflatten⟩
    | returned total =>
      obtain ⟨-, rfl, hall⟩ := turn_eq_returned_iff.mp hturn
      rw [bufLen_of_lt hlen] at hall
      rw [step_returned hsending hturn]
      refine ⟨?_, ?_, ?_, ?_, fun d hd => by simp at hd⟩
      · rw [calls_of_idle rfl]
        exact horder
      · rw [calls_of_idle rfl]
        exact hfifo
      · rw [calls_of_idle rfl]
        exact hfits
      · intro d hd
        rcases List.mem_append.mp hd with hd | hd
        · exact h.finished d hd
        · obtain rfl := List.mem_singleton.mp hd
          exact hflatten.trans (List.take_of_length_le (by omega))
    | raised =>
      rw [turn, if_neg (by omega)] at hturn
      split at hturn <;> simp at hturn

/-- **The invariant is kept by every move.** -/
theorem Inv.step (h : Inv strings s) (hstrings : Sendable strings) {move : Move}
    (haccepts : Accepts s move) : Inv strings (step s move) := by
  cases move with
  | call => exact h.call hstrings
  | packet nbytes => exact h.packet hstrings haccepts
  | receive r => exact h.receive r

/-! ### The loop of `sendmsg`, as moves -/

/-- **A loop of `sendmsg` is a sequence of passes**: what `sendLoop` does in one go is what the
moves do one by one. -/
theorem exec_sendLoop (srt : Sendmsg2) (fuel k : ℕ) {c : Sending} {n : ℤ} {calls : List Call}
    (hlen : c.message.length < 2 ^ 31) (hlt : c.total < c.message.length)
    (hsending : s.sending = some c)
    (hrun : sendLoop srt (bufLen c.message.length) fuel k c.total = (calls, .returned n)) :
    Runs.Along step Accepts s (calls.map fun call => .packet call.accepted) ∧
      ∃ pieces, Runs.exec step s (calls.map fun call => .packet call.accepted) =
        { s with
          channel := s.channel ++ pieces
          sending := none
          finished := s.finished ++ [(c.message, c.pieces ++ pieces)] } := by
  induction fuel generalizing k s c calls with
  | zero => simp [sendLoop] at hrun
  | succ fuel ih =>
    rw [sendLoop] at hrun
    generalize hnbytes :
      srt.result k (packetSize (bufLen c.message.length) c.total) = nbytes at hrun
    have haccepts : nbytes ≠ -1 → Accepts s (.packet nbytes) := by
      intro hok d hd
      obtain rfl := Option.some.inj (hsending.symm.trans hd)
      have hpos : 1 ≤ packetSize (bufLen c.message.length) c.total :=
        one_le_packetSize (by rw [bufLen_of_lt hlen]; exact hlt)
      subst hnbytes
      exact (srt.result_of_pos k _ (by omega)).resolve_left hok
    simp only at hrun
    split at hrun
    · simp at hrun
    · next total hturn =>
      obtain ⟨hok, -, -⟩ := turn_eq_returned_iff.mp hturn
      simp only [Prod.mk.injEq] at hrun
      obtain ⟨rfl, -⟩ := hrun
      exact ⟨⟨haccepts hok, trivial⟩, [c.data nbytes], step_returned hsending hturn⟩
    · next total hturn =>
      obtain ⟨hok, -, hagain⟩ := turn_eq_again_iff.mp hturn
      rw [bufLen_of_lt hlen] at hagain
      simp only [Prod.mk.injEq] at hrun
      obtain ⟨rfl, hrest⟩ := hrun
      have hstep := step_again hsending hturn
      obtain ⟨halong, pieces, hexec⟩ := ih (k + 1) (s := step s (.packet nbytes))
        (c := ⟨c.message, total, c.pieces ++ [c.data nbytes]⟩) hlen hagain (by rw [hstep])
        (Prod.ext rfl hrest)
      refine ⟨⟨haccepts hok, halong⟩, c.data nbytes :: pieces, hexec.trans ?_⟩
      rw [hstep]
      simp

/-! ### Integrity -/

/-- Nothing is lost, reordered, cut or merged: the calls are those of the first of the strings, what
is received or on its way is what they have handed over, and a string that was accepted whole is a
single piece of it. -/
structure Intact (strings : List Bytes) (s : State) : Prop where
  calls : s.calls.map Prod.fst ++ s.pending = strings
  uncut : s.received ++ s.channel = (s.calls.map Prod.snd).flatten
  begun : s.received.flatten <+: (s.calls.map Prod.fst).flatten
  upTo : s.received.flatten <+: strings.flatten
  all : s.pending = [] → s.sending = none → s.channel = [] →
    s.received.flatten = strings.flatten
  whole : ∀ c ∈ s.calls, c.1 ∈ c.2 → c.2 = [c.1]

theorem Inv.flatten_finished (h : Inv strings s) : (s.finished.map Prod.snd).flatten.flatten =
    (s.finished.map Prod.fst).flatten := by
  rw [List.flatten_flatten, List.map_map]
  congr 1
  exact List.map_congr_left h.finished

/-- What has been handed over is all of the calls that have returned, and the beginning of the one
that has not. -/
theorem Inv.sent (h : Inv strings s) : (s.calls.map Prod.snd).flatten.flatten <+:
    (s.calls.map Prod.fst).flatten := by
  cases hsending : s.sending with
  | none =>
    have hall := h.flatten_finished
    rw [← calls_of_idle hsending] at hall
    exact ⟨[], (List.append_nil _).trans hall⟩
  | some c =>
    obtain ⟨-, -, hpieces⟩ := h.sending c hsending
    have htake : c.pieces.flatten <+: c.message := hpieces ▸ List.take_prefix _ _
    rw [calls_of_sending hsending]
    simpa [h.flatten_finished] using htake

/-- **Of a call one of whose pieces is the string, it is the only one.** -/
theorem Inv.whole (h : Inv strings s) {c : Bytes × List Bytes} (hc : c ∈ s.calls)
    (hmem : c.1 ∈ c.2) : c.2 = [c.1] := by
  have hlength : c.2.flatten.length ≤ c.1.length := by
    cases hsending : s.sending with
    | none =>
      rw [calls_of_idle hsending] at hc
      rw [h.finished c hc]
    | some d =>
      rw [calls_of_sending hsending] at hc
      rcases List.mem_append.mp hc with hc | hc
      · rw [h.finished c hc]
      · obtain rfl := List.mem_singleton.mp hc
        obtain ⟨-, -, hpieces⟩ := h.sending d hsending
        rw [hpieces]
        exact List.length_take_le' _ _
  obtain ⟨before, after, hsplit⟩ := List.append_of_mem hmem
  have hfits := h.fits c hc
  rw [hsplit] at hlength hfits ⊢
  have hnil : ∀ pieces : List Bytes, (∀ data ∈ pieces, data ≠ []) → pieces.flatten.length = 0 →
      pieces = [] := by
    intro pieces hne hzero
    cases pieces with
    | nil => rfl
    | cons data rest =>
      have hpos : 0 < data.length := List.length_pos_of_ne_nil (hne data List.mem_cons_self)
      rw [List.flatten_cons, List.length_append] at hzero
      omega
  rw [List.flatten_append, List.flatten_cons, List.length_append, List.length_append] at hlength
  have hbefore : before = [] := hnil before
    (fun data hdata => (hfits data (List.mem_append_left _ hdata)).1) (by omega)
  have hafter : after = [] := hnil after
    (fun data hdata => (hfits data (by simp [hdata])).1) (by omega)
  rw [hbefore, hafter, List.nil_append]

/-- What was received is the beginning of what was handed over. -/
theorem Inv.received_begun (h : Inv strings s) :
    s.received.flatten <+: (s.calls.map Prod.fst).flatten := by
  refine List.IsPrefix.trans ?_ h.sent
  rw [← h.fifo, List.flatten_append]
  exact List.prefix_append _ _

theorem Inv.intact (h : Inv strings s) : Intact strings s where
  calls := h.order
  uncut := h.fifo
  begun := h.received_begun
  upTo := by
    rw [← h.order, List.flatten_append]
    exact h.received_begun.trans (List.prefix_append _ _)
  all := by
    intro hpending hsending hchannel
    have hreceived : s.received = (s.finished.map Prod.snd).flatten := by
      rw [← calls_of_idle hsending, ← h.fifo, hchannel, List.append_nil]
    rw [hreceived, h.flatten_finished, ← h.order, calls_of_idle hsending, hpending,
      List.append_nil]
  whole := fun _ => h.whole

/-- **The integrity of a stream.** Whatever strings are sent, however the transport splits them, and
whoever receives when. -/
theorem stream_integrity (hstrings : Sendable strings) {moves : List Move}
    (haccepts : Runs.Along step Accepts (init strings) moves) :
    ∀ s ∈ init strings :: Runs.states step (init strings) moves, Intact strings s := by
  have hstep : ∀ s move, Inv strings s → Accepts s move → Inv strings (step s move) :=
    fun _ _ h => h.step hstrings
  have hstates := Runs.forall_mem_states hstep (inv_init strings) haccepts
  exact List.forall_mem_cons.mpr
    ⟨(inv_init strings).intact, fun s hs => (hstates s hs).intact⟩

/-- Of two strings the first is accepted in two pieces, and both receivers take turns. -/
def twoStrings : List Move :=
  [.call, .packet 1, .receive .recvmsg, .packet 2, .call, .receive .server, .packet 1,
    .receive .recvmsg]

theorem stream_integrity_twoStrings :
    (∀ s ∈ init [[1, 2, 3], [4]] :: Runs.states step (init [[1, 2, 3], [4]]) twoStrings,
      Intact [[1, 2, 3], [4]] s) ∧
      (Runs.exec step (init [[1, 2, 3], [4]]) twoStrings).received = [[1], [2, 3], [4]] :=
  ⟨stream_integrity (by simp [Sendable]) (by decide), by decide⟩

end Stream

end Rbsrt
