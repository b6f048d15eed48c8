import Mathlib.Algebra.Order.Group.Int
import Rbsrt.Libsrt

/-!
# `SRT::Socket#sendmsg`

`rbsrt_socket_sendmsg` cuts a String into packets of at most `RBSRT_PAYLOAD_SIZE` bytes and calls
`srt_sendmsg2` until it has handed over all of them; a call may accept less than a packet, and the
next one continues where it stopped.

## Lengths

`RSTRING_LEN` is a `long`, but the loop keeps the length in an `int`. From `2 ^ 31` bytes on, the
conversion wraps around: the loop then sends a part of the String, or nothing, and reports success.
`bufLen` is this conversion; all other arithmetic stays within an `int`.

## Termination

The loop has no bound of its own. `sendLoop` has fuel instead, and `sendLoop_terminates` says how
much is enough whatever `srt_sendmsg2` does.

## Main results

* `sendLoop_spec` — what the calls of a loop that returns have accepted
* `sendLoop_terminates` — the loop returns or raises
* `sendsWhole_iff` — a String is sent whole exactly if its length fits an `int`
-/

namespace Rbsrt

/-! ### The transport -/

/-- The results of the calls of `srt_sendmsg2`, by number of the call and length: an error, or how
many bytes of a positive length were accepted, at least one. -/
structure Sendmsg2 where
  result : ℕ → ℤ → ℤ
  result_of_pos : ∀ k len, 0 < len → result k len = -1 ∨ 1 ≤ result k len ∧ result k len ≤ len
  result_of_nonpos : ∀ k len, len ≤ 0 → result k len = 0

/-! ### The loop -/

/-- `buf_len = (int)RSTRING_LEN(message)` -/
def bufLen (length : ℕ) : ℤ := (length : ℤ).bmod (2 ^ 32)

/-- `packet_size` -/
def packetSize (bufLen total : ℤ) : ℤ :=
  if bufLen - total > payloadSize then payloadSize else bufLen - total

/-- How a pass of the loop ends. -/
inductive Turn
  | again (total : ℤ)
  | returned (total : ℤ)
  | raised
deriving DecidableEq

/-- The end of a pass, after `srt_sendmsg2` has returned `nbytes`. -/
def turn (bufLen total nbytes : ℤ) : Turn :=
  if nbytes = -1 then .raised
  else if total + nbytes < bufLen then .again (total + nbytes)
  else .returned (total + nbytes)

/-- A call of `srt_sendmsg2`: where it begins, what it was asked for, and what it returned. -/
structure Call where
  offset : ℤ
  requested : ℤ
  accepted : ℤ
deriving DecidableEq

/-- What comes of a call of `sendmsg`. -/
inductive SendOutcome
  | returned (nbytes : ℤ)
  | raised (error : String)
  | running
deriving DecidableEq

/-- The loop, from its `k`-th pass on. -/
def sendLoop (srt : Sendmsg2) (bufLen : ℤ) : ℕ → ℕ → ℤ → List Call × SendOutcome
  | 0, _, _ => ([], .running)
  | fuel + 1, k, total =>
    let size := packetSize bufLen total
    let nbytes := srt.result k size
    let call := ⟨total, size, nbytes⟩
    match turn bufLen total nbytes with
    | .raised => ([call], .raised "SRT::Error")
    | .returned total => ([call], .returned total)
    | .again total =>
      let rest := sendLoop srt bufLen fuel (k + 1) total
      (call :: rest.1, rest.2)

/-- What `sendmsg` can be called with, as `rb_type` tells it apart. -/
inductive Argument
  | string (bytes : Bytes)
  | object
  | other

/-- `rbsrt_socket_sendmsg(self, message)` -/
def sendmsg (srt : Sendmsg2) (state : SockStatus) (fuel : ℕ) (message : Argument) :
    List Call × SendOutcome :=
  if state = .nonexist then ([], .raised "TypeError")
  else
    match message with
    | .string bytes => sendLoop srt (bufLen bytes.length) fuel 0 0
    | .object => ([], .raised "message must be a string")
    | .other => ([], .raised "message must a string")

/-! ### What is accepted -/

/-- The accepted slices lie next to each other, from `start` to `stop`. -/
def Tiles : ℤ → ℤ → List Call → Prop
  | start, stop, [] => start = stop
  | start, stop, call :: calls =>
    call.offset = start ∧ 0 ≤ call.accepted ∧ Tiles (start + call.accepted) stop calls

theorem packetSize_le (bufLen total : ℤ) : packetSize bufLen total ≤ payloadSize := by
  rw [packetSize]
  split <;> omega

theorem packetSize_le_sub (bufLen total : ℤ) : packetSize bufLen total ≤ bufLen - total := by
  rw [packetSize]
  split <;> omega

theorem one_le_packetSize {bufLen total : ℤ} (h : total < bufLen) :
    1 ≤ packetSize bufLen total := by
  rw [packetSize, payloadSize]
  split <;> omega

/-- A call that is no error accepts at least one of the bytes that are left. -/
theorem Sendmsg2.accepted_of_lt (srt : Sendmsg2) (k : ℕ) {bufLen total : ℤ} (h : total < bufLen)
    (hok : srt.result k (packetSize bufLen total) ≠ -1) :
    1 ≤ srt.result k (packetSize bufLen total) ∧
      srt.result k (packetSize bufLen total) ≤ bufLen - total := by
  have hsize := packetSize_le_sub bufLen total
  have hpos := one_le_packetSize h
  rcases srt.result_of_pos k (packetSize bufLen total) (by omega) with herr | ⟨hone, hle⟩
  · exact absurd herr hok
  · exact ⟨hone, by omega⟩

/-- If nothing is left, nothing is accepted. -/
theorem Sendmsg2.accepted_of_le (srt : Sendmsg2) (k : ℕ) {bufLen total : ℤ} (h : bufLen ≤ total) :
    srt.result k (packetSize bufLen total) = 0 := by
  have hsize := packetSize_le_sub bufLen total
  exact srt.result_of_nonpos k _ (by omega)

theorem turn_eq_raised_iff {bufLen total nbytes : ℤ} :
    turn bufLen total nbytes = .raised ↔ nbytes = -1 := by
  rw [turn]
  split_ifs <;> simp [*]

theorem turn_eq_again_iff {bufLen total nbytes total' : ℤ} :
    turn bufLen total nbytes = .again total' ↔
      nbytes ≠ -1 ∧ total' = total + nbytes ∧ total' < bufLen := by
  rw [turn]
  split_ifs <;> simp <;> omega

theorem turn_eq_returned_iff {bufLen total nbytes total' : ℤ} :
    turn bufLen total nbytes = .returned total' ↔
      nbytes ≠ -1 ∧ total' = total + nbytes ∧ bufLen ≤ total' := by
  rw [turn]
  split_ifs <;> simp <;> omega

/-- **A loop that returns has handed over everything**, in consecutive slices. -/
theorem sendLoop_spec (srt : Sendmsg2) {bufLen : ℤ} (fuel k : ℕ) {total n : ℤ} {calls : List Call}
    (h : total ≤ bufLen) (hrun : sendLoop srt bufLen fuel k total = (calls, .returned n)) :
    n = bufLen ∧ Tiles total bufLen calls ∧ (∀ call ∈ calls, call.requested ≤ payloadSize) ∧
      (total < bufLen → ∀ call ∈ calls, 1 ≤ call.requested) := by
  induction fuel generalizing k total calls with
  | zero => simp [sendLoop] at hrun
  | succ fuel ih =>
    have haccepted : srt.result k (packetSize bufLen total) ≠ -1 →
        0 ≤ srt.result k (packetSize bufLen total) ∧
          srt.result k (packetSize bufLen total) ≤ bufLen - total := by
      intro hok
      rcases h.lt_or_eq with hlt | rfl
      · obtain ⟨hone, hle⟩ := srt.accepted_of_lt k hlt hok
        exact ⟨by omega, hle⟩
      · rw [srt.accepted_of_le k (le_refl total)]
        omega
    rw [sendLoop] at hrun
    simp only at hrun
    split at hrun
    · simp at hrun
    · next total' hturn =>
      obtain ⟨hok, rfl, hle⟩ := turn_eq_returned_iff.mp hturn
      obtain ⟨hnonneg, hleft⟩ := haccepted hok
      simp only [Prod.mk.injEq, SendOutcome.returned.injEq] at hrun
      obtain ⟨rfl, rfl⟩ := hrun
      have hall : total + srt.result k (packetSize bufLen total) = bufLen := by omega
      refine ⟨hall, ⟨rfl, hnonneg, hall⟩, ?_, fun hlt => ?_⟩
      · simpa using packetSize_le bufLen total
      · simpa using one_le_packetSize hlt
    · next total' hturn =>
      obtain ⟨hok, rfl, hlt⟩ := turn_eq_again_iff.mp hturn
      obtain ⟨hnonneg, -⟩ := haccepted hok
      simp only [Prod.mk.injEq] at hrun
      obtain ⟨rfl, hrest⟩ := hrun
      obtain ⟨hn, htiles, hle, hpos⟩ := ih (k + 1) (by omega) (Prod.ext rfl hrest)
      refine ⟨hn, ⟨rfl, hnonneg, htiles⟩, ?_, fun hlt' => ?_⟩
      · exact List.forall_mem_cons.mpr ⟨packetSize_le bufLen total, hle⟩
      · exact List.forall_mem_cons.mpr ⟨one_le_packetSize hlt', hpos hlt⟩

/-- **The loop terminates**: every pass but the last accepts a byte. -/
theorem sendLoop_terminates (srt : Sendmsg2) {bufLen : ℤ} (fuel k : ℕ) {total : ℤ}
    (hfuel : bufLen - total < fuel) (hpos : 0 < fuel) :
    (sendLoop srt bufLen fuel k total).2 ≠ .running := by
  induction fuel generalizing k total with
  | zero => omega
  | succ fuel ih =>
    rw [sendLoop]
    simp only
    split
    · simp
    · simp
    · next total' hturn =>
      obtain ⟨hok, rfl, hlt⟩ := turn_eq_again_iff.mp hturn
      have htotal : total < bufLen := by
        by_contra hnot
        rw [srt.accepted_of_le k (by omega)] at hlt
        omega
      obtain ⟨hone, -⟩ := srt.accepted_of_lt k htotal hok
      exact ih (k + 1) (by omega) (by omega)

/-! ### Which Strings are sent -/

/-- A call of `sendmsg` that returns has sent the whole String, in packets of a legal size, and says
so; and there is no way for it not to end. -/
def SendsWhole (message : Bytes) : Prop :=
  ∀ srt state,
    (∀ fuel calls n, sendmsg srt state fuel (.string message) = (calls, .returned n) →
      n = message.length ∧ Tiles 0 message.length calls ∧
        (∀ call ∈ calls, call.requested ≤ payloadSize) ∧
        (0 < message.length → ∀ call ∈ calls, 1 ≤ call.requested)) ∧
    ∃ fuel, ∀ more, (sendmsg srt state (fuel + more) (.string message)).2 ≠ .running

theorem bufLen_of_lt {length : ℕ} (h : length < 2 ^ 31) : bufLen length = length :=
  Int.bmod_eq_of_le (by omega) (by omega)

theorem bufLen_lt (length : ℕ) : bufLen length < 2 ^ 31 := by
  have hlt : (length : ℤ).bmod (2 ^ 32) < 2 ^ 31 := Int.bmod_lt (by omega)
  exact hlt

theorem sendmsg_terminates (srt : Sendmsg2) (state : SockStatus) (message : Bytes) :
    ∃ fuel, ∀ more, (sendmsg srt state (fuel + more) (.string message)).2 ≠ .running := by
  refine ⟨(bufLen message.length).toNat + 1, fun more => ?_⟩
  rw [sendmsg]
  split
  · simp
  · exact sendLoop_terminates srt _ 0 (by omega) (by omega)

/-- **A String whose length is an `int`** is sent whole. -/
theorem sendsWhole_of_lt {message : Bytes} (h : message.length < 2 ^ 31) :
    SendsWhole message := by
  refine fun srt state => ⟨fun fuel calls n hrun => ?_, sendmsg_terminates srt state message⟩
  rw [sendmsg] at hrun
  split at hrun
  · simp at hrun
  · rw [bufLen_of_lt h] at hrun
    obtain ⟨hn, htiles, hle, hpos⟩ := sendLoop_spec srt fuel 0 (by omega) hrun
    exact ⟨hn, htiles, hle, fun hlen => hpos (by omega)⟩

/-- A transport that accepts every packet as it is. -/
def acceptAll : Sendmsg2 where
  result := fun _ len => if 0 < len then len else 0
  result_of_pos := fun _ len h => by
    rw [if_pos h]
    omega
  result_of_nonpos := fun _ len h => if_neg (by omega)

theorem acceptAll_ne_neg_one (k : ℕ) (len : ℤ) : acceptAll.result k len ≠ -1 := by
  simp only [acceptAll]
  split <;> omega

/-- Over such a transport the loop never raises. -/
theorem sendLoop_acceptAll_ne_raised {bufLen : ℤ} (fuel k : ℕ) (total : ℤ) (error : String) :
    (sendLoop acceptAll bufLen fuel k total).2 ≠ .raised error := by
  induction fuel generalizing k total with
  | zero => simp [sendLoop]
  | succ fuel ih =>
    rw [sendLoop]
    simp only
    split
    · next hturn => simp [turn, acceptAll_ne_neg_one] at hturn; split at hturn <;> simp at hturn
    · simp
    · exact ih _ _

/-- What the loop returns is no more than an `int`. -/
theorem sendLoop_returned_lt (srt : Sendmsg2) {bufLen : ℤ} (fuel k : ℕ) {total n : ℤ}
    (hbufLen : bufLen < 2 ^ 31) (htotal : total < 2 ^ 31)
    (hrun : (sendLoop srt bufLen fuel k total).2 = .returned n) : n < 2 ^ 31 := by
  induction fuel generalizing k total with
  | zero => simp [sendLoop] at hrun
  | succ fuel ih =>
    rw [sendLoop] at hrun
    simp only at hrun
    split at hrun
    · simp at hrun
    · next total' hturn =>
      obtain ⟨hok, rfl, -⟩ := turn_eq_returned_iff.mp hturn
      obtain rfl := SendOutcome.returned.inj hrun
      rcases lt_or_ge total bufLen with hlt | hle
      · have hleft := (srt.accepted_of_lt k hlt hok).2
        omega
      · rw [srt.accepted_of_le k hle]
        omega
    · next total' hturn =>
      obtain ⟨-, rfl, hlt⟩ := turn_eq_again_iff.mp hturn
      exact ih (k + 1) (by omega) hrun

/-- **Which Strings are sent whole**: those whose length fits an `int`. -/
theorem sendsWhole_iff (message : Bytes) : SendsWhole message ↔ message.length < 2 ^ 31 := by
  refine ⟨fun hwhole => ?_, sendsWhole_of_lt⟩
  obtain ⟨hreturned, fuel, hends⟩ := hwhole acceptAll .connected
  cases hrun : (sendmsg acceptAll .connected fuel (.string message)).2 with
  | running => exact absurd hrun (hends 0)
  | raised error => exact absurd hrun (sendLoop_acceptAll_ne_raised fuel 0 0 error)
  | returned n =>
    have hn := (hreturned fuel _ n (Prod.ext rfl hrun)).1
    have hlt := sendLoop_returned_lt acceptAll fuel 0 (bufLen_lt _) (by omega) hrun
    omega

theorem sendmsg_of_length_eq {message : Bytes} (h : message.length = 2 ^ 31) :
    sendmsg acceptAll .connected 1 (.string message) = ([⟨0, -2 ^ 31, 0⟩], .returned 0) := by
  rw [sendmsg, if_neg (by decide)]
  simp only [h]
  decide

/-- Of a String of `2 ^ 31` bytes nothing is sent, and `sendmsg` returns `0`. -/
theorem not_sendsWhole_long : ¬ SendsWhole (List.replicate (2 ^ 31) 0) := by
  intro hwhole
  obtain ⟨hn, -⟩ := (hwhole acceptAll .connected).1 1 _ 0
    (sendmsg_of_length_eq List.length_replicate)
  rw [List.length_replicate] at hn
  omega

end Rbsrt
