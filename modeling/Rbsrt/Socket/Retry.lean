import Mathlib.Data.Nat.Find
import Rbsrt.Socket.Transmission

/-!
# Retrying a failed `sendmsg`

When a call of `srt_sendmsg2` fails, `rbsrt_socket_sendmsg` raises, and with that it forgets how
much of the String the earlier calls have handed over. Whoever rescues the error and calls
`sendmsg` again with the same String starts from its first byte.

## The condition

A failure of the first call of an attempt is harmless: nothing has been handed over. `BreaksOff`
is the other kind of failure, in the middle of a String. It is stated about the results of the
calls, with the positions they are made at (`sentBefore`), and not about the loop.

## Main results

* `sendLoop_raised_iff` — where an attempt raises
* `handedOver_of_tiles` — what consecutive slices hand over
* `retriesSafely_iff` — retrying is safe exactly if no attempt breaks off
-/

namespace Rbsrt

/-! ### Attempts -/

/-- The calls from the `k`-th on. -/
def Sendmsg2.shift (srt : Sendmsg2) (k : ℕ) : Sendmsg2 where
  result := fun j len => srt.result (k + j) len
  result_of_pos := fun j len h => srt.result_of_pos (k + j) len h
  result_of_nonpos := fun j len h => srt.result_of_nonpos (k + j) len h

/-- The bytes that calls have handed over to the transport. -/
def handedOver (message : Bytes) (calls : List Call) : Bytes :=
  calls.flatMap fun call => (message.drop call.offset.toNat).take call.accepted.toNat

/-- `begin sendmsg(message) rescue SRT::Error; retry end`, for at most `n` attempts. -/
def attempts (srt : Sendmsg2) (state : SockStatus) (fuel : ℕ) (message : Bytes) :
    ℕ → List (List Call × SendOutcome)
  | 0 => []
  | n + 1 =>
    let attempt := sendmsg srt state fuel (.string message)
    match attempt.2 with
    | .raised _ =>
      attempt :: attempts (srt.shift attempt.1.length) state fuel message n
    | _ => [attempt]

/-- Whenever an attempt raises, it has handed over nothing; and when an attempt has returned, all
of them together have handed over the String, once. -/
def RetriesSafely (srt : Sendmsg2) (message : Bytes) : Prop :=
  ∀ state fuel n,
    (∀ attempt ∈ attempts srt state fuel message n, ∀ error, attempt.2 = .raised error →
      handedOver message attempt.1 = []) ∧
    ((∃ attempt ∈ attempts srt state fuel message n, ∃ total, attempt.2 = .returned total) →
      handedOver message ((attempts srt state fuel message n).flatMap Prod.fst) = message)

/-! ### Where an attempt breaks off -/

/-- How many bytes the calls before the `j`-th have accepted. -/
def sentBefore (srt : Sendmsg2) (bufLen : ℤ) : ℕ → ℤ
  | 0 => 0
  | j + 1 =>
    sentBefore srt bufLen j + srt.result j (packetSize bufLen (sentBefore srt bufLen j))

/-- The `j`-th call succeeds and leaves something to be sent. -/
def Continues (srt : Sendmsg2) (bufLen : ℤ) (j : ℕ) : Prop :=
  srt.result j (packetSize bufLen (sentBefore srt bufLen j)) ≠ -1 ∧
    sentBefore srt bufLen (j + 1) < bufLen

/-- The `j`-th call fails. -/
def FailsAt (srt : Sendmsg2) (bufLen : ℤ) (j : ℕ) : Prop :=
  srt.result j (packetSize bufLen (sentBefore srt bufLen j)) = -1

instance (srt : Sendmsg2) (bufLen : ℤ) (j : ℕ) : Decidable (Continues srt bufLen j) :=
  inferInstanceAs (Decidable (_ ∧ _))

instance (srt : Sendmsg2) (bufLen : ℤ) (j : ℕ) : Decidable (FailsAt srt bufLen j) :=
  inferInstanceAs (Decidable (_ = _))

/-- A call fails after others have accepted a part of the String. -/
def BreaksOff (srt : Sendmsg2) (bufLen : ℤ) : Prop :=
  ∃ j, 0 < j ∧ (∀ i < j, Continues srt bufLen i) ∧ FailsAt srt bufLen j

/-- However many attempts have failed at their first call, the next one does not break off. -/
def NeverBreaksOff (srt : Sendmsg2) (bufLen : ℤ) : Prop :=
  ∀ k, (∀ i < k, srt.result i (packetSize bufLen 0) = -1) → ¬ BreaksOff (srt.shift k) bufLen

variable {srt : Sendmsg2} {len : ℤ} {message : Bytes}

/-- Raising takes a call. -/
theorem ne_nil_of_raised {fuel k : ℕ} {total : ℤ} {error : String}
    (h : (sendLoop srt len fuel k total).2 = .raised error) :
    (sendLoop srt len fuel k total).1 ≠ [] := by
  cases fuel with
  | zero => cases h
  | succ fuel =>
    rw [sendLoop]
    simp only
    split <;> simp

/-- **Where the loop raises**: at the first call that fails, if the calls before it succeed and
leave something to be sent. -/
theorem sendLoop_raised_iff (srt : Sendmsg2) (len : ℤ) (fuel j m : ℕ) :
    ((sendLoop srt len fuel j (sentBefore srt len j)).1.length = m + 1 ∧
        ∃ error, (sendLoop srt len fuel j (sentBefore srt len j)).2 = .raised error) ↔
      m < fuel ∧ (∀ i < m, Continues srt len (j + i)) ∧ FailsAt srt len (j + m) := by
  induction fuel generalizing j m with
  | zero => simp [sendLoop]
  | succ fuel ih =>
    rw [sendLoop]
    simp only
    split
    · next hturn =>
      have hfails : FailsAt srt len j := turn_eq_raised_iff.mp hturn
      cases m with
      | zero => simpa using hfails
      | succ m =>
        refine iff_of_false (fun h => by simp at h) ?_
        rintro ⟨-, hall, -⟩
        exact (hall 0 (Nat.succ_pos m)).1 hfails
    · next total hturn =>
      obtain ⟨hok, rfl, hle⟩ := turn_eq_returned_iff.mp hturn
      refine iff_of_false (fun h => by simp at h) ?_
      rintro ⟨-, hall, hfails⟩
      cases m with
      | zero => exact hok hfails
      | succ m => exact absurd (hall 0 (Nat.succ_pos m)).2 (not_lt.mpr hle)
    · next total hturn =>
      obtain ⟨hok, rfl, hlt⟩ := turn_eq_again_iff.mp hturn
      cases m with
      | zero =>
        refine iff_of_false ?_ fun h => hok h.2.2
        rintro ⟨hlen, error, herror⟩
        exact ne_nil_of_raised herror (by simpa using hlen)
      | succ m =>
        have hrest := ih (j + 1) m
        rw [sentBefore] at hrest
        have hcontinues : (∀ i < m + 1, Continues srt len (j + i)) ↔
            ∀ i < m, Continues srt len (j + 1 + i) := by
          constructor
          · intro hall i hi
            have hnext := hall (i + 1) (by omega)
            rwa [show j + (i + 1) = j + 1 + i by omega] at hnext
          · intro hall i hi
            cases i with
            | zero => exact ⟨hok, hlt⟩
            | succ i =>
              rw [show j + (i + 1) = j + 1 + i by omega]
              exact hall i (by omega)
        rw [hcontinues, show j + (m + 1) = j + 1 + m by omega, Nat.succ_lt_succ_iff, ← hrest,
          List.length_cons, Nat.succ_inj]

/-! ### What an attempt hands over -/

theorem Tiles.le {calls : List Call} {start stop : ℤ} (h : Tiles start stop calls) :
    start ≤ stop := by
  induction calls generalizing start with
  | nil => exact le_of_eq h
  | cons call calls ih =>
    obtain ⟨-, hnonneg, hrest⟩ := h
    have hle := ih hrest
    omega

/-- **Consecutive slices hand over what they cover.** -/
theorem handedOver_of_tiles (message : Bytes) {calls : List Call} {start stop : ℤ}
    (h : Tiles start stop calls) (hstart : 0 ≤ start) :
    handedOver message calls = (message.drop start.toNat).take (stop - start).toNat := by
  induction calls generalizing start with
  | nil =>
    obtain rfl : start = stop := h
    simp [handedOver]
  | cons call calls ih =>
    obtain ⟨rfl, hnonneg, hrest⟩ := h
    have hle := hrest.le
    have hnext := ih hrest (by omega)
    have hstop : (stop - call.offset).toNat =
        call.accepted.toNat + (stop - (call.offset + call.accepted)).toNat := by omega
    have hoffset : (call.offset + call.accepted).toNat =
        call.offset.toNat + call.accepted.toNat := by omega
    rw [handedOver, List.flatMap_cons, ← handedOver, hnext, hstop, List.take_add, List.drop_drop,
      hoffset]

/-- An attempt that returns has handed over as much as `bufLen` says. -/
theorem handedOver_of_returned (message : Bytes) {fuel : ℕ} {total : ℤ} {calls : List Call}
    (hrun : sendLoop srt len fuel 0 0 = (calls, .returned total)) :
    handedOver message calls = message.take len.toNat := by
  rcases lt_or_ge len 0 with hneg | hnonneg
  · have hzero : srt.result 0 (packetSize len 0) = 0 := srt.accepted_of_le 0 (by omega)
    cases fuel with
    | zero => simp [sendLoop] at hrun
    | succ fuel =>
      have hturn : turn len 0 0 = .returned 0 := turn_eq_returned_iff.mpr ⟨by decide, rfl, by omega⟩
      rw [sendLoop] at hrun
      simp only [hzero, hturn, Prod.mk.injEq] at hrun
      rw [← hrun.1, Int.toNat_of_nonpos (by omega)]
      simp [handedOver]
  · obtain ⟨-, htiles, -⟩ := sendLoop_spec srt fuel 0 hnonneg hrun
    simpa using handedOver_of_tiles message htiles (le_refl 0)

theorem bufLen_le (length : ℕ) : bufLen length ≤ length := by
  rcases lt_or_ge length (2 ^ 31) with hlt | hge
  · exact le_of_eq (bufLen_of_lt hlt)
  · have hint := bufLen_lt length
    omega

/-- An attempt that raises has handed over nothing exactly if it has made one call only. -/
theorem handedOver_of_raised_iff {fuel : ℕ} {error : String} (hlen : len ≤ message.length)
    (hraised : (sendLoop srt len fuel 0 0).2 = .raised error) :
    handedOver message (sendLoop srt len fuel 0 0).1 = [] ↔
      (sendLoop srt len fuel 0 0).1.length = 1 := by
  cases fuel with
  | zero => cases hraised
  | succ fuel =>
    rw [sendLoop] at hraised ⊢
    simp only at hraised ⊢
    split
    · next hturn => simp [handedOver, turn_eq_raised_iff.mp hturn]
    · next hturn =>
      rw [hturn] at hraised
      cases hraised
    · next total hturn =>
      rw [hturn] at hraised
      obtain ⟨hok, rfl, hlt⟩ := turn_eq_again_iff.mp hturn
      -- the first call has accepted a byte, and the String has one
      have hpos : 0 < len := by
        by_contra hnot
        rw [srt.accepted_of_le 0 (by omega)] at hlt
        omega
      have hone := (srt.accepted_of_lt 0 hpos hok).1
      refine iff_of_false (fun hnil => ?_) fun hlength => ?_
      · rw [handedOver, List.flatMap_cons, List.append_eq_nil_iff, List.take_eq_nil_iff] at hnil
        rcases hnil.1 with h | h
        · dsimp only at h
          omega
        · have hlength := congrArg List.length h
          simp only [Int.toNat_zero, List.drop_zero, List.length_nil] at hlength
          omega
      · exact ne_nil_of_raised hraised (by simpa using hlength)

/-! ### Attempts -/

theorem shift_zero (srt : Sendmsg2) : srt.shift 0 = srt := by
  cases srt
  simp [Sendmsg2.shift]

theorem shift_shift (srt : Sendmsg2) (k l : ℕ) : (srt.shift k).shift l = srt.shift (k + l) := by
  simp [Sendmsg2.shift, Nat.add_assoc]

/-- An attempt that has raised after one call was failed by that call. -/
theorem failsAt_of_length_eq_one {fuel : ℕ} {error : String}
    (hraised : (sendLoop srt len fuel 0 0).2 = .raised error)
    (hlength : (sendLoop srt len fuel 0 0).1.length = 1) :
    srt.result 0 (packetSize len 0) = -1 :=
  ((sendLoop_raised_iff srt len fuel 0 0).mp ⟨hlength, error, hraised⟩).2.2

/-- An attempt that does not break off has raised after one call, if it has raised. -/
theorem length_eq_one_of_raised {fuel : ℕ} {error : String} (hnot : ¬ BreaksOff srt len)
    (hraised : (sendLoop srt len fuel 0 0).2 = .raised error) :
    (sendLoop srt len fuel 0 0).1.length = 1 := by
  obtain ⟨m, hm⟩ : ∃ m, (sendLoop srt len fuel 0 0).1.length = m + 1 :=
    Nat.exists_eq_succ_of_ne_zero (mt List.length_eq_zero_iff.mp (ne_nil_of_raised hraised))
  obtain ⟨-, hcontinues, hfails⟩ :=
    (sendLoop_raised_iff srt len fuel 0 m).mp ⟨hm, error, hraised⟩
  simp only [Nat.zero_add] at hcontinues hfails
  cases m with
  | zero => exact hm
  | succ m => exact absurd ⟨m + 1, Nat.succ_pos m, hcontinues, hfails⟩ hnot

theorem NeverBreaksOff.head (h : NeverBreaksOff srt len) : ¬ BreaksOff srt len := by
  have hzero := h 0 fun i hi => absurd hi (Nat.not_lt_zero i)
  rwa [shift_zero] at hzero

theorem NeverBreaksOff.tail (h : NeverBreaksOff srt len)
    (hfails : srt.result 0 (packetSize len 0) = -1) : NeverBreaksOff (srt.shift 1) len := by
  intro k hk
  rw [shift_shift, Nat.add_comm]
  refine h (k + 1) fun i hi => ?_
  cases i with
  | zero => exact hfails
  | succ i =>
    have hi' : srt.result (1 + i) (packetSize len 0) = -1 := hk i (by omega)
    rwa [Nat.add_comm] at hi'

theorem sendmsg_cases (srt : Sendmsg2) (state : SockStatus) (fuel : ℕ) (message : Bytes) :
    sendmsg srt state fuel (.string message) = ([], .raised "TypeError") ∨
      sendmsg srt state fuel (.string message) =
        sendLoop srt (bufLen message.length) fuel 0 0 := by
  rw [sendmsg]
  split
  · exact Or.inl rfl
  · exact Or.inr rfl

/-- An attempt that does not break off and raises leaves the next one in the same position. -/
theorem NeverBreaksOff.next (h : NeverBreaksOff srt (bufLen message.length)) {state : SockStatus}
    {fuel : ℕ} {error : String}
    (hraised : (sendmsg srt state fuel (.string message)).2 = .raised error) :
    handedOver message (sendmsg srt state fuel (.string message)).1 = [] ∧
      NeverBreaksOff (srt.shift (sendmsg srt state fuel (.string message)).1.length)
        (bufLen message.length) := by
  rcases sendmsg_cases srt state fuel message with heq | heq
  · rw [heq, List.length_nil, shift_zero]
    exact ⟨rfl, h⟩
  · rw [heq] at hraised ⊢
    have hlength := length_eq_one_of_raised h.head hraised
    rw [handedOver_of_raised_iff (bufLen_le _) hraised, hlength]
    exact ⟨rfl, h.tail (failsAt_of_length_eq_one hraised hlength)⟩

/-- **Attempts that do not break off**: those that raise have handed over nothing, and with one
that returns, what has been handed over is the String as far as `bufLen` says. -/
theorem handedOver_attempts (h : NeverBreaksOff srt (bufLen message.length)) (state : SockStatus)
    (fuel n : ℕ) :
    (∀ attempt ∈ attempts srt state fuel message n, ∀ error, attempt.2 = .raised error →
      handedOver message attempt.1 = []) ∧
    ((∃ attempt ∈ attempts srt state fuel message n, ∃ total, attempt.2 = .returned total) →
      handedOver message ((attempts srt state fuel message n).flatMap Prod.fst) =
        message.take (bufLen message.length).toNat) := by
  induction n generalizing srt with
  | zero => simp [attempts]
  | succ n ih =>
    rw [attempts]
    cases houtcome : (sendmsg srt state fuel (.string message)).2 with
    | running => simp [houtcome]
    | returned total =>
      refine ⟨by simp [houtcome], fun _ => ?_⟩
      rcases sendmsg_cases srt state fuel message with heq | heq
      · rw [heq] at houtcome
        cases houtcome
      · rw [heq] at houtcome ⊢
        have hhanded := handedOver_of_returned message (Prod.ext rfl houtcome)
        simpa using hhanded
    | raised error =>
      obtain ⟨hnil, hnever⟩ := h.next houtcome
      obtain ⟨hraised, hreturned⟩ := ih hnever
      refine ⟨List.forall_mem_cons.mpr ⟨fun _ _ => hnil, hraised⟩, ?_⟩
      rintro ⟨attempt, hmem, total, htotal⟩
      rcases List.mem_cons.mp hmem with rfl | hmem
      · rw [houtcome] at htotal
        cases htotal
      · have hrest := hreturned ⟨attempt, hmem, total, htotal⟩
        rw [List.flatMap_cons, handedOver, List.flatMap_append, ← handedOver, ← handedOver, hnil,
          hrest, List.nil_append]

/-! ### Which retries are safe -/

/-- Attempts that fail at their first call lead to the next one. -/
theorem mem_attempts_of_fails {k n fuel : ℕ} (hfuel : 0 < fuel)
    (hfails : ∀ i < k, srt.result i (packetSize (bufLen message.length) 0) = -1)
    {attempt : List Call × SendOutcome}
    (h : attempt ∈ attempts (srt.shift k) .connected fuel message n) :
    attempt ∈ attempts srt .connected fuel message (k + n) := by
  induction k generalizing srt with
  | zero => simpa [shift_zero] using h
  | succ k ih =>
    have hfirst : FailsAt srt (bufLen message.length) 0 := hfails 0 (Nat.succ_pos k)
    obtain ⟨hlength, error, hraised⟩ := (sendLoop_raised_iff _ _ fuel 0 0).mpr
      ⟨hfuel, fun i hi => absurd hi (Nat.not_lt_zero i), hfirst⟩
    have hsend : sendmsg srt .connected fuel (.string message) =
        sendLoop srt (bufLen message.length) fuel 0 0 := rfl
    rw [show k + 1 + n = k + n + 1 by omega, attempts, hsend]
    simp only [sentBefore] at hraised hlength
    rw [hraised]
    refine List.mem_cons_of_mem _ ?_
    rw [hlength, Nat.zero_add]
    refine ih ?_ ?_
    · intro i hi
      have hi' := hfails (i + 1) (by omega)
      rwa [Nat.add_comm] at hi'
    · rwa [shift_shift, Nat.add_comm]

theorem head_mem_attempts (srt : Sendmsg2) (fuel : ℕ) :
    sendLoop srt (bufLen message.length) fuel 0 0 ∈
      attempts srt .connected fuel message 1 := by
  have hsend : sendmsg srt .connected fuel (.string message) =
      sendLoop srt (bufLen message.length) fuel 0 0 := rfl
  rw [attempts, hsend]
  cases (sendLoop srt (bufLen message.length) fuel 0 0).2 <;> exact List.mem_cons_self

/-- If its first call fails, an attempt does not return. -/
theorem ne_returned_of_fails (hfails : srt.result 0 (packetSize (bufLen message.length) 0) = -1)
    (state : SockStatus) (fuel : ℕ) (total : ℤ) :
    (sendmsg srt state fuel (.string message)).2 ≠ .returned total := by
  rcases sendmsg_cases srt state fuel message with heq | heq
  · rw [heq]
    exact SendOutcome.noConfusion
  · rw [heq]
    cases fuel with
    | zero => exact SendOutcome.noConfusion
    | succ fuel =>
      have hturn : turn (bufLen message.length) 0 (-1) = .raised := turn_eq_raised_iff.mpr rfl
      rw [sendLoop]
      simp only [hfails, hturn]
      exact SendOutcome.noConfusion

/-- If every call fails, no attempt returns. -/
theorem ne_returned_of_mem_attempts
    (hfails : ∀ k, srt.result k (packetSize (bufLen message.length) 0) = -1) (state : SockStatus)
    (fuel n : ℕ) :
    ∀ attempt ∈ attempts srt state fuel message n, ∀ total, attempt.2 ≠ .returned total := by
  induction n generalizing srt with
  | zero => simp [attempts]
  | succ n ih =>
    rw [attempts]
    cases houtcome : (sendmsg srt state fuel (.string message)).2 with
    | running => simp [houtcome]
    | returned total => exact absurd houtcome (ne_returned_of_fails (hfails 0) state fuel total)
    | raised error =>
      refine List.forall_mem_cons.mpr ⟨?_, ih fun k => hfails _⟩
      intro total
      rw [houtcome]
      exact SendOutcome.noConfusion

theorem neverBreaksOff_of_retriesSafely (h : RetriesSafely srt message) :
    NeverBreaksOff srt (bufLen message.length) := by
  rintro k hk ⟨j, hj, hcontinues, hfails⟩
  obtain ⟨hlength, error, hraised⟩ :=
    (sendLoop_raised_iff (srt.shift k) (bufLen message.length) (j + 1) 0 j).mpr
      ⟨Nat.lt_succ_self j, by simpa using hcontinues, by simpa using hfails⟩
  simp only [sentBefore] at hlength hraised
  have hmem : sendLoop (srt.shift k) (bufLen message.length) (j + 1) 0 0 ∈
      attempts (srt.shift k) .connected (j + 1) message 1 :=
    head_mem_attempts _ _
  have hsafe := (h .connected (j + 1) (k + 1)).1 _
    (mem_attempts_of_fails (Nat.succ_pos j) hk hmem) error hraised
  rw [handedOver_of_raised_iff (bufLen_le _) hraised, hlength] at hsafe
  omega

/-- If the first call of an attempt succeeds and the attempt does not break off, it returns. -/
theorem returned_of_not_breaksOff (hnot : ¬ BreaksOff srt len)
    (hok : srt.result 0 (packetSize len 0) ≠ -1) :
    ∃ total, (sendLoop srt len (len.toNat + 1) 0 0).2 = .returned total := by
  cases houtcome : (sendLoop srt len (len.toNat + 1) 0 0).2 with
  | returned total => exact ⟨total, rfl⟩
  | running => exact absurd houtcome (sendLoop_terminates srt _ 0 (by omega) (by omega))
  | raised error =>
    exact absurd (failsAt_of_length_eq_one houtcome (length_eq_one_of_raised hnot houtcome)) hok

/-- **When retrying is safe**: no attempt breaks off, and the length of the String fits an `int`,
unless nothing is ever accepted. -/
theorem retriesSafely_iff (srt : Sendmsg2) (message : Bytes) :
    RetriesSafely srt message ↔
      NeverBreaksOff srt (bufLen message.length) ∧
        (message.length < 2 ^ 31 ∨
          ∀ k, srt.result k (packetSize (bufLen message.length) 0) = -1) := by
  constructor
  · intro hsafe
    have hnever := neverBreaksOff_of_retriesSafely hsafe
    refine ⟨hnever, ?_⟩
    by_contra hboth
    obtain ⟨hlong, hsome⟩ := not_or.mp hboth
    have hex : ∃ k, srt.result k (packetSize (bufLen message.length) 0) ≠ -1 :=
      not_forall.mp hsome
    -- the first call that is accepted begins an attempt that returns
    classical
    have hbefore : ∀ i < Nat.find hex, srt.result i (packetSize (bufLen message.length) 0) = -1 :=
      fun i hi => not_not.mp (Nat.find_min hex hi)
    obtain ⟨total, htotal⟩ :=
      returned_of_not_breaksOff (hnever (Nat.find hex) hbefore) (Nat.find_spec hex)
    have hmem := mem_attempts_of_fails (Nat.succ_pos (bufLen message.length).toNat) hbefore
      (head_mem_attempts (srt.shift (Nat.find hex)) ((bufLen message.length).toNat + 1))
    have hall := (hsafe .connected _ _).2 ⟨_, hmem, total, htotal⟩
    have hpart := (handedOver_attempts hnever .connected _ _).2 ⟨_, hmem, total, htotal⟩
    have hlength := congrArg List.length (hpart.symm.trans hall)
    have hint := bufLen_lt message.length
    rw [List.length_take] at hlength
    omega
  · rintro ⟨hnever, hlength⟩ state fuel n
    obtain ⟨hraised, hreturned⟩ := handedOver_attempts hnever state fuel n
    refine ⟨hraised, fun hsome => ?_⟩
    rcases hlength with hlt | hfails
    · rw [hreturned hsome, bufLen_of_lt hlt, Int.toNat_natCast, List.take_length]
    · obtain ⟨attempt, hmem, total, htotal⟩ := hsome
      exact absurd htotal (ne_returned_of_mem_attempts hfails state fuel n attempt hmem total)

/-- A transport that accepts a packet, refuses the next one, and then accepts everything. -/
def interrupted : Sendmsg2 where
  result := fun k len => if 0 < len then if k = 1 then -1 else len else 0
  result_of_pos := fun k len h => by
    rw [if_pos h]
    split
    · exact Or.inl rfl
    · exact Or.inr ⟨h, le_refl len⟩
  result_of_nonpos := fun _ _ h => if_neg (Int.not_lt.mpr h)

/-- Two packets, the second of which is refused: the first packet is on its way when `sendmsg`
raises, and will be there twice after another attempt. -/
theorem not_retriesSafely_interrupted :
    ¬ RetriesSafely interrupted (List.replicate 1317 0) := by
  intro hsafe
  have hnever := neverBreaksOff_of_retriesSafely hsafe
  rw [List.length_replicate] at hnever
  exact hnever.head ⟨1, by decide, by decide, by decide⟩

end Rbsrt
