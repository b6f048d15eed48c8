import Mathlib.Algebra.Group.Int.Defs
import Mathlib.Algebra.Group.Nat.Defs
import Mathlib.Data.List.Basic

/-!
# What the extension sees of libsrt

libsrt is not part of the repository. Its types are written down here as far as the extension
reads them; what its functions return is an input of the models that call them, and what a result
assumes about them is a named hypothesis there.
-/

namespace Rbsrt

/-- `SRTSOCKET`, a 32-bit `int`. -/
abbrev SRTSOCKET := BitVec 32

instance (fd : SRTSOCKET) (fds : List SRTSOCKET) : Decidable (fd ∈ fds) :=
  List.instDecidableMemOfLawfulBEq fd fds

/-- `SRT_INVALID_SOCK` and `SRT_ERROR` -/
def SRT_INVALID_SOCK : SRTSOCKET := -1

/-- The contents of a message. -/
abbrev Bytes := List UInt8

/-- `SRT_SOCKSTATUS` -/
inductive SockStatus
  | init
  | opened
  | listening
  | connecting
  | connected
  | broken
  | closing
  | closed
  | nonexist
deriving DecidableEq

/-- A set of `SRT_EPOLL_OPT` bits. -/
structure EpollFlags where
  inp : Bool
  out : Bool
  err : Bool
  et : Bool
deriving DecidableEq

/-- `SRT_EPOLL_EVENT` -/
structure Event where
  fd : SRTSOCKET
  events : EpollFlags
deriving DecidableEq

/-- `RBSRT_PAYLOAD_SIZE` -/
def payloadSize : ℕ := 1316

/-! ### `srt_epoll_uwait` -/

/-- What a call of `srt_epoll_uwait` finds: a negative error code, or the sockets that are ready. -/
inductive Uwait
  | error (code : BitVec 32) (neg : code.toInt < 0)
  | ready (events : List Event)

namespace Uwait

/-- The return value, for an array of `fdsSize` entries: the number of ready sockets if they fit,
and one more than fits if they do not. -/
def returned (u : Uwait) (fdsSize : ℕ) : BitVec 32 :=
  match u with
  | .error code _ => code
  | .ready events =>
    if events.length ≤ fdsSize then BitVec.ofNat 32 events.length else BitVec.ofNat 32 (fdsSize + 1)

/-- How many entries of the array are written. -/
def written (u : Uwait) (fdsSize : ℕ) : ℕ :=
  match u with
  | .error _ _ => 0
  | .ready events => min events.length fdsSize

/-- How many entries the caller is told of. -/
def announced (u : Uwait) (fdsSize : ℕ) : ℕ :=
  match u with
  | .error _ _ => 0
  | .ready events => min events.length (fdsSize + 1)

theorem toNat_returned (u : Uwait) {fdsSize : ℕ} (hsize : fdsSize + 1 < 2 ^ 31) :
    (u.returned fdsSize).toInt.toNat = u.announced fdsSize := by
  have htoInt : ∀ n : ℕ, n ≤ fdsSize + 1 → (BitVec.ofNat 32 n).toInt.toNat = n := by
    intro n hn
    rw [BitVec.toInt_ofNat', Int.bmod_eq_of_le (by omega) (by omega)]
    exact Int.toNat_natCast n
  cases u with
  | error code neg => exact Int.toNat_of_nonpos (Int.le_of_lt neg)
  | ready events =>
    simp only [returned, announced]
    split
    · next hle => rw [htoInt _ (by omega), Nat.min_eq_left (by omega)]
    · next hgt => rw [htoInt _ (Nat.le_refl _), Nat.min_eq_right (by omega)]

/-- No more sockets are ready than the array has entries. -/
def Fits (u : Uwait) (fdsSize : ℕ) : Prop :=
  match u with
  | .error _ _ => True
  | .ready events => events.length ≤ fdsSize

/-- The event is one of those found. -/
def Reports (u : Uwait) (event : Event) : Prop :=
  match u with
  | .error _ _ => False
  | .ready events => event ∈ events

/-- The events that are written. -/
def entries (u : Uwait) (fdsSize : ℕ) : List Event :=
  match u with
  | .error _ _ => []
  | .ready events => events.take fdsSize

/-- Every socket is reported once, with all of its events. -/
def Distinct (u : Uwait) : Prop :=
  match u with
  | .error _ _ => True
  | .ready events => (events.map Event.fd).Nodup

/-- The memory at the array after the call; nothing is written past the entries that fit. -/
def fill (u : Uwait) (fdsSize : ℕ) (memory : ℕ → Event) (i : ℕ) : Event :=
  match u with
  | .error _ _ => memory i
  | .ready events => if i < fdsSize then events.getD i (memory i) else memory i

/-- An entry that is written is an event that was found. -/
theorem reports_fill {u : Uwait} {fdsSize i : ℕ} (memory : ℕ → Event) (hi : i < u.written fdsSize) :
    u.Reports (u.fill fdsSize memory i) := by
  cases u with
  | error code neg => exact absurd hi (Nat.not_lt_zero i)
  | ready events =>
    have hlt : i < events.length ∧ i < fdsSize := Nat.lt_min.mp hi
    rw [fill, if_pos hlt.2, List.getD_eq_getElem?_getD, List.getElem?_eq_getElem hlt.1,
      Option.getD_some]
    exact List.getElem_mem hlt.1

/-- If the events fit, the announced entries are those that are written. -/
theorem map_fill_of_fits {u : Uwait} {fdsSize : ℕ} (memory : ℕ → Event) (hfits : u.Fits fdsSize) :
    (List.range (u.announced fdsSize)).map (u.fill fdsSize memory) = u.entries fdsSize := by
  cases u with
  | error code neg => rfl
  | ready events =>
    have hle : events.length ≤ fdsSize := hfits
    rw [announced, Nat.min_eq_left (by omega), entries, List.take_of_length_le hle]
    refine List.ext_getElem (by simp) fun i _ hi => ?_
    simp [fill, Nat.lt_of_lt_of_le hi hle, List.getElem?_eq_getElem hi]

/-- If they do not, one more entry is announced, and that is what was in memory. -/
theorem map_fill_of_not_fits {u : Uwait} {fdsSize : ℕ} (memory : ℕ → Event)
    (hfits : ¬ u.Fits fdsSize) :
    (List.range (u.announced fdsSize)).map (u.fill fdsSize memory) =
      u.entries fdsSize ++ [memory fdsSize] := by
  cases u with
  | error code neg => exact absurd trivial hfits
  | ready events =>
    have hlt : fdsSize < events.length := Nat.lt_of_not_le hfits
    rw [announced, Nat.min_eq_right (by omega), entries, List.range_succ, List.map_append]
    congr 1
    · refine List.ext_getElem (by simp; omega) fun i hi _ => ?_
      have hi' : i < fdsSize := by simpa using hi
      simp [fill, hi', List.getElem?_eq_getElem (Nat.lt_trans hi' hlt)]
    · simp [fill]

end Uwait

end Rbsrt
