import Rbsrt.General.CString
import Rbsrt.Libsrt

/-!
# `#streamid=` and `#streamid`

`rbsrt_socket_set_streamid` counts the characters of the String, refuses more than 512 of them, and
hands libsrt one byte more than it has counted. `rbsrt_socket_get_streamid` returns every byte that
libsrt has stored.

## Four lengths

A String has a number of characters and a number of bytes, which is at least as large. libsrt takes
512 bytes. And what is handed over is a number of bytes that was got by counting characters: it has
one byte more than the String if all characters are single bytes, and then the last one is the
terminator Ruby keeps behind every String.

## Main results

* `setStreamid_of_lt`, `setStreamid_of_ge` — what is stored, and when the setter raises
* `setsFaithfully_iff` — the Strings that are stored as they are, or refused
-/

namespace Rbsrt

/-! ### Strings with an encoding -/

/-- A Ruby String, as the bytes of its characters. A byte that belongs to no character of the
encoding counts as one. -/
structure EncodedString where
  chars : List Bytes
  ne_nil : ∀ c ∈ chars, c ≠ []

namespace EncodedString

/-- The bytes of the String. -/
def bytes (s : EncodedString) : Bytes := s.chars.flatten

/-- `rb_str_strlen` -/
def strlen (s : EncodedString) : ℕ := s.chars.length

/-- What lies at `StringValuePtr(s)`: the bytes, the terminator, and then whatever is there. -/
def memory (s : EncodedString) (behind : ℕ → UInt8) (i : ℕ) : UInt8 :=
  (s.bytes ++ [0]).getD i (behind i)

/-- A character has at least one byte. -/
theorem strlen_le (s : EncodedString) : s.strlen ≤ s.bytes.length := by
  rw [strlen, bytes]
  obtain ⟨chars, hne⟩ := s
  induction chars with
  | nil => exact Nat.le_refl 0
  | cons c chars ih =>
    have hpos := List.length_pos_of_ne_nil (hne c List.mem_cons_self)
    have hrest := ih fun d hd => hne d (List.mem_cons_of_mem c hd)
    simp only [List.length_cons, List.flatten_cons, List.length_append] at hrest ⊢
    omega

end EncodedString

/-! ### The option -/

/-- `srt_setsockflag(socket, SRTO_STREAMID, p, n)`: the `n` bytes at `p` are stored, unless there
are too many of them. -/
def setsockflagStreamid (memory : ℕ → UInt8) (n : ℕ) : Option Bytes :=
  if n ≤ 512 then some ((List.range n).map memory) else none

/-- What methods raise: a `TypeError`, an `SRT::Error` (`rbsrt_eStandardError`) with a text of its
own, or the class for the last error of libsrt. -/
inductive OptionError
  | type (message : String)
  | rbsrtStandard (message : String)
  | srt
deriving DecidableEq

/-- What other methods raise: an `ArgumentError`, Ruby's own `StandardError` (`rb_eStandardError`),
or one of these. -/
inductive MethodError
  | argument (message : String)
  | standard (message : String)
  | option (e : OptionError)
deriving DecidableEq

/-- The object a method is called on: its class, and the state of its socket. -/
structure Receiver where
  className : String
  state : SockStatus

/-- `RBSRT_CHECK_SOCKET` -/
def Receiver.check (sock : Receiver) : Except OptionError Unit :=
  if sock.state = .nonexist then
    .error (.type ("wrong type " ++ sock.className ++ " is not a SRT Socket Type"))
  else .ok ()

/-- What `streamid=` can be called with. -/
inductive StreamidArg
  | string (s : EncodedString)
  | other (className : String)

/-- `rbsrt_socket_set_streamid(self, streamid)`, with the id that is stored before and after. -/
def setStreamid (sock : Receiver) (behind : ℕ → UInt8) (stored : Bytes) :
    StreamidArg → Bytes × Except OptionError Bool
  | .other className =>
    (stored, .error (.type ("wrong argument type " ++ className ++ " (expected String)")))
  | .string streamid =>
    if 512 < streamid.strlen then
      (stored, .error (.rbsrtStandard "streamid must be 512 characters or less"))
    else
      match sock.check with
      | .error e => (stored, .error e)
      | .ok () =>
        match setsockflagStreamid (streamid.memory behind) (streamid.strlen + 1) with
        | none => (stored, .error .srt)
        | some bytes => (bytes, .ok true)

/-- `rbsrt_socket_get_streamid(self)` -/
def getStreamid (sock : Receiver) (stored : Bytes) : Except OptionError (Option Bytes) := do
  sock.check
  if stored.length = 0 then .ok none else .ok (some stored)

/-! ### What is stored -/

/-- One byte more than there are characters never goes past the terminator. -/
theorem map_memory_range (s : EncodedString) (behind : ℕ → UInt8) :
    (List.range (s.strlen + 1)).map (s.memory behind) = (s.bytes ++ [0]).take (s.strlen + 1) :=
  CString.map_buffer_range behind (Nat.succ_le_succ s.strlen_le)

theorem check_of_ne {sock : Receiver} (h : sock.state ≠ .nonexist) : sock.check = .ok () :=
  if_neg h

/-- Up to 511 characters, the setter succeeds. -/
theorem setStreamid_of_lt {sock : Receiver} (hsock : sock.state ≠ .nonexist)
    (behind : ℕ → UInt8) (stored : Bytes) {s : EncodedString} (h : s.strlen < 512) :
    setStreamid sock behind stored (.string s) =
      ((s.bytes ++ [0]).take (s.strlen + 1), .ok true) := by
  rw [setStreamid, if_neg (by omega), check_of_ne hsock]
  simp only [setsockflagStreamid, if_pos (show s.strlen + 1 ≤ 512 by omega), map_memory_range]

/-- From 512 characters on, it raises and leaves the stored id alone. -/
theorem setStreamid_of_ge (sock : Receiver) (behind : ℕ → UInt8) (stored : Bytes)
    {s : EncodedString} (h : 512 ≤ s.strlen) :
    ∃ e, setStreamid sock behind stored (.string s) = (stored, .error e) := by
  rw [setStreamid]
  split
  · exact ⟨_, rfl⟩
  · cases sock.check with
    | error e => exact ⟨e, rfl⟩
    | ok _ =>
      have hmany : ¬ s.strlen + 1 ≤ 512 := by omega
      simp only [setsockflagStreamid, if_neg hmany]
      exact ⟨_, rfl⟩

/-- **Whatever the String, an error leaves the stored id alone.** -/
theorem setStreamid_of_error {sock : Receiver} {behind : ℕ → UInt8} {stored : Bytes}
    {arg : StreamidArg} {e : OptionError}
    (h : (setStreamid sock behind stored arg).2 = .error e) :
    (setStreamid sock behind stored arg).1 = stored := by
  cases arg with
  | other className => rfl
  | string s =>
    rw [setStreamid] at h ⊢
    split at h
    · next hlong => rw [if_pos hlong]
    · next hlong =>
      rw [if_neg hlong]
      cases hcheck : sock.check with
      | error e' => rfl
      | ok _ =>
        simp only [hcheck] at h ⊢
        cases hset : setsockflagStreamid (s.memory behind) (s.strlen + 1) with
        | none => rfl
        | some bytes =>
          rw [hset] at h
          cases h

theorem getStreamid_of_ne {sock : Receiver} (hsock : sock.state ≠ .nonexist) (stored : Bytes) :
    getStreamid sock stored = .ok (if stored = [] then none else some stored) := by
  rw [getStreamid, check_of_ne hsock]
  cases stored <;> rfl

/-! ### Which Strings are stored as they are -/

/-- On a socket that exists, setting a String of at most 512 bytes succeeds; after a success the
String is what is stored, and what is read back, `nil` standing for the empty one; and after an
error the id that was stored before still is. -/
structure SetsFaithfully (sock : Receiver) (behind : ℕ → UInt8) (stored : Bytes)
    (s : EncodedString) : Prop where
  succeeds : s.bytes.length ≤ 512 →
    (setStreamid sock behind stored (.string s)).2 = .ok true
  stores : (setStreamid sock behind stored (.string s)).2 = .ok true →
    (setStreamid sock behind stored (.string s)).1 = s.bytes
  reads : (setStreamid sock behind stored (.string s)).2 = .ok true →
    getStreamid sock (setStreamid sock behind stored (.string s)).1 =
      .ok (if s.bytes = [] then none else some s.bytes)
  keeps : ∀ e, (setStreamid sock behind stored (.string s)).2 = .error e →
    (setStreamid sock behind stored (.string s)).1 = stored

/-- **Which Strings are stored as they are, or refused**: those of at most 512 bytes with exactly
one byte more than characters, and those of more bytes with at least 512 characters. -/
theorem setsFaithfully_iff {sock : Receiver} (hsock : sock.state ≠ .nonexist)
    (behind : ℕ → UInt8) (stored : Bytes) (s : EncodedString) :
    SetsFaithfully sock behind stored s ↔
      s.bytes.length ≤ 512 ∧ s.bytes.length = s.strlen + 1 ∨
        512 < s.bytes.length ∧ 512 ≤ s.strlen := by
  have hchars := s.strlen_le
  rcases Nat.lt_or_ge s.strlen 512 with hlt | hge
  · have hset := setStreamid_of_lt hsock behind stored hlt
    constructor
    · intro hfaithful
      have hstores := hfaithful.stores (congrArg Prod.snd hset)
      rw [hset, CString.take_succ_eq_iff hchars] at hstores
      exact Or.inl ⟨by omega, hstores.symm⟩
    · rintro (⟨-, hlength⟩ | ⟨-, hmany⟩)
      · have hbytes := (CString.take_succ_eq_iff hchars).mpr hlength.symm
        rw [hbytes] at hset
        refine ⟨fun _ => congrArg Prod.snd hset, fun _ => congrArg Prod.fst hset, fun _ => ?_,
          fun e he => setStreamid_of_error he⟩
        rw [hset, getStreamid_of_ne hsock]
      · omega
  · obtain ⟨e, hset⟩ := setStreamid_of_ge sock behind stored hge
    have hraises : (setStreamid sock behind stored (.string s)).2 ≠ .ok true := by
      rw [hset]
      intro hok
      cases hok
    constructor
    · intro hfaithful
      refine Or.inr ⟨?_, hge⟩
      by_contra hshort
      exact hraises (hfaithful.succeeds (by omega))
    · rintro (⟨hshort, hlength⟩ | ⟨hlong, -⟩)
      · omega
      · refine ⟨fun hshort => ?_, fun hok => absurd hok hraises, fun hok => absurd hok hraises,
          fun e' he' => setStreamid_of_error he'⟩
        omega

/-- An `SRT::Socket` that is there. -/
def openedSocket : Receiver := ⟨"SRT::Socket", .opened⟩

/-- One character of a single byte, and one of two. -/
def mixed : EncodedString := ⟨[[0x63], [0xc3, 0xa9]], by decide⟩

/-- The two errors cancel out. -/
theorem setsFaithfully_mixed : SetsFaithfully openedSocket (fun _ => 0) [] mixed :=
  (setsFaithfully_iff (by decide) (fun _ => 0) [] mixed).mpr (Or.inl (by decide))

/-- Three characters of single bytes. -/
def foo : EncodedString := ⟨[[0x66], [0x6f], [0x6f]], by decide⟩

/-- Two characters of two bytes. -/
def wide : EncodedString := ⟨[[0xc3, 0xa9], [0xc3, 0xa9]], by decide⟩

/-- `512` characters of single bytes. -/
def longest : EncodedString :=
  ⟨List.replicate 512 [0x61], fun c hc => by simp [List.eq_of_mem_replicate hc]⟩

/-- `foo` is stored with the terminator behind it, of `wide` three bytes are stored, and a String of
`512` bytes is refused. -/
theorem not_setsFaithfully :
    ¬ SetsFaithfully openedSocket (fun _ => 0) [] foo ∧
      ¬ SetsFaithfully openedSocket (fun _ => 0) [] wide ∧
      ¬ SetsFaithfully openedSocket (fun _ => 0) [] longest := by
  refine ⟨fun hfaithful => ?_, fun hfaithful => ?_, fun hfaithful => ?_⟩
  · exact absurd (hfaithful.stores rfl) (by decide)
  · exact absurd (hfaithful.stores rfl) (by decide)
  · have hchars : 512 ≤ longest.strlen := Nat.le_of_eq List.length_replicate.symm
    obtain ⟨e, hset⟩ := setStreamid_of_ge openedSocket (fun _ => 0) [] hchars
    have hbytes : longest.bytes.length ≤ 512 := by
      change (List.replicate 512 [0x61]).flatten.length ≤ 512
      rw [List.length_flatten, List.map_replicate, List.sum_replicate_nat]
      decide
    have hok := hfaithful.succeeds hbytes
    rw [hset] at hok
    cases hok

end Rbsrt
