import Mathlib.Data.List.Infix
import Rbsrt.General.CString
import Rbsrt.Socket.Bind

/-!
# `Socket#connect`, and the errors of libsrt

`rbsrt_socket_connect` has the host and the port resolved and tries the addresses one after the
other. It forgets all failures but the last, and raises that one if there is no success. Before the
first attempt the last error is cleared, so an empty list would raise an error with no code.

An error of libsrt is raised as an instance of a class of its own, one of thirty-seven, or of
`SRT::Error`. Every class has the constant `Code`. The values of the codes are libsrt's; that they
are different is what the `switch` is compiled with.

## Main results

* `code_errorWithSrtErrorCode` — an error keeps its code
* `connectLoop_cases` — the loop
* `connect_cases` — which addresses are tried, and what is returned or raised
-/

namespace Rbsrt

open Binding

/-! ### Errors -/

/-- `SRT_ERRNO`, as far as there is a class for it. -/
inductive SrtErrno
  | unknown | connsetup | noserver | connrej | sockfail | secfail | connfail | connlost | noconn
  | resource | thread | nobuf | file | invrdoff | rdperm | invwroff | wrperm | invop | boundsock
  | connsock | invparam | invsock | unboundsock | nolisten | rdvnoserv | rdvunbound | invalmsgapi
  | invalbufferapi | duplisten | largemsg | invpollid | asyncfail | asyncsnd | asyncrcv | timeout
  | congest | peererr
deriving DecidableEq

/-- The `case` labels of `rbstr_error_with_srt_error_code`, in order. -/
def SrtErrno.all : List SrtErrno :=
  [.unknown, .connsetup, .noserver, .connrej, .sockfail, .secfail, .connfail, .connlost, .noconn,
    .resource, .thread, .nobuf, .file, .invrdoff, .rdperm, .invwroff, .wrperm, .invop, .boundsock,
    .connsock, .invparam, .invsock, .unboundsock, .nolisten, .rdvnoserv, .rdvunbound, .invalmsgapi,
    .invalbufferapi, .duplisten, .largemsg, .invpollid, .asyncfail, .asyncsnd, .asyncrcv, .timeout,
    .congest, .peererr]

theorem SrtErrno.mem_all (e : SrtErrno) : e ∈ all := by cases e <;> decide

/-- libsrt's values. -/
structure SrtCodes where
  code : SrtErrno → ℤ
  injective : ∀ e e', code e = code e' → e = e'

/-- `SRT::Error` and its subclasses. -/
inductive ErrorClass
  | error
  | named (e : SrtErrno)
deriving DecidableEq

variable (codes : SrtCodes)

/-- `rbstr_error_with_srt_error_code(error_code)` -/
def errorWithSrtErrorCode (errorCode : ℤ) : ErrorClass :=
  match SrtErrno.all.find? fun e => codes.code e = errorCode with
  | some e => .named e
  | none => .error

/-- The constant `Code` of a class, which `rbsrt_error_get_code` returns. -/
def ErrorClass.code : ErrorClass → ℤ
  | .error => 0
  | .named e => codes.code e

/-- **An error keeps its code**, if there is a class for it, and has the code `0` otherwise. -/
theorem code_errorWithSrtErrorCode (errorCode : ℤ) :
    (∃ e, codes.code e = errorCode ∧ errorWithSrtErrorCode codes errorCode = .named e ∧
        (errorWithSrtErrorCode codes errorCode).code codes = errorCode) ∨
      ((∀ e, codes.code e ≠ errorCode) ∧ errorWithSrtErrorCode codes errorCode = .error ∧
        (errorWithSrtErrorCode codes errorCode).code codes = 0) := by
  rw [errorWithSrtErrorCode]
  cases hfind : SrtErrno.all.find? fun e => codes.code e = errorCode with
  | some e =>
    have hcode : codes.code e = errorCode := by simpa using List.find?_some hfind
    exact Or.inl ⟨e, hcode, rfl, hcode⟩
  | none =>
    refine Or.inr ⟨fun e => ?_, rfl, rfl⟩
    simpa using List.find?_eq_none.mp hfind e (SrtErrno.mem_all e)

/-! ### Connecting -/

/-- `ai_family` -/
inductive Family
  | inet
  | inet6
  | other (n : ℕ)
deriving DecidableEq

/-- `struct addrinfo` -/
structure Addrinfo where
  family : Family
  addr : Bytes
deriving DecidableEq

/-- `int ipv6only = 0` -/
def ipv6only : Bool := false

/-- `int ipv4only = 0` -/
def ipv4only : Bool := false

/-- The condition of the `continue`. -/
def Addrinfo.skipped (p : Addrinfo) : Bool :=
  (p.family = .inet && ipv6only) || (p.family = .inet6 && ipv4only)

theorem skipped_eq_false (p : Addrinfo) : p.skipped = false := by
  simp [Addrinfo.skipped, ipv6only, ipv4only]

/-- The results of the calls of `srt_connect`, by number of the call: the last error after it, or
`none` for a success. -/
abbrev SrtConnect := ℕ → Addrinfo → Option ℤ

/-- The loop, with the number of calls and the last error so far: the addresses it calls
`srt_connect` with, and the last error if it finds no success. -/
def connectLoop (srt : SrtConnect) : ℕ → ℤ → List Addrinfo → List Addrinfo × Option ℤ
  | _, last, [] => ([], some last)
  | k, last, p :: ps =>
    if p.skipped then connectLoop srt k last ps
    else
      match srt k p with
      | some errorCode =>
        let rest := connectLoop srt (k + 1) errorCode ps
        (p :: rest.1, rest.2)
      | none => ([p], none)

/-- What `connect` raises. -/
inductive ConnectError
  | method (e : MethodError)
  | srt (klass : ErrorClass)
deriving DecidableEq

/-- `getaddrinfo(host, port)`: the addresses, or what `gai_strerror` says. It is given C strings. -/
abbrev Getaddrinfo := Bytes → Bytes → Except String (List Addrinfo)

/-- What `rbsrt_socket_connect` does before the loop. -/
def servinfo (sock : Receiver) (resolve : Getaddrinfo) (host port : RubyArg) :
    Except MethodError (List Addrinfo) := do
  let host ← checkType host
  let port ← checkType port
  sock.check.mapError .option
  (resolve (CString.text host) (CString.text port)).mapError fun message =>
    .option (.rbsrtStandard ("failed to get address info: " ++ message))

/-- `rbsrt_socket_connect(self, host, port)`, with the addresses it calls `srt_connect` with. -/
def connect (sock : Receiver) (resolve : Getaddrinfo) (srt : SrtConnect) (host port : RubyArg) :
    List Addrinfo × Except ConnectError Bool :=
  match servinfo sock resolve host port with
  | .error e => ([], .error (.method e))
  | .ok ps =>
    match connectLoop srt 0 0 ps with
    | (tried, none) => (tried, .ok true)
    | (tried, some errorCode) => (tried, .error (.srt (errorWithSrtErrorCode codes errorCode)))

/-! ### Which addresses are tried -/

/-- The calls from the `k`-th on fail for all of these addresses. -/
def AllFail (srt : SrtConnect) (k : ℕ) (ps : List Addrinfo) : Prop :=
  ∀ i (hi : i < ps.length), ∃ errorCode, srt (k + i) (ps.get ⟨i, hi⟩) = some errorCode

theorem AllFail.cons {srt : SrtConnect} {k : ℕ} {p : Addrinfo} {ps : List Addrinfo} {errorCode : ℤ}
    (hp : srt k p = some errorCode) (hps : AllFail srt (k + 1) ps) : AllFail srt k (p :: ps) := by
  intro i hi
  cases i with
  | zero => exact ⟨errorCode, hp⟩
  | succ i =>
    have hlater := hps i (Nat.lt_of_succ_lt_succ hi)
    rwa [Nat.add_right_comm] at hlater

/-- The error of the last of these calls, or the one before them. -/
def lastError (srt : SrtConnect) (k : ℕ) (last : ℤ) : List Addrinfo → ℤ
  | [] => last
  | p :: ps => lastError srt (k + 1) ((srt k p).getD last) ps

/-- **The loop.** It stops at the first success, and goes through all of the addresses if there is
none. -/
theorem connectLoop_cases (srt : SrtConnect) (k : ℕ) (last : ℤ) (ps : List Addrinfo) :
    (∃ before p after, ps = before ++ p :: after ∧ AllFail srt k before ∧
        srt (k + before.length) p = none ∧
        connectLoop srt k last ps = (before ++ [p], none)) ∨
      (AllFail srt k ps ∧ connectLoop srt k last ps = (ps, some (lastError srt k last ps))) := by
  induction ps generalizing k last with
  | nil => exact Or.inr ⟨fun i hi => absurd hi (Nat.not_lt_zero i), rfl⟩
  | cons p ps ih =>
    rw [connectLoop, if_neg (by simp [skipped_eq_false p])]
    cases hp : srt k p with
    | none =>
      exact Or.inl ⟨[], p, ps, rfl, fun i hi => absurd hi (Nat.not_lt_zero i), hp, rfl⟩
    | some errorCode =>
      rcases ih (k + 1) errorCode with ⟨before, q, after, rfl, hfail, hq, hloop⟩ | ⟨hfail, hloop⟩
      · refine Or.inl ⟨p :: before, q, after, rfl, hfail.cons hp, ?_, ?_⟩
        · rwa [List.length_cons, Nat.add_comm before.length 1, ← Nat.add_assoc]
        · simp only [hloop]
          rfl
      · refine Or.inr ⟨hfail.cons hp, ?_⟩
        simp only [hloop, lastError, hp]
        rfl

theorem servinfo_of_resolve {sock : Receiver} (hsock : sock.state ≠ .nonexist)
    {resolve : Getaddrinfo} {host port : Bytes} {ps : List Addrinfo}
    (hresolve : resolve (CString.text host) (CString.text port) = .ok ps) :
    servinfo sock resolve (.string host) (.string port) = .ok ps := by
  simp only [servinfo, checkType, check_of_ne hsock]
  show (resolve (CString.text host) (CString.text port)).mapError _ = .ok ps
  rw [hresolve]
  rfl

/-- **Connecting** to a host that can be resolved: the addresses are tried in order, up to the first
that answers, and then `true` is returned; or all of them are, and what is raised is the error of
the last one. -/
theorem connect_cases {sock : Receiver} (hsock : sock.state ≠ .nonexist) {resolve : Getaddrinfo}
    (srt : SrtConnect) {host port : Bytes} {ps : List Addrinfo}
    (hresolve : resolve (CString.text host) (CString.text port) = .ok ps) :
    (∃ before p, before ++ [p] <+: ps ∧ AllFail srt 0 before ∧ srt before.length p = none ∧
        connect codes sock resolve srt (.string host) (.string port) =
          (before ++ [p], .ok true)) ∨
      (AllFail srt 0 ps ∧
        connect codes sock resolve srt (.string host) (.string port) =
          (ps, .error (.srt (errorWithSrtErrorCode codes (lastError srt 0 0 ps))))) := by
  simp only [connect, servinfo_of_resolve hsock hresolve]
  rcases connectLoop_cases srt 0 0 ps with ⟨before, p, after, rfl, hfail, hp, hloop⟩ |
    ⟨hfail, hloop⟩
  · refine Or.inl ⟨before, p, ⟨after, by simp⟩, hfail, by simpa using hp, ?_⟩
    rw [hloop]
  · refine Or.inr ⟨hfail, ?_⟩
    rw [hloop]

/-- The values in the order of `SrtErrno.all`. -/
def errnoValues : List ℤ :=
  [-1, 1000, 1001, 1002, 1003, 1004, 2000, 2001, 2002, 3000, 3001, 3002, 4000, 4001, 4002, 4003,
    4004, 5000, 5001, 5002, 5003, 5004, 5005, 5006, 5007, 5008, 5009, 5010, 5011, 5012, 5013, 6000,
    6001, 6002, 6003, 6004, 7000]

def srtCodes : SrtCodes where
  code := fun e => ((SrtErrno.all.zip errnoValues).lookup e).getD 0
  injective := fun e e' => by
    have hnodup : (SrtErrno.all.map fun e =>
        ((SrtErrno.all.zip errnoValues).lookup e).getD 0).Nodup := by decide
    exact fun heq => List.inj_on_of_nodup_map hnodup (SrtErrno.mem_all e) (SrtErrno.mem_all e') heq

/-- `"localhost"` -/
def localhost : Bytes := [108, 111, 99, 97, 108, 104, 111, 115, 116]

/-- `"5554"` -/
def port5554 : Bytes := [53, 53, 53, 52]

/-- The two under an address of each family. -/
def loopback : List Addrinfo :=
  [⟨.inet6, [0, 0, 0, 0, 0, 0, 0, 0, 0, 0, 0, 0, 0, 0, 0, 1]⟩, ⟨.inet, [127, 0, 0, 1]⟩]

/-- Whatever is asked for is found there. -/
def resolveLoopback : Getaddrinfo := fun _ _ => .ok loopback

/-- The first of the two is refused. -/
def refuseInet6 : SrtConnect := fun _ p => if p.family = .inet6 then some 1002 else none

/-- The second address is the one that answers. -/
theorem connect_loopback :
    connect srtCodes openedSocket resolveLoopback refuseInet6 (.string localhost)
      (.string port5554) = (loopback, .ok true) := by
  have hsock : openedSocket.state ≠ .nonexist := by decide
  have hresolve : resolveLoopback (CString.text localhost) (CString.text port5554) =
      .ok loopback := rfl
  rcases connect_cases srtCodes hsock refuseInet6 hresolve with
    ⟨before, p, ⟨after, hafter⟩, -, hp, hconnect⟩ | ⟨hfail, -⟩
  · rcases before with _ | ⟨q, _ | ⟨r, before⟩⟩
    · obtain ⟨rfl, -⟩ := List.cons.inj hafter
      cases hp
    · obtain ⟨rfl, htail⟩ := List.cons.inj hafter
      obtain ⟨rfl, -⟩ := List.cons.inj htail
      exact hconnect
    · simp [loopback] at hafter
  · obtain ⟨errorCode, hanswers⟩ := hfail 1 (by decide)
    cases hanswers

end Rbsrt
