import Rbsrt.General.CString
import Rbsrt.Socket.Ownership
import Rbsrt.Socket.StreamIDOption

/-!
# `Socket#bind` and `SRT::Server.new`

Both take an address and a port as Strings. The address is read by `inet_pton`, which says whether
it is one, and the methods raise if it is not. The port is read by `atoi`, which says nothing, and
the number it returns is cut down to sixteen bits by `htons`. Whatever the port is, some port is
handed to `srt_bind`.

## Main results

* `htons_atoi_of_isNumeral` — the port a numeral is taken for
* `socketBind_fst`, `serverInitialize_fst` — what `srt_bind` is handed
* `serverInitialize_eq_exit` — how a server ends up, seen from the socket it creates
* `bindsExactly_iff` — the ports that are bound, or refused, as they should be
-/

namespace Rbsrt

open CString

namespace Binding

/-! ### Addresses -/

/-- `struct sockaddr_in`: the port it stands for, and the four bytes of the address. -/
structure SockaddrIn where
  port : ℕ
  addr : List ℕ
deriving DecidableEq

/-- `htons(x)`, as the port number it stands for. -/
def htons (x : ℤ) : ℕ := (x % 65536).toNat

/-- One of the four numbers of an address: up to three digits, no zero in front. -/
def octet (s : Bytes) : Option ℕ :=
  if s.length ≤ 3 ∧ IsNumeral s ∧ (s.length = 1 ∨ s.head? ≠ some 48) ∧ decimal s ≤ 255 then
    some (decimal s)
  else none

/-- `inet_pton(AF_INET, s, &addr)`: four numbers with dots in between. -/
def inetPton (s : Bytes) : Option (List ℕ) :=
  if (s.splitOn 46).length = 4 then (s.splitOn 46).mapM octet else none

/-! ### The two methods -/

/-- What the methods can be called with. -/
inductive RubyArg
  | string (bytes : Bytes)
  | other (className : String)

/-- `Check_Type(arg, T_STRING)` -/
def checkType : RubyArg → Except MethodError Bytes
  | .string bytes => .ok bytes
  | .other className =>
    .error (.option (.type ("wrong argument type " ++ className ++ " (expected String)")))

/-- What the methods meet: `strerror(errno)`, the socket that is created for a server, whether
`srt_bind` and `srt_listen` succeed, and `srt_getlasterror_str()`. -/
structure Answers where
  strerror : String
  created : SRTSOCKET
  bound : Bool
  listening : Bool
  lastError : String

/-- The address to bind to. -/
def sockaddr (a : Answers) (address port : Bytes) : Except MethodError SockaddrIn :=
  match inetPton (text address) with
  | some addr => .ok ⟨htons (atoi (text port)), addr⟩
  | none => .error (.argument ("bad adddress: " ++ a.strerror))

/-- `rbsrt_socket_bind` up to the call of `srt_bind`. -/
def bindAddress (sock : Receiver) (a : Answers) (address port : RubyArg) :
    Except MethodError SockaddrIn := do
  let address ← checkType address
  let port ← checkType port
  sock.check.mapError .option
  sockaddr a address port

/-- `rbsrt_socket_bind(self, address, port)`, with what `srt_bind` is handed. -/
def socketBind (sock : Receiver) (a : Answers) (address port : RubyArg) :
    Option SockaddrIn × Except MethodError Bool :=
  match bindAddress sock a address port with
  | .error e => (none, .error e)
  | .ok sa => (some sa, if a.bound then .ok true else .error (.option .srt))

/-- `rbsrt_server_initialize` up to the call of `srt_bind`. -/
def serverAddress (a : Answers) (address port : RubyArg) : Except MethodError SockaddrIn := do
  let address ← checkType address
  let port ← checkType port
  if a.created = SRT_INVALID_SOCK then .error (.standard a.lastError)
  else sockaddr a address port

/-- `rbsrt_server_initialize(self, address, port)`, with what `srt_bind` is handed. -/
def serverInitialize (a : Answers) (address port : RubyArg) :
    Option SockaddrIn × Except MethodError Bool :=
  match serverAddress a address port with
  | .error e => (none, .error e)
  | .ok sa =>
    (some sa,
      if a.bound = false then .error (.standard a.lastError)
      else if a.listening = false then .error (.standard a.lastError)
      else .ok true)

variable {sock : Receiver} {a : Answers} {address port : Bytes}

/-! ### What is bound -/

theorem sockaddr_of_isSome (haddr : (inetPton (text address)).isSome) (port : Bytes) :
    ∃ sa, sockaddr a address port = .ok sa ∧ sa.port = htons (atoi (text port)) := by
  obtain ⟨addr, h⟩ := Option.isSome_iff_exists.mp haddr
  rw [sockaddr, h]
  exact ⟨_, rfl, rfl⟩

/-- **`srt_bind` is handed** whatever the port is read as. -/
theorem socketBind_fst (hsock : sock.state ≠ .nonexist)
    (haddr : (inetPton (text address)).isSome) (port : Bytes) :
    ∃ sa, (socketBind sock a (.string address) (.string port)).1 = some sa ∧
      sa.port = htons (atoi (text port)) := by
  obtain ⟨sa, hsa, hport⟩ := sockaddr_of_isSome (a := a) haddr port
  have hbind : bindAddress sock a (.string address) (.string port) = .ok sa := by
    rw [bindAddress, check_of_ne hsock]
    exact hsa
  rw [socketBind, hbind]
  exact ⟨sa, rfl, hport⟩

theorem serverAddress_string (a : Answers) (address port : Bytes) :
    serverAddress a (.string address) (.string port) =
      if a.created = SRT_INVALID_SOCK then .error (.standard a.lastError)
      else sockaddr a address port := rfl

/-- So it is by a server. -/
theorem serverInitialize_fst (hcreated : a.created ≠ SRT_INVALID_SOCK)
    (haddr : (inetPton (text address)).isSome) (port : Bytes) :
    ∃ sa, (serverInitialize a (.string address) (.string port)).1 = some sa ∧
      sa.port = htons (atoi (text port)) := by
  obtain ⟨sa, hsa, hport⟩ := sockaddr_of_isSome (a := a) haddr port
  rw [serverInitialize, serverAddress_string, if_neg hcreated, hsa]
  exact ⟨sa, rfl, hport⟩

/-- **A numeral** is taken for its value, cut down to sixteen bits. -/
theorem htons_atoi_of_isNumeral (h : IsNumeral port) :
    htons (atoi (text port)) = decimal port % 65536 := by
  rw [text_eq_self h.zero_not_mem, atoi_of_isNumeral h, htons]
  omega

/-! ### The socket of a server

`Ownership.serverInitialize` is the same function as far as its socket goes: what it meets is
whether its arguments are Strings and the address is one, not what they are. -/

/-- `T_STRING` -/
def RubyArg.isString : RubyArg → Bool
  | .string _ => true
  | .other _ => false

/-- The address can be read. -/
def RubyArg.isAddress : RubyArg → Bool
  | .string bytes => (inetPton (text bytes)).isSome
  | .other _ => false

/-- What the socket of a server meets. -/
def Answers.ofSocket (a : Answers) (address port : RubyArg) : Ownership.ServerAnswers where
  strings := address.isString && port.isString
  created := a.created
  inetPton := address.isAddress
  bind := a.bound
  listen := a.listening

/-- `srt_bind` was called before it ended. -/
def reachesBind : Ownership.ServerExit → Bool
  | .bindFailed | .listenFailed | .returned => true
  | .wrongType | .createFailed | .badAddress => false

/-- **How a server ends up** is the same in both: `srt_bind` is called by those that get that far,
and the method returns in one case and raises in all others. -/
theorem serverInitialize_eq_exit (a : Answers) (address port : RubyArg) (k : ℕ)
    (s : Ownership.World) :
    (serverInitialize a address port).1.isSome =
        reachesBind (Ownership.serverInitialize k (a.ofSocket address port) s).2 ∧
      ((serverInitialize a address port).2 = .ok true ↔
        (Ownership.serverInitialize k (a.ofSocket address port) s).2 = .returned) := by
  cases address with
  | other className => exact ⟨rfl, iff_of_false (by rintro ⟨⟩) (by rintro ⟨⟩)⟩
  | string address =>
    cases port with
    | other className => exact ⟨rfl, iff_of_false (by rintro ⟨⟩) (by rintro ⟨⟩)⟩
    | string port =>
      rw [serverInitialize, serverAddress_string, Ownership.serverInitialize]
      simp only [Answers.ofSocket, RubyArg.isString, RubyArg.isAddress, Bool.and_self]
      by_cases hcreated : a.created = SRT_INVALID_SOCK
      · simp [hcreated, reachesBind]
      · rcases hpton : inetPton (text address) with _ | addr
        · simp [hcreated, sockaddr, hpton, reachesBind]
        · cases a.bound <;> cases a.listening <;> simp [hcreated, sockaddr, hpton, reachesBind]

/-! ### Which ports are bound as they are named -/

/-- The String is a decimal numeral of this number. -/
def Denotes (port : Bytes) (n : ℕ) : Prop := IsNumeral port ∧ decimal port = n

/-- The String is a decimal numeral of a port. -/
def IsPort (port : Bytes) : Prop := ∃ n ≤ 65535, Denotes port n

/-- `srt_bind` is handed the port that is named, and for a String that names none, it is not called
and the method raises. -/
structure BindsExactly (r : Option SockaddrIn × Except MethodError Bool) (port : Bytes) : Prop where
  binds : ∀ n, (∃ sa, r.1 = some sa ∧ sa.port = n) ↔ Denotes port n ∧ n ≤ 65535
  refuses : ¬ IsPort port → r.1 = none ∧ ∃ e, r.2 = .error e

theorem bindsExactly_of_fst {r : Option SockaddrIn × Except MethodError Bool}
    (h : ∃ sa, r.1 = some sa ∧ sa.port = htons (atoi (text port))) :
    BindsExactly r port ↔ IsPort port := by
  obtain ⟨sa, hsa, hport⟩ := h
  constructor
  · intro hexact
    by_contra hnot
    rw [(hexact.refuses hnot).1] at hsa
    cases hsa
  · rintro ⟨m, hm, hnumeral, hvalue⟩
    have hport : sa.port = m := by
      rw [hport, htons_atoi_of_isNumeral hnumeral, hvalue]
      omega
    refine ⟨fun n => ?_, fun hnot => absurd ⟨m, hm, hnumeral, hvalue⟩ hnot⟩
    constructor
    · rintro ⟨sa', hsa', rfl⟩
      obtain rfl := Option.some.inj (hsa.symm.trans hsa')
      exact ⟨⟨hnumeral, hvalue.trans hport.symm⟩, hport ▸ hm⟩
    · rintro ⟨⟨-, hn⟩, -⟩
      exact ⟨sa, hsa, hport.trans (hvalue.symm.trans hn)⟩

/-- **Which ports are bound as they are named, or refused**: by both methods, those that are
decimal numerals of a port. -/
theorem bindsExactly_iff (hsock : sock.state ≠ .nonexist)
    (hcreated : a.created ≠ SRT_INVALID_SOCK) (haddr : (inetPton (text address)).isSome)
    (port : Bytes) :
    (BindsExactly (socketBind sock a (.string address) (.string port)) port ↔ IsPort port) ∧
      (BindsExactly (serverInitialize a (.string address) (.string port)) port ↔ IsPort port) :=
  ⟨bindsExactly_of_fst (socketBind_fst hsock haddr port),
    bindsExactly_of_fst (serverInitialize_fst hcreated haddr port)⟩

/-- Everything succeeds. -/
def smooth : Answers := ⟨"Success", 1, true, true, "Success"⟩

/-- `127.0.0.1` -/
def localhost : Bytes := [49, 50, 55, 46, 48, 46, 48, 46, 49]

/-- `5555` -/
theorem bindsExactly_5555 :
    BindsExactly (socketBind openedSocket smooth (.string localhost) (.string [53, 53, 53, 53]))
        [53, 53, 53, 53] ∧
      BindsExactly (serverInitialize smooth (.string localhost) (.string [53, 53, 53, 53]))
        [53, 53, 53, 53] := by
  have hport : IsPort [53, 53, 53, 53] := ⟨5555, by decide, by decide, by decide⟩
  have hsock : openedSocket.state ≠ .nonexist := by decide
  have hcreated : smooth.created ≠ SRT_INVALID_SOCK := by decide
  have haddr : (inetPton (text localhost)).isSome := by decide
  have h := bindsExactly_iff hsock hcreated haddr [53, 53, 53, 53]
  exact ⟨h.1.mpr hport, h.2.mpr hport⟩

/-- `70000` is bound as 4464, `80abc` as 80, and the empty String as any port. -/
theorem not_bindsExactly :
    ¬ BindsExactly
        (socketBind openedSocket smooth (.string localhost) (.string [55, 48, 48, 48, 48]))
        [55, 48, 48, 48, 48] ∧
      ¬ BindsExactly
        (socketBind openedSocket smooth (.string localhost) (.string [56, 48, 97, 98, 99]))
        [56, 48, 97, 98, 99] ∧
      ¬ BindsExactly (serverInitialize smooth (.string localhost) (.string [])) [] := by
  refine ⟨fun h => ?_, fun h => ?_, fun h => ?_⟩
  · have hdenotes := (h.binds 4464).mp ⟨⟨4464, [127, 0, 0, 1]⟩, by decide, rfl⟩
    exact absurd hdenotes.1.2 (by decide)
  · have hdenotes := (h.binds 80).mp ⟨⟨80, [127, 0, 0, 1]⟩, by decide, rfl⟩
    exact absurd hdenotes.1.1 (by decide)
  · have hdenotes := (h.binds 0).mp ⟨⟨0, [127, 0, 0, 1]⟩, by decide, rfl⟩
    exact absurd hdenotes.1.1 (by decide)

end Binding

end Rbsrt
