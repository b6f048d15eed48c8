import Rbsrt.General.CString
import Rbsrt.Socket.StreamIDOption

/-!
# `#passphrase=`

`rbsrt_socket_set_passphrase` measures a String up to its first NUL, looking at no more than twice
the largest size, and accepts it if it is empty or has between 10 and 79 bytes. Then it hands
libsrt that many bytes and one more.

The byte too many is the terminator, or the NUL the measuring stopped at. So an accepted
passphrase is never installed as it is, unless it happens to end with its only NUL; it is cut at a
NUL further up; and the empty one is handed over as one byte, which libsrt does not take.

## Main results

* `setPassphrase_of_accepted`, `exists_error_of_not_accepted` — what is installed, and when the
  setter raises
* `installsExactly_iff` — the passphrases that are installed as they are, or refused
-/

namespace Rbsrt

open CString

/-- `RBSRT_PASSPHRASE_MIN` -/
def passphraseMin : ℕ := 10

/-- `RBSRT_PASSPHRASE_MAX` -/
def passphraseMax : ℕ := 79

/-- `srt_setsockflag(socket, SRTO_PASSPHRASE, p, n)`: the `n` bytes at `p` become the secret, no
bytes standing for no secret; from one to nine bytes are rejected. -/
def setsockflagPassphrase (memory : ℕ → UInt8) (n : ℕ) : Option Bytes :=
  if 0 < n ∧ n < 10 then none else some ((List.range n).map memory)

/-- What `passphrase=` can be called with. -/
inductive PassphraseArg
  | nil
  | string (passphrase : Bytes)
  | other (className : String)

/-- The error about the size, with the size that was measured. -/
def sizeError (length : ℕ) : MethodError :=
  .argument ("passphrase must be between " ++ toString passphraseMin ++ " and " ++
    toString passphraseMax ++ " characters or empty (got " ++ toString length ++ ")")

/-- The `switch`: the buffer and the size handed to libsrt. The buffer of a String is never
`NULL`. -/
def passphraseBuf (behind : ℕ → UInt8) :
    PassphraseArg → Except MethodError ((ℕ → UInt8) × ℕ)
  -- `NULL`, of which no byte is read
  | .nil => .ok (fun _ => 0, 0)
  | .string passphrase =>
    let length := strnlen (buffer passphrase behind) (passphraseMax * 2)
    if length ≠ 0 ∧ (length < passphraseMin ∨ passphraseMax < length) then
      .error (sizeError length)
    else .ok (buffer passphrase behind, length + 1)
  | .other className =>
    .error (.option (.type ("wrong argument type " ++ className ++ " (expected String)")))

/-- `rbsrt_socket_set_passphrase(self, passphrase)`, with the secret before and after. -/
def setPassphrase (sock : Receiver) (behind : ℕ → UInt8) (secret : Bytes) (arg : PassphraseArg) :
    Bytes × Except MethodError Bool :=
  match passphraseBuf behind arg with
  | .error e => (secret, .error e)
  | .ok (memory, n) =>
    match sock.check with
    | .error e => (secret, .error (.option e))
    | .ok () =>
      match setsockflagPassphrase memory n with
      | none => (secret, .error (.option .srt))
      | some bytes => (bytes, .ok true)

variable {sock : Receiver} {behind : ℕ → UInt8} {secret p : Bytes}

/-! ### What is installed -/

/-- The text of the String is of an accepted size, and not empty. -/
def AcceptedText (p : Bytes) : Prop := 10 ≤ (text p).length ∧ (text p).length ≤ 79

instance (p : Bytes) : Decidable (AcceptedText p) := inferInstanceAs (Decidable (_ ∧ _))

theorem passphraseBuf_string (behind : ℕ → UInt8) (p : Bytes) :
    passphraseBuf behind (.string p) =
      if (text p).length ≠ 0 ∧ ¬ AcceptedText p then
        .error (sizeError (min (text p).length 158))
      else .ok (buffer p behind, min (text p).length 158 + 1) := by
  have hlength : strnlen (buffer p behind) (passphraseMax * 2) = min (text p).length 158 :=
    strnlen_buffer p behind 158
  have hcond : (min (text p).length 158 ≠ 0 ∧
      (min (text p).length 158 < passphraseMin ∨ passphraseMax < min (text p).length 158)) ↔
      (text p).length ≠ 0 ∧ ¬ AcceptedText p := by
    rw [AcceptedText, passphraseMin, passphraseMax]
    omega
  simp only [passphraseBuf, hlength, hcond]

/-- **An accepted String** is installed up to its first NUL or its end, with one byte more. -/
theorem setPassphrase_of_accepted (hsock : sock.state ≠ .nonexist) (behind : ℕ → UInt8)
    (secret : Bytes) (h : AcceptedText p) :
    setPassphrase sock behind secret (.string p) =
      ((p ++ [0]).take ((text p).length + 1), .ok true) := by
  have hbuf := passphraseBuf_string behind p
  obtain ⟨hmin, hmax⟩ := h
  rw [if_neg fun hnot => hnot.2 ⟨hmin, hmax⟩, Nat.min_eq_left (by omega)] at hbuf
  have hle : (text p).length + 1 ≤ p.length + 1 := Nat.succ_le_succ (length_text_le p)
  have hflag : ¬ (0 < (text p).length + 1 ∧ (text p).length + 1 < 10) := by omega
  rw [setPassphrase, hbuf]
  simp only [check_of_ne hsock, setsockflagPassphrase, if_neg hflag, map_buffer_range behind hle]

/-- **Any other String** is refused, by the setter or, if there is no text at all, by libsrt. -/
theorem exists_error_of_not_accepted (sock : Receiver) (behind : ℕ → UInt8) (secret : Bytes)
    (h : ¬ AcceptedText p) :
    ∃ e, setPassphrase sock behind secret (.string p) = (secret, .error e) := by
  have hbuf := passphraseBuf_string behind p
  by_cases hempty : (text p).length = 0
  · rw [if_neg fun hnot => hnot.1 hempty, hempty] at hbuf
    rw [setPassphrase, hbuf]
    cases sock.check with
    | error e => exact ⟨_, rfl⟩
    | ok _ => exact ⟨_, rfl⟩
  · rw [if_pos ⟨hempty, h⟩] at hbuf
    rw [setPassphrase, hbuf]
    exact ⟨_, rfl⟩

/-- `nil` takes the secret away. -/
theorem setPassphrase_nil (hsock : sock.state ≠ .nonexist) (behind : ℕ → UInt8) (secret : Bytes) :
    setPassphrase sock behind secret .nil = ([], .ok true) := by
  simp [setPassphrase, passphraseBuf, check_of_ne hsock, setsockflagPassphrase]

/-! ### Which passphrases are installed as they are -/

/-- A passphrase that is to be accepted: an empty one, or one of 10 to 79 bytes. -/
def Acceptable (p : Bytes) : Prop := p = [] ∨ 10 ≤ p.length ∧ p.length ≤ 79

/-- The setter returns `true` for the passphrases that are to be accepted, raises for all others
and leaves the secret alone, and after a success the secret is the passphrase, no secret standing
for the empty one. -/
structure InstallsExactly (sock : Receiver) (behind : ℕ → UInt8) (secret p : Bytes) : Prop where
  returns : (setPassphrase sock behind secret (.string p)).2 = .ok true ↔ Acceptable p
  keeps : ¬ Acceptable p → (setPassphrase sock behind secret (.string p)).1 = secret ∧
    ∃ e, (setPassphrase sock behind secret (.string p)).2 = .error e
  installs : (setPassphrase sock behind secret (.string p)).2 = .ok true →
    (setPassphrase sock behind secret (.string p)).1 = p

/-- From one to nine bytes; up to 79 bytes of which the last one is the only NUL; or more, and no
NUL that would make an accepted passphrase of what is before it. -/
def Spared (p : Bytes) : Prop :=
  1 ≤ p.length ∧ p.length ≤ 9 ∨
    11 ≤ p.length ∧ p.length ≤ 79 ∧ (text p).length + 1 = p.length ∨
    80 ≤ p.length ∧ ¬ AcceptedText p

instance (p : Bytes) : Decidable (Spared p) := inferInstanceAs (Decidable (_ ∨ _ ∨ _))

/-- An accepted text. -/
theorem installsExactly_of_accepted_iff (hsock : sock.state ≠ .nonexist) (h : AcceptedText p) :
    InstallsExactly sock behind secret p ↔ Spared p := by
  have hset := setPassphrase_of_accepted hsock behind secret h
  have hle := length_text_le p
  obtain ⟨hmin, hmax⟩ := h
  constructor
  · intro hexact
    have hacceptable := hexact.returns.mp (congrArg Prod.snd hset)
    have hinstalled := hexact.installs (congrArg Prod.snd hset)
    rw [hset, take_succ_eq_iff hle] at hinstalled
    rcases hacceptable with hnil | ⟨-, hlong⟩
    · rw [hnil] at hmin
      exact absurd hmin (by decide)
    · exact Or.inr (Or.inl ⟨by omega, hlong, hinstalled⟩)
  · rintro (⟨-, hshort⟩ | ⟨hlow, hhigh, hlength⟩ | ⟨-, hnot⟩)
    · omega
    · rw [(take_succ_eq_iff hle).mpr hlength] at hset
      have hacceptable : Acceptable p := Or.inr ⟨by omega, hhigh⟩
      exact ⟨iff_of_true (congrArg Prod.snd hset) hacceptable, fun hnot => absurd hacceptable hnot,
        fun _ => congrArg Prod.fst hset⟩
    · exact absurd ⟨hmin, hmax⟩ hnot

/-- Any other text. -/
theorem installsExactly_of_not_accepted_iff (h : ¬ AcceptedText p) :
    InstallsExactly sock behind secret p ↔ Spared p := by
  obtain ⟨e, hset⟩ := exists_error_of_not_accepted sock behind secret h
  have hle := length_text_le p
  have hraises : (setPassphrase sock behind secret (.string p)).2 ≠ .ok true := by
    rw [hset]
    intro hok
    cases hok
  constructor
  · intro hexact
    have hnot : ¬ Acceptable p := fun hacc => hraises (hexact.returns.mpr hacc)
    have hne : p.length ≠ 0 := fun hzero => hnot (Or.inl (List.length_eq_zero_iff.mp hzero))
    rcases Nat.lt_or_ge p.length 10 with hshort | hlong
    · exact Or.inl ⟨by omega, by omega⟩
    · have hhigh : ¬ p.length ≤ 79 := fun hle => hnot (Or.inr ⟨hlong, hle⟩)
      exact Or.inr (Or.inr ⟨by omega, h⟩)
  · intro hspared
    have hnot : ¬ Acceptable p := by
      rintro (hnil | ⟨hlow, hhigh⟩)
      · rw [hnil] at hspared
        exact absurd hspared (by decide)
      · rw [AcceptedText] at h
        rcases hspared with ⟨-, hshort⟩ | ⟨hlow', -, hlength⟩ | ⟨hlong, -⟩
        · omega
        · omega
        · omega
    exact ⟨iff_of_false hraises hnot,
      fun _ => ⟨congrArg Prod.fst hset, e, congrArg Prod.snd hset⟩, fun hok => absurd hok hraises⟩

/-- **Which passphrases are installed as they are, or refused**, and that two of them which are
installed are not mistaken for each other. -/
theorem installsExactly_iff (hsock : sock.state ≠ .nonexist) (behind : ℕ → UInt8)
    (secret : Bytes) :
    (∀ p, InstallsExactly sock behind secret p ↔ Spared p) ∧
      ∀ p q, Spared p → Spared q → p ≠ q →
        (setPassphrase sock behind secret (.string p)).2 = .ok true →
        (setPassphrase sock behind secret (.string q)).2 = .ok true →
        (setPassphrase sock behind secret (.string p)).1 ≠
          (setPassphrase sock behind secret (.string q)).1 := by
  have hiff : ∀ p, InstallsExactly sock behind secret p ↔ Spared p := by
    intro p
    by_cases h : AcceptedText p
    · exact installsExactly_of_accepted_iff hsock h
    · exact installsExactly_of_not_accepted_iff h
  refine ⟨hiff, fun p q hp hq hne hokp hokq heq => hne ?_⟩
  rw [← ((hiff p).mpr hp).installs hokp, heq, ((hiff q).mpr hq).installs hokq]

/-- `"01234567890"`, the last byte replaced by a NUL, is installed as it is. -/
theorem installsExactly_digits :
    InstallsExactly openedSocket (fun _ => 0) []
      [0x30, 0x31, 0x32, 0x33, 0x34, 0x35, 0x36, 0x37, 0x38, 0x39, 0] :=
  ((installsExactly_iff (by decide) (fun _ => 0) []).1 _).mpr (by decide)

/-- The empty passphrase is refused; ten digits are installed with a NUL behind them; and of
eighty bytes, the one after the first eleven being a NUL, twelve are installed. -/
theorem not_installsExactly :
    ¬ InstallsExactly openedSocket (fun _ => 0) [] [] ∧
      ¬ InstallsExactly openedSocket (fun _ => 0) []
        [0x30, 0x31, 0x32, 0x33, 0x34, 0x35, 0x36, 0x37, 0x38, 0x39] ∧
      ¬ InstallsExactly openedSocket (fun _ => 0) []
        (List.replicate 11 0x61 ++ 0 :: List.replicate 68 0x61) := by
  refine ⟨fun h => ?_, fun h => ?_, fun h => ?_⟩
  · exact absurd (h.returns.mpr (Or.inl rfl)) (by decide)
  · exact absurd (h.installs (by decide)) (by decide)
  · exact absurd (h.installs (by decide)) (by decide)

end Rbsrt
