import Mathlib.Data.List.Basic
import Mathlib.Data.List.Infix

/-!
# The Ruby values the library handles

Only what the Ruby half of the library touches: strings as lists of characters, the `nil`,
String and Symbol values that end up in a components object, the String and Symbol keys of a
hash, and the exceptions its methods let through.

## Slices

`slice` is `str[lo..hi]` with both ends included and negative ends counted from the back. Its two
surprises are the ones the host splitter runs into: `str[0..-1]` is the whole string rather than
the empty one, and a slice that starts exactly at the end is empty while one that starts beyond
it is `nil`.
-/

namespace Rbsrt

/-- A Ruby String, as its characters. Strings whose bytes are not valid in their encoding, and
Strings of two encodings that do not go together, are left out: on these `scan`, `=~` and `join`
raise. -/
abbrev RString := List Char

instance (s : RString) (l : List RString) : Decidable (s ∈ l) :=
  List.instDecidableMemOfLawfulBEq s l

/-- What a method can raise. -/
inductive RubyError
  | noMethod (name : String)
  | argument (message : String)
  | invalidURI
deriving DecidableEq

/-- A hash key. -/
inductive Key
  | str (s : RString)
  | sym (s : RString)
deriving DecidableEq

/-- `key.to_s` -/
def Key.toS : Key → RString
  | .str s => s
  | .sym s => s

/-- A value stored in a components object. -/
inductive Value
  | nil
  | str (s : RString)
  | sym (s : RString)
deriving DecidableEq

namespace Value

/-- `val.to_s`, which is also what string interpolation inserts. -/
def toS : Value → RString
  | nil => []
  | str s => s
  | sym s => s

@[simp] theorem toS_nil : nil.toS = [] := rfl

@[simp] theorem toS_str (s : RString) : (str s).toS = s := rfl

@[simp] theorem toS_sym (s : RString) : (sym s).toS = s := rfl

/-- Everything but `nil` counts as true. -/
def truthy : Value → Bool
  | nil => false
  | _ => true

@[simp] theorem truthy_nil : nil.truthy = false := rfl

@[simp] theorem truthy_str (s : RString) : (str s).truthy = true := rfl

@[simp] theorem truthy_sym (s : RString) : (sym s).truthy = true := rfl

theorem truthy_iff {v : Value} : v.truthy = true ↔ v ≠ nil := by cases v <;> simp

/-- `val.to_sym` -/
def toSym : Value → Except RubyError Value
  | nil => .error (.noMethod "to_sym")
  | str s => .ok (sym s)
  | sym s => .ok (sym s)

/-- The result of a slice: `nil` or a String. -/
def ofSlice : Option RString → Value
  | none => nil
  | some s => str s

@[simp] theorem ofSlice_none : ofSlice none = nil := rfl

@[simp] theorem ofSlice_some (s : RString) : ofSlice (some s) = str s := rfl

end Value

/-! ### Slices and positions -/

/-- `str[lo..hi]` -/
def slice (s : RString) (lo hi : ℤ) : Option RString :=
  let len : ℤ := s.length
  let first := if lo < 0 then lo + len else lo
  let last := if hi < 0 then hi + len else hi
  if first < 0 ∨ len < first then none
  else some ((s.drop first.toNat).take (last - first + 1).toNat)

theorem slice_zero_pred {s : RString} {n : ℕ} (hn : 0 < n) :
    slice s 0 ((n : ℤ) - 1) = some (s.take n) := by
  have hneg : ¬ ((n : ℤ) - 1 < 0) := by omega
  simp [slice, hneg]

/-- A slice up to the end, from a position inside the string or just behind it. -/
theorem slice_to_end {s : RString} {n : ℕ} (hn : n ≤ s.length) :
    slice s n (-1) = some (s.drop n) := by
  have h₁ : ¬ ((n : ℤ) < 0) := by omega
  have h₂ : ¬ ((s.length : ℤ) < n) := by omega
  have h₃ : (s.drop n).length ≤ (-1 + (s.length : ℤ) - n + 1).toNat := by
    rw [List.length_drop]
    omega
  simp [slice, h₁, h₂, List.take_of_length_le h₃]

/-- `str[0..-1]` is all of the string. -/
theorem slice_zero_neg_one (s : RString) : slice s 0 (-1) = some s := by
  simpa using slice_to_end (Nat.zero_le s.length)

/-- `''[1..-1]` is `nil`. -/
theorem slice_one_nil : slice [] 1 (-1) = none := by
  simp [slice]

theorem slice_one_cons (c : Char) (s : RString) : slice (c :: s) 1 (-1) = some s := by
  simpa using slice_to_end (s := c :: s) (n := 1) (by simp)

/-- `str.index(c)` -/
def index (s : RString) (c : Char) : Option ℕ := s.idxOf? c

theorem index_of_not_mem {s : RString} {c : Char} (h : c ∉ s) : index s c = none :=
  List.idxOf?_eq_none_iff.mpr h

theorem index_append {a b : RString} {c : Char} (h : c ∉ a) :
    index (a ++ c :: b) c = some a.length := by
  induction a with
  | nil => simp [index, List.idxOf?_cons]
  | cons d a ih =>
    simp only [List.mem_cons, not_or] at h
    have hd : (d == c) = false := by simpa using Ne.symm h.1
    rw [index, List.cons_append, List.idxOf?_cons, hd]
    simpa [index] using ih h.2

/-- A string is cut at the first occurrence of a character, or does not have it. -/
theorem exists_cut (s : RString) (c : Char) : c ∉ s ∨ ∃ a b, s = a ++ c :: b ∧ c ∉ a := by
  by_cases h : c ∈ s
  · exact Or.inr (List.eq_append_cons_of_mem h)
  · exact Or.inl h

end Rbsrt
