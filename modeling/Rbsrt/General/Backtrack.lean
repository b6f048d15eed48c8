import Mathlib.Data.List.Basic

/-!
# Backtracking matchers and scanning

A pattern is read as the list of all its matches at the head of the input, in the order a
backtracking engine tries them. The engine reports the first one, `first`; what the list adds is
that sequencing and alternation are `flatMap` and `++`, so that a quantifier is described once,
by the order of its own matches, and every interaction with the rest of the pattern follows.

`lazyPlus` is the quantifier `+?`: one character, and more only if the rest of the pattern does
not match without them. `scan` is the unanchored global scan: try a match here, resume after it,
and move on by one character where there is none.

## Main results

* `Backtrack.first_lazyPlus_iff` — what the first match of a pattern starting with `+?` is: the
  shortest run of characters after which the rest of the pattern matches
* `Backtrack.scan_of_first` — a match at the head is reported and the scan resumes after it
* `Backtrack.exists_suffix_of_mem_scan` — whatever a scan reports was a first match somewhere
* `Backtrack.ScanReaches` — the places at which a scan tries its pattern
-/

namespace Backtrack

variable {χ α β : Type*}

/-- All matches at the head of the input, best first, each with the input it leaves. -/
abbrev Matcher (χ α : Type*) := List χ → List (α × List χ)

/-- Match nothing. -/
def ret (a : α) : Matcher χ α := fun s => [(a, s)]

/-- One pattern and then another. -/
def seq (m : Matcher χ α) (k : α → Matcher χ β) : Matcher χ β :=
  fun s => (m s).flatMap fun r => k r.1 r.2

/-- The first pattern, or failing that the second. -/
def alt (m n : Matcher χ α) : Matcher χ α := fun s => m s ++ n s

/-- One given character. -/
def lit [DecidableEq χ] (d : χ) : Matcher χ Unit
  | [] => []
  | c :: s => if c = d then [((), s)] else []

/-- A condition on the input that is left, consuming nothing. -/
def assert (p : List χ → Bool) : Matcher χ Unit := fun s => if p s then [((), s)] else []

/-- One or more characters of a class, as few as possible. -/
def lazyPlus (p : χ → Bool) : Matcher χ (List χ)
  | [] => []
  | c :: s => if p c then ([c], s) :: (lazyPlus p s).map fun r => (c :: r.1, r.2) else []

/-- The match a backtracking engine reports. -/
def first (m : Matcher χ α) (s : List χ) : Option (α × List χ) := (m s).head?

/-! ### First matches -/

@[simp] theorem first_ret (a : α) (s : List χ) : first (ret a) s = some (a, s) := rfl

theorem first_seq_lit [DecidableEq χ] (d c : χ) (k : Unit → Matcher χ β) (s : List χ) :
    first (seq (lit d) k) (c :: s) = if c = d then first (k ()) s else none := by
  by_cases hc : c = d <;> simp [first, seq, lit, hc]

@[simp] theorem first_seq_lit_nil [DecidableEq χ] (d : χ) (k : Unit → Matcher χ β) :
    first (seq (lit d) k) [] = none := rfl

@[simp] theorem first_seq_lazyPlus_nil (p : χ → Bool) (k : List χ → Matcher χ β) :
    first (seq (lazyPlus p) k) [] = none := rfl

/-- One character, and more of them only if the rest fails. -/
theorem first_seq_lazyPlus_cons (p : χ → Bool) (k : List χ → Matcher χ β) (c : χ) (s : List χ) :
    first (seq (lazyPlus p) k) (c :: s) =
      if p c then (first (k [c]) s).or (first (seq (lazyPlus p) fun w => k (c :: w)) s)
      else none := by
  by_cases hc : p c
  · simp [first, seq, lazyPlus, hc, List.flatMap_map, List.head?_append]
  · simp [first, seq, lazyPlus, hc]

/-- **The first match of a lazy quantifier.** It takes the shortest run of characters of its
class after which the rest of the pattern matches. -/
theorem first_lazyPlus_iff {p : χ → Bool} {k : List χ → Matcher χ β} {s : List χ}
    {x : β × List χ} :
    first (seq (lazyPlus p) k) s = some x ↔
      ∃ w r, s = w ++ r ∧ w ≠ [] ∧ (∀ c ∈ w, p c) ∧ first (k w) r = some x ∧
        ∀ w₁ w₂, w = w₁ ++ w₂ → w₁ ≠ [] → w₂ ≠ [] → first (k w₁) (w₂ ++ r) = none := by
  induction s generalizing k with
  | nil =>
    rw [first_seq_lazyPlus_nil]
    refine ⟨fun h => by simp at h, ?_⟩
    rintro ⟨w, r, hs, hw, -⟩
    exact absurd (List.append_eq_nil_iff.mp hs.symm).1 hw
  | cons c s ih =>
    rw [first_seq_lazyPlus_cons]
    by_cases hc : p c
    · rw [if_pos hc, Option.or_eq_some_iff, ih]
      constructor
      · rintro (h | ⟨hnone, w, r, rfl, hw, hp, hx, hmin⟩)
        · refine ⟨[c], s, rfl, by simp, by simpa using hc, h, fun w₁ w₂ hsplit h₁ h₂ => ?_⟩
          have := congrArg List.length hsplit
          have := List.length_pos_of_ne_nil h₁
          have := List.length_pos_of_ne_nil h₂
          simp only [List.length_append, List.length_singleton] at *
          omega
        · refine ⟨c :: w, r, rfl, by simp, by simpa [hc] using hp, hx, fun w₁ w₂ hsplit h₁ h₂ => ?_⟩
          obtain ⟨d, w₁, rfl⟩ := List.exists_cons_of_ne_nil h₁
          obtain ⟨rfl, rfl⟩ := List.cons.inj hsplit
          rcases List.eq_nil_or_concat' w₁ with rfl | ⟨_, _, hw₁⟩
          · exact hnone
          · exact hmin w₁ w₂ rfl (by simp [hw₁]) h₂
      · rintro ⟨w, r, hs, hw, hp, hx, hmin⟩
        obtain ⟨d, w, rfl⟩ := List.exists_cons_of_ne_nil hw
        obtain ⟨rfl, rfl⟩ := List.cons.inj hs
        cases w with
        | nil => exact Or.inl hx
        | cons e w =>
          refine Or.inr ⟨hmin [c] (e :: w) rfl (by simp) (by simp), e :: w, r, rfl, by simp,
            fun f hf => hp f (List.mem_cons_of_mem _ hf), hx, fun w₁ w₂ hsplit h₁ h₂ => ?_⟩
          exact hmin (c :: w₁) w₂ (by rw [hsplit, List.cons_append]) (by simp) h₂
    · rw [if_neg hc]
      refine ⟨fun h => by simp at h, ?_⟩
      rintro ⟨w, r, hs, hw, hp, -⟩
      obtain ⟨d, w, rfl⟩ := List.exists_cons_of_ne_nil hw
      obtain ⟨rfl, -⟩ := List.cons.inj hs
      exact absurd (hp c (by simp)) hc

/-- A pattern that starts with `+?` needs a character of the class. -/
theorem first_seq_lazyPlus_of_not {p : χ → Bool} {k : List χ → Matcher χ β} {c : χ} {s : List χ}
    (hc : p c = false) : first (seq (lazyPlus p) k) (c :: s) = none := by
  rw [first_seq_lazyPlus_cons, if_neg (by simp [hc])]

/-! ### Scanning -/

/-- Scan after skipping the first `n` characters. The empty match is allowed for: it is reported
and the scan still moves on by one character. -/
def scanFrom (m : Matcher χ α) : ℕ → List χ → List α
  | 0, [] => ((first m []).map Prod.fst).toList
  | _ + 1, [] => []
  | n + 1, _ :: s => scanFrom m n s
  | 0, c :: s =>
    match first m (c :: s) with
    | some (a, r) => a :: scanFrom m (s.length - r.length) s
    | none => scanFrom m 0 s

/-- All matches of a pattern in the input, from left to right, none overlapping. -/
def scan (m : Matcher χ α) (s : List χ) : List α := scanFrom m 0 s

theorem scanFrom_eq_scan_drop (m : Matcher χ α) {n : ℕ} {s : List χ} (hn : n ≤ s.length) :
    scanFrom m n s = scan m (s.drop n) := by
  induction s generalizing n with
  | nil =>
    obtain rfl : n = 0 := by simpa using hn
    rfl
  | cons c s ih =>
    cases n with
    | zero => rfl
    | succ n =>
      rw [scanFrom, ih (by simpa using hn), List.drop_succ_cons]

theorem scan_of_first_none {m : Matcher χ α} {c : χ} {s : List χ}
    (h : first m (c :: s) = none) : scan m (c :: s) = scan m s := by
  rw [scan, scanFrom, h, scan]

/-- **A match at the head.** It is reported, and the scan resumes where it ended. -/
theorem scan_of_first {m : Matcher χ α} {w r : List χ} {a : α} (hw : w ≠ [])
    (h : first m (w ++ r) = some (a, r)) : scan m (w ++ r) = a :: scan m r := by
  obtain ⟨c, w, rfl⟩ := List.exists_cons_of_ne_nil hw
  rw [List.cons_append] at h ⊢
  have hdrop : (w ++ r).drop ((w ++ r).length - r.length) = r := by simp
  rw [scan, scanFrom, h]
  change a :: scanFrom m ((w ++ r).length - r.length) (w ++ r) = _
  rw [scanFrom_eq_scan_drop m (by simp), hdrop]

/-- Whatever a scan reports is the first match at some point of the input. -/
theorem exists_suffix_of_mem_scan {m : Matcher χ α} {s : List χ} {a : α} (h : a ∈ scan m s) :
    ∃ t r, t <:+ s ∧ first m t = some (a, r) := by
  have key : ∀ (s : List χ) (n : ℕ), a ∈ scanFrom m n s →
      ∃ t r, t <:+ s ∧ first m t = some (a, r) := by
    intro s
    induction s with
    | nil =>
      intro n h
      cases n with
      | zero =>
        rw [scanFrom, Option.mem_toList, Option.map_eq_some_iff] at h
        obtain ⟨⟨b, r⟩, hb, rfl⟩ := h
        exact ⟨[], r, List.suffix_rfl, hb⟩
      | succ n => simp [scanFrom] at h
    | cons c s ih =>
      have hlater : ∀ n, a ∈ scanFrom m n s → ∃ t r, t <:+ c :: s ∧ first m t = some (a, r) := by
        intro n h
        obtain ⟨t, r, ht, hm⟩ := ih n h
        exact ⟨t, r, ht.trans (List.suffix_cons c s), hm⟩
      intro n h
      cases n with
      | succ n => exact hlater n h
      | zero =>
        rw [scanFrom] at h
        cases hm : first m (c :: s) with
        | none => exact hlater 0 (by simpa [hm] using h)
        | some x =>
          obtain ⟨b, r⟩ := x
          rw [hm] at h
          rcases List.mem_cons.mp h with rfl | h
          · exact ⟨c :: s, r, List.suffix_rfl, hm⟩
          · exact hlater _ h
  exact key s 0 h

theorem exists_first_of_mem_scan {m : Matcher χ α} {s : List χ} {a : α} (h : a ∈ scan m s) :
    ∃ t r, first m t = some (a, r) := by
  obtain ⟨t, r, -, hm⟩ := exists_suffix_of_mem_scan h
  exact ⟨t, r, hm⟩

/-- A scan of the first input comes to try its pattern on the second: it steps over a character
at which nothing matches, and resumes behind a match. -/
inductive ScanReaches (m : Matcher χ α) : List χ → List χ → Prop
  | here (s : List χ) : ScanReaches m s s
  | step {c : χ} {s t : List χ} (h : first m (c :: s) = none) (hs : ScanReaches m s t) :
    ScanReaches m (c :: s) t
  | resume {w r t : List χ} {a : α} (hw : w ≠ []) (h : first m (w ++ r) = some (a, r))
    (hr : ScanReaches m r t) : ScanReaches m (w ++ r) t

end Backtrack
