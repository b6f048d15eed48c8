import Rbsrt.StreamID.Components

/-!
# What the scan of `merge_str!` finds

`pairRegexp` read backwards: which keys and values a match can have, and that a compiled list of
such pairs is scanned into itself.

A value is one character other than a newline, followed by characters that are neither commas
nor newlines (`IsVal`). The asymmetry is the lazy quantifier's: the separator is looked for only
after the first character has been taken. It is what makes `k=,m=publish` one pair and not two,
and so what goes wrong when an empty value is compiled.

## Main results

* `first_pairRegexp_iff` — the matches of the regexp, exactly
* `scan_join_cons`, `scan_join` — scanning a compiled list of pairs
* `scan_toS` — scanning a compiled object
* `isKey_of_mem_scan`, `isVal_of_mem_scan` — every scanned pair can be compiled again
-/

namespace Rbsrt

open Backtrack StreamIDComponents

/-- A key the regexp can match. -/
def IsKey (k : RString) : Prop := k ≠ [] ∧ ∀ c ∈ k, isKeyChar c

/-- A value the regexp can match. -/
def IsVal (v : RString) : Prop := ∃ c w, v = c :: w ∧ c ≠ '\n' ∧ ',' ∉ w ∧ '\n' ∉ w

theorem IsVal.ne_nil {v : RString} (h : IsVal v) : v ≠ [] := by
  obtain ⟨c, w, rfl, -⟩ := h
  simp

/-- The plain case: a non-empty value without commas and newlines. -/
theorem IsVal.of_not_mem {v : RString} (hv : v ≠ []) (hcomma : ',' ∉ v) (hnl : '\n' ∉ v) :
    IsVal v := by
  obtain ⟨c, w, rfl⟩ := List.exists_cons_of_ne_nil hv
  simp only [List.mem_cons, not_or] at hcomma hnl
  exact ⟨c, w, rfl, fun h => hnl.1 h.symm, hcomma.2, hnl.2⟩

/-! ### The separator -/

/-- What `(,|$)` leaves of the input, where it matches. -/
def afterSeparator : RString → Option RString
  | [] => some []
  | c :: r => if c = ',' then some r else if c = '\n' then some (c :: r) else none

theorem first_separator {α : Type} (a : α) (r : RString) :
    first (seq (alt (lit ',') (assert atLineEnd)) fun _ => ret a) r =
      (afterSeparator r).map fun r' => (a, r') := by
  cases r with
  | nil => rfl
  | cons c r =>
    by_cases h₁ : c = ','
    · simp [first, seq, alt, lit, assert, ret, afterSeparator, h₁]
    · by_cases h₂ : c = '\n'
      · simp [first, seq, alt, lit, assert, ret, afterSeparator, atLineEnd, h₂]
      · simp [first, seq, alt, lit, assert, afterSeparator, atLineEnd, h₁, h₂]

theorem afterSeparator_cons_eq_none {c : Char} {r : RString} :
    afterSeparator (c :: r) = none ↔ c ≠ ',' ∧ c ≠ '\n' := by
  by_cases h₁ : c = ',' <;> by_cases h₂ : c = '\n' <;> simp [afterSeparator, h₁, h₂]

/-! ### The whole pattern -/

theorem isKeyChar_ne_eq {c : Char} (h : isKeyChar c = true) : c ≠ '=' := by
  rintro rfl
  exact absurd h (by decide)

/-- The part of the regexp behind the `=`. -/
theorem first_value_iff {k : RString} {s : RString} {x : (RString × RString) × RString} :
    first (seq (lazyPlus isDot) fun val =>
        seq (alt (lit ',') (assert atLineEnd)) fun _ => ret (k, val)) s = some x ↔
      ∃ v r r', s = v ++ r ∧ IsVal v ∧ afterSeparator r = some r' ∧ x = ((k, v), r') := by
  rw [first_lazyPlus_iff]
  constructor
  · rintro ⟨v, r, rfl, hv, hdot, hsep, hmin⟩
    rw [first_separator, Option.map_eq_some_iff] at hsep
    obtain ⟨r', hr', rfl⟩ := hsep
    obtain ⟨c, w, rfl⟩ := List.exists_cons_of_ne_nil hv
    -- past its first character the match could have stopped at any separator
    have hrest : ∀ d ∈ w, d ≠ ',' ∧ d ≠ '\n' := by
      intro d hd
      obtain ⟨a, b, rfl⟩ := List.append_of_mem hd
      have := hmin (c :: a) (d :: b) rfl (by simp) (by simp)
      rw [first_separator, Option.map_eq_none_iff, List.cons_append] at this
      exact afterSeparator_cons_eq_none.mp this
    refine ⟨c :: w, r, r', rfl, ⟨c, w, rfl, ?_, fun h => (hrest _ h).1 rfl,
      fun h => (hrest _ h).2 rfl⟩, hr', rfl⟩
    simpa [isDot] using hdot c (by simp)
  · rintro ⟨v, r, r', rfl, ⟨c, w, rfl, hc, hcomma, hnl⟩, hr', rfl⟩
    refine ⟨c :: w, r, rfl, by simp, ?_, by rw [first_separator, hr', Option.map_some],
      fun w₁ w₂ hsplit h₁ h₂ => ?_⟩
    · intro d hd
      rcases List.mem_cons.mp hd with rfl | hd
      · simpa [isDot] using hc
      · simpa [isDot] using fun h : d = '\n' => hnl (h ▸ hd)
    · obtain ⟨d, w₁, rfl⟩ := List.exists_cons_of_ne_nil h₁
      obtain ⟨e, w₂, rfl⟩ := List.exists_cons_of_ne_nil h₂
      obtain ⟨-, rfl⟩ := List.cons.inj hsplit
      rw [first_separator, Option.map_eq_none_iff, List.cons_append, afterSeparator_cons_eq_none]
      constructor
      · rintro rfl
        simp at hcomma
      · rintro rfl
        simp at hnl

/-- **The matches of the regexp.** -/
theorem first_pairRegexp_iff {s k v r' : RString} :
    first pairRegexp s = some ((k, v), r') ↔
      ∃ r, s = k ++ '=' :: (v ++ r) ∧ IsKey k ∧ IsVal v ∧ afterSeparator r = some r' := by
  rw [pairRegexp, first_lazyPlus_iff]
  constructor
  · rintro ⟨w, t, rfl, hw, hkey, hx, -⟩
    cases t with
    | nil => simp at hx
    | cons c t =>
      rw [first_seq_lit] at hx
      split at hx
      · next hc =>
        subst hc
        obtain ⟨v', r, r'', rfl, hv, hr, hx⟩ := first_value_iff.mp hx
        obtain ⟨⟨rfl, rfl⟩, rfl⟩ : (k = w ∧ v = v') ∧ r' = r'' := by simpa using hx
        exact ⟨r, rfl, ⟨hw, hkey⟩, hv, hr⟩
      · simp at hx
  · rintro ⟨r, rfl, ⟨hk, hkey⟩, hv, hr⟩
    refine ⟨k, '=' :: (v ++ r), rfl, hk, hkey, ?_, fun w₁ w₂ hsplit h₁ h₂ => ?_⟩
    · rw [first_seq_lit, if_pos rfl, first_value_iff]
      exact ⟨v, r, r', rfl, hv, hr, rfl⟩
    · obtain ⟨c, w₂, rfl⟩ := List.exists_cons_of_ne_nil h₂
      have hc : isKeyChar c := hkey c (by simp [hsplit])
      rw [List.cons_append, first_seq_lit, if_neg (isKeyChar_ne_eq hc)]

/-! ### Scanning -/

/-- A pair at the head of the input is reported. -/
theorem scan_pair {k v r r' : RString} (hk : IsKey k) (hv : IsVal v)
    (hr : afterSeparator r = some r') :
    scan pairRegexp (k ++ '=' :: (v ++ r)) = (k, v) :: scan pairRegexp r' := by
  have hfirst : first pairRegexp (k ++ '=' :: (v ++ r)) = some ((k, v), r') :=
    first_pairRegexp_iff.mpr ⟨r, rfl, hk, hv, hr⟩
  cases r with
  | nil =>
    obtain rfl : [] = r' := Option.some.inj hr
    have := scan_of_first (m := pairRegexp) (w := k ++ '=' :: v) (r := []) (by simp)
      (by simpa using hfirst)
    simpa using this
  | cons c r =>
    by_cases hc : c = ','
    · subst hc
      obtain rfl : r = r' := by simpa [afterSeparator] using hr
      have := scan_of_first (m := pairRegexp) (w := k ++ '=' :: (v ++ [','])) (r := r) (by simp)
        (by simpa using hfirst)
      simpa using this
    · obtain rfl : c :: r = r' := by
        simp only [afterSeparator, if_neg hc] at hr
        split at hr
        · exact Option.some.inj hr
        · simp at hr
      have := scan_of_first (m := pairRegexp) (w := k ++ '=' :: v) (r := c :: r) (by simp)
        (by simpa using hfirst)
      simpa using this

/-- A key and a `=` start a pair as soon as one more character stands on the line. -/
theorem exists_scan_eq_cons {k t : RString} {c : Char} (hk : IsKey k) (hc : c ≠ '\n') :
    ∃ v r, IsVal v ∧ scan pairRegexp (k ++ '=' :: c :: t) = (k, v) :: scan pairRegexp r := by
  obtain ⟨w, r, r', rfl, hcomma, hnl, hr⟩ :
      ∃ w r r', t = w ++ r ∧ ',' ∉ w ∧ '\n' ∉ w ∧ afterSeparator r = some r' := by
    induction t with
    | nil => exact ⟨[], [], [], rfl, by simp, by simp, rfl⟩
    | cons d t ih =>
      cases hd : afterSeparator (d :: t) with
      | some r' => exact ⟨[], d :: t, r', rfl, by simp, by simp, hd⟩
      | none =>
        obtain ⟨h₁, h₂⟩ := afterSeparator_cons_eq_none.mp hd
        obtain ⟨w, r, r', rfl, hcomma, hnl, hr⟩ := ih
        refine ⟨d :: w, r, r', rfl, ?_, ?_, hr⟩
        · simpa [Ne.symm h₁] using hcomma
        · simpa [Ne.symm h₂] using hnl
  exact ⟨c :: w, r', ⟨c, w, rfl, hc, hcomma, hnl⟩, scan_pair hk ⟨c, w, rfl, hc, hcomma, hnl⟩ hr⟩

theorem isKey_of_mem_scan {s : RString} {p : RString × RString}
    (h : p ∈ scan pairRegexp s) : IsKey p.1 := by
  obtain ⟨t, r, hfirst⟩ := exists_first_of_mem_scan h
  obtain ⟨-, -, hk, -, -⟩ := first_pairRegexp_iff.mp hfirst
  exact hk

theorem isVal_of_mem_scan {s : RString} {p : RString × RString}
    (h : p ∈ scan pairRegexp s) : IsVal p.2 := by
  obtain ⟨t, r, hfirst⟩ := exists_first_of_mem_scan h
  obtain ⟨-, -, -, hv, -⟩ := first_pairRegexp_iff.mp hfirst
  exact hv

/-! ### Compiled lists of pairs -/

/-- `vars.join(",")` -/
def join (ps : List (RString × RString)) : RString := [','].intercalate (ps.map printPair)

theorem toS_eq (c : StreamIDComponents) : c.toS = header ++ join c.pairs := rfl

@[simp] theorem join_nil : join [] = [] := rfl

theorem join_singleton (p : RString × RString) : join [p] = printPair p := by
  simp [join]

theorem join_cons_cons (p q : RString × RString) (ps : List (RString × RString)) :
    join (p :: q :: ps) = printPair p ++ ',' :: join (q :: ps) := by
  simp [join, List.intercalate_cons_cons]

theorem scan_join_cons {p : RString × RString} {ps : List (RString × RString)} (hk : IsKey p.1)
    (hv : IsVal p.2) : scan pairRegexp (join (p :: ps)) = p :: scan pairRegexp (join ps) := by
  obtain ⟨k, v⟩ := p
  cases ps with
  | nil =>
    have hend : afterSeparator [] = some [] := rfl
    simpa [join_singleton, printPair] using scan_pair hk hv hend
  | cons q ps =>
    have hcomma : afterSeparator (',' :: join (q :: ps)) = some (join (q :: ps)) := by
      simp [afterSeparator]
    simpa [join_cons_cons, printPair] using scan_pair hk hv hcomma

/-- A list of pairs that the regexp can match is scanned into itself. -/
theorem scan_join {ps : List (RString × RString)} (h : ∀ p ∈ ps, IsKey p.1 ∧ IsVal p.2) :
    scan pairRegexp (join ps) = ps := by
  induction ps with
  | nil => rfl
  | cons p ps ih =>
    rw [scan_join_cons (h p (by simp)).1 (h p (by simp)).2,
      ih fun q hq => h q (List.mem_cons_of_mem p hq)]

/-- No pair starts inside the header. -/
theorem scan_header (s : RString) : scan pairRegexp (header ++ s) = scan pairRegexp s := by
  have hany : header.any isKeyChar = false := by decide
  have hskip : ∀ c ∈ header, isKeyChar c = false :=
    fun c hc => Bool.eq_false_iff.mpr (List.any_eq_false.mp hany c hc)
  have : ∀ w : RString, (∀ c ∈ w, isKeyChar c = false) →
      scan pairRegexp (w ++ s) = scan pairRegexp s := by
    intro w
    induction w with
    | nil => intro _; rfl
    | cons c w ih =>
      intro hw
      have hnone : first pairRegexp (c :: (w ++ s)) = none :=
        first_seq_lazyPlus_of_not (hw c (by simp))
      rw [List.cons_append, scan_of_first_none hnone,
        ih fun d hd => hw d (List.mem_cons_of_mem c hd)]
  exact this header hskip

/-- **A compiled streamid is scanned into the pairs it was compiled from.** -/
theorem scan_toS {c : StreamIDComponents} (h : ∀ p ∈ c.pairs, IsKey p.1 ∧ IsVal p.2) :
    scan pairRegexp c.toS = c.pairs := by
  rw [toS_eq, scan_header, scan_join h]

end Rbsrt
