import Rbsrt.StreamID.Merge

/-!
# Parsing across a comma

Pairs are separated by commas, so one expects `merge_str!` to work piece by piece: what stands
before a comma and what stands behind it could as well be merged one after the other. The scan
agrees with this except at one place. `.+?` takes its first character before it looks for a
separator, so a key with an empty value takes the comma behind it as the first character of its
value, and the next pair with it.

`LeavesKey` is the condition on the part before the comma: the scan comes to stand before a key
and a `=` with nothing behind them. A key and a `=` inside a value do not count, and neither does
an empty value that another comma follows, since there the damage is done within the part.

## Main results

* `scan_append_comma` — without such a key the two parts are scanned on their own
* `scan_append_comma_of_leavesKey` — with one, what follows is taken for its value
* `mergeStr_append_comma_iff` — so it is this key that decides whether the parts can be merged
  one after the other
-/

namespace Rbsrt

open Backtrack StreamIDComponents

/-- The scan comes to a key and a `=` at the very end. -/
def LeavesKey (a : RString) : Prop :=
  ∃ k, IsKey k ∧ ScanReaches pairRegexp a (k ++ ['='])

/-- The input is a key and a `=` and nothing else. -/
def IsOpen (a : RString) : Prop := ∃ k, IsKey k ∧ a = k ++ ['=']

variable {a b : RString}

theorem IsOpen.leavesKey (h : IsOpen a) : LeavesKey a := by
  obtain ⟨k, hk, rfl⟩ := h
  exact ⟨k, hk, .here _⟩

/-! ### One attempt to match -/

theorem not_isKeyChar_comma : isKeyChar ',' = false := by decide

theorem afterSeparator_append {r r' : RString} (t : RString) (hr : r ≠ [])
    (h : afterSeparator r = some r') : afterSeparator (r ++ t) = some (r' ++ t) := by
  obtain ⟨c, r, rfl⟩ := List.exists_cons_of_ne_nil hr
  by_cases h₁ : c = ','
  · obtain rfl : r = r' := by simpa [afterSeparator, h₁] using h
    simp [afterSeparator, h₁]
  · by_cases h₂ : c = '\n'
    · obtain rfl : c :: r = r' := by simpa [afterSeparator, h₁, h₂] using h
      simp [afterSeparator, h₂]
    · simp [afterSeparator, h₁, h₂] at h

theorem afterSeparator_of_append {r r' t : RString} (h : afterSeparator (r ++ t) = some r') :
    ∃ r'', afterSeparator r = some r'' := by
  cases r with
  | nil => exact ⟨[], rfl⟩
  | cons c r =>
    by_cases h₁ : c = ','
    · exact ⟨r, by simp [afterSeparator, h₁]⟩
    · by_cases h₂ : c = '\n'
      · exact ⟨c :: r, by simp [afterSeparator, h₂]⟩
      · simp [afterSeparator, h₁, h₂] at h

theorem exists_append_of_afterSeparator {r r' : RString} (h : afterSeparator r = some r') :
    ∃ w, r = w ++ r' := by
  cases r with
  | nil => exact ⟨[], Option.some.inj h⟩
  | cons c r =>
    by_cases h₁ : c = ','
    · obtain rfl : r = r' := by simpa [afterSeparator, h₁] using h
      exact ⟨[c], rfl⟩
    · by_cases h₂ : c = '\n'
      · obtain rfl : c :: r = r' := by simpa [afterSeparator, h₁, h₂] using h
        exact ⟨[], rfl⟩
      · simp [afterSeparator, h₁, h₂] at h

/-- A comma makes a match where there was none only if it is put behind a key and a `=`. -/
theorem first_append_comma_of_none (hopen : ¬ IsOpen a) (h : first pairRegexp a = none) :
    first pairRegexp (a ++ ',' :: b) = none := by
  by_contra hne
  obtain ⟨⟨⟨k, v⟩, r'⟩, hx⟩ := Option.ne_none_iff_exists'.mp hne
  obtain ⟨r, heq, hk, ⟨c, u, rfl, hc, hcomma, hnl⟩, hr⟩ := first_pairRegexp_iff.mp hx
  have hsplit : a ++ ',' :: b = (k ++ ['=']) ++ (c :: (u ++ r)) := by simpa using heq
  rcases List.append_eq_append_iff.mp hsplit with ⟨w, hkw, hw⟩ | ⟨w, rfl, hw⟩
  · -- the comma would stand in the key
    cases w with
    | nil => exact hopen ⟨k, hk, by simpa using hkw.symm⟩
    | cons d w =>
      obtain ⟨rfl, -⟩ := List.cons.inj hw
      have hmem : ',' ∈ k ++ ['='] := by simp [hkw]
      have hkey : isKeyChar ',' = true := hk.2 ',' (by simpa using hmem)
      rw [not_isKeyChar_comma] at hkey
      cases hkey
  · cases w with
    | nil => exact hopen ⟨k, hk, by simp⟩
    | cons d w =>
      obtain ⟨rfl, hrest⟩ : c = d ∧ u ++ r = w ++ ',' :: b := by simpa using hw
      -- the value ends before the comma, so it was there without it
      have hend : ∃ t, w = u ++ t ∧ ∃ r'', afterSeparator t = some r'' := by
        rcases List.append_eq_append_iff.mp hrest with ⟨t, rfl, rfl⟩ | ⟨t, rfl, ht⟩
        · exact ⟨t, rfl, afterSeparator_of_append hr⟩
        · cases t with
          | nil => exact ⟨[], by simp, [], rfl⟩
          | cons e t =>
            obtain ⟨rfl, -⟩ := List.cons.inj ht
            exact absurd (by simp) hcomma
      obtain ⟨t, rfl, r'', ht⟩ := hend
      have hmatch : first pairRegexp ((k ++ ['=']) ++ c :: (u ++ t)) = some ((k, c :: u), r'') :=
        first_pairRegexp_iff.mpr ⟨t, by simp, hk, ⟨c, u, rfl, hc, hcomma, hnl⟩, ht⟩
      rw [h] at hmatch
      cases hmatch

/-! ### The scan -/

theorem scan_comma (b : RString) : scan pairRegexp (',' :: b) = scan pairRegexp b :=
  scan_of_first_none (first_seq_lazyPlus_of_not not_isKeyChar_comma)

/-- A match stays what it is when a comma follows, and so does the rest behind it. -/
theorem scan_of_first_some {k v r' : RString} (h : first pairRegexp a = some ((k, v), r')) :
    scan pairRegexp a = (k, v) :: scan pairRegexp r' ∧
      scan pairRegexp (a ++ ',' :: b) = (k, v) :: scan pairRegexp (r' ++ ',' :: b) := by
  obtain ⟨r, rfl, hk, hv, hr⟩ := first_pairRegexp_iff.mp h
  refine ⟨scan_pair hk hv hr, ?_⟩
  rw [List.append_assoc, List.cons_append, List.append_assoc]
  by_cases hnil : r = []
  · subst hnil
    obtain rfl : [] = r' := Option.some.inj hr
    have hcomma : afterSeparator (',' :: b) = some b := by simp [afterSeparator]
    rw [List.nil_append, scan_comma b]
    exact scan_pair hk hv hcomma
  · exact scan_pair hk hv (afterSeparator_append _ hnil hr)

/-- What a match leaves is a shorter remainder, and the scan goes on there. -/
theorem exists_append_of_first_some {k v r' : RString}
    (h : first pairRegexp a = some ((k, v), r')) : ∃ w, w ≠ [] ∧ a = w ++ r' := by
  obtain ⟨r, rfl, hk, hv, hr⟩ := first_pairRegexp_iff.mp h
  obtain ⟨w, rfl⟩ := exists_append_of_afterSeparator hr
  exact ⟨k ++ '=' :: (v ++ w), by simp, by simp⟩

/-- **Parts are scanned on their own**, unless the first leaves a key. -/
theorem scan_append_comma (b : RString) (h : ¬ LeavesKey a) :
    scan pairRegexp (a ++ ',' :: b) = scan pairRegexp a ++ scan pairRegexp b := by
  -- the scan of the first part goes on from a shorter remainder each time
  induction hn : a.length using Nat.strong_induction_on generalizing a with
  | _ n ih =>
    subst hn
    cases a with
    | nil => exact scan_comma b
    | cons c a =>
      cases hfirst : first pairRegexp (c :: a) with
      | none =>
        have hnone : first pairRegexp (c :: (a ++ ',' :: b)) = none :=
          first_append_comma_of_none (fun hopen => h hopen.leavesKey) hfirst
        have hrest : ¬ LeavesKey a := fun ⟨k, hk, hreach⟩ => h ⟨k, hk, .step hfirst hreach⟩
        rw [List.cons_append, scan_of_first_none hnone, scan_of_first_none hfirst,
          ih a.length (by simp) hrest rfl]
      | some x =>
        obtain ⟨⟨k, v⟩, r⟩ := x
        obtain ⟨w, hw, hsplit⟩ := exists_append_of_first_some hfirst
        obtain ⟨hleft, hboth⟩ := scan_of_first_some (b := b) hfirst
        have hshort : r.length < (c :: a).length := by
          have := List.length_pos_of_ne_nil hw
          rw [hsplit, List.length_append]
          omega
        have hrest : ¬ LeavesKey r := by
          rintro ⟨k', hk', hreach⟩
          refine h ⟨k', hk', ?_⟩
          rw [hsplit] at hfirst ⊢
          exact .resume hw hfirst hreach
        rw [hleft, hboth, ih r.length hshort hrest rfl, List.cons_append]

/-- An open key has nothing to report. -/
theorem IsOpen.scan_eq_nil (h : IsOpen a) : scan pairRegexp a = [] := by
  obtain ⟨k, hk, rfl⟩ := h
  have hnone : ∀ k : RString, (∀ c ∈ k, isKeyChar c) → scan pairRegexp (k ++ ['=']) = [] := by
    intro k
    induction k with
    | nil => intro _; decide
    | cons c k ih =>
      intro hk
      have hfirst : first pairRegexp (c :: (k ++ ['='])) = none := by
        by_contra hne
        obtain ⟨⟨⟨k', v⟩, r'⟩, hx⟩ := Option.ne_none_iff_exists'.mp hne
        obtain ⟨r, heq, -, hv, -⟩ := first_pairRegexp_iff.mp hx
        have hnot : '=' ∉ c :: k := fun hmem => isKeyChar_ne_eq (hk _ hmem) rfl
        have hsplit : c :: k ++ '=' :: [] = k' ++ '=' :: (v ++ r) := heq
        obtain ⟨-, -, hrest⟩ := (List.append_cons_inj_of_notMem hnot (by simp)).mp hsplit
        exact hv.ne_nil (List.append_eq_nil_iff.mp hrest.symm).1
      rw [List.cons_append, scan_of_first_none hfirst, ih fun d hd => hk d (by simp [hd])]
  exact hnone k hk.2

/-- **An open key takes what follows.** The first pair behind the comma is not a pair any more. -/
theorem scan_append_comma_of_leavesKey (h : LeavesKey a) :
    ∃ k, ∀ b, ',' ∉ b → '\n' ∉ b →
      scan pairRegexp (a ++ ',' :: b) = scan pairRegexp a ++ [(k, ',' :: b)] := by
  obtain ⟨k, hk, hreach⟩ := h
  have hopened : ∀ {a : RString}, IsOpen a → ∃ k, ∀ b, ',' ∉ b → '\n' ∉ b →
      scan pairRegexp (a ++ ',' :: b) = scan pairRegexp a ++ [(k, ',' :: b)] := by
    intro a ha
    obtain ⟨k, hk, rfl⟩ := id ha
    refine ⟨k, fun b hcomma hnl => ?_⟩
    have hv : IsVal (',' :: b) := ⟨',', b, rfl, by decide, hcomma, hnl⟩
    have hend : afterSeparator [] = some [] := rfl
    have hpair := scan_pair hk hv hend
    rw [List.append_nil] at hpair
    rw [ha.scan_eq_nil, List.nil_append, List.append_assoc]
    exact hpair
  generalize ht : k ++ ['='] = t at hreach
  induction hreach with
  | here s => exact hopened ⟨k, hk, ht.symm⟩
  | @step c s t hfirst hs ih =>
    by_cases hopen : IsOpen (c :: s)
    · exact hopened hopen
    · obtain ⟨k', hk'⟩ := ih ht
      refine ⟨k', fun b hcomma hnl => ?_⟩
      have hnone : first pairRegexp (c :: (s ++ ',' :: b)) = none :=
        first_append_comma_of_none hopen hfirst
      rw [List.cons_append, scan_of_first_none hnone, scan_of_first_none hfirst, hk' b hcomma hnl]
  | @resume w r t x hw hfirst hr ih =>
    obtain ⟨k', hk'⟩ := ih ht
    refine ⟨k', fun b hcomma hnl => ?_⟩
    obtain ⟨hleft, hboth⟩ := scan_of_first_some (b := b) hfirst
    rw [hleft, hboth, hk' b hcomma hnl, List.cons_append]

/-! ### Merging -/

theorem sessionid_setStr (c : StreamIDComponents) (p : RString × RString) :
    (c.setStr p).sessionid =
      if Field.ofName p.1 = some .sessionid then .str p.2 else c.sessionid := by
  have hhost : (c.splitHost p.2).sessionid = c.sessionid := by
    rw [splitHost]
    cases index p.2 '/' with
    | none => rfl
    | some sep => by_cases hr : c.resourceName.truthy <;> simp [hr]
  rw [setStr]
  cases hf : Field.ofName p.1 with
  | none => rfl
  | some f =>
    cases f with
    | mode => by_cases hm : p.2 ∈ modes <;> simp [hm]
    | type => by_cases hm : p.2 ∈ types <;> simp [hm]
    | hostName => simpa using hhost
    | _ => rfl

theorem mergeStr_bind (c : StreamIDComponents) (a b : RString) :
    (c.mergeStr a >>= fun d => d.mergeStr b) =
      .ok ((scan pairRegexp a ++ scan pairRegexp b).foldl setStr c) := by
  rw [mergeStr_eq, List.foldl_append]
  exact mergeStr_eq _ b

/-- **Merging across a comma.** Whatever object is merged into, the part before the comma can be
merged first and any other part after it exactly if it does not leave a key. -/
theorem mergeStr_append_comma_iff (c : StreamIDComponents) (a : RString) :
    (∀ b, c.mergeStr (a ++ ',' :: b) = c.mergeStr a >>= fun d => d.mergeStr b) ↔
      ¬ LeavesKey a := by
  constructor
  · intro h hleaves
    obtain ⟨k, hk⟩ := scan_append_comma_of_leavesKey hleaves
    -- a session id that is to be set behind the comma does not arrive
    have hset : ∀ x : Char, x ≠ ',' → x ≠ '\n' →
        ((scan pairRegexp a).foldl setStr c).setStr (k, ',' :: 's' :: '=' :: [x]) =
          ((scan pairRegexp a).foldl setStr c).setStr (['s'], [x]) := by
      intro x hcomma hnl
      have hv : IsVal [x] := ⟨x, [], rfl, hnl, by simp, by simp⟩
      have hpair : scan pairRegexp ('s' :: '=' :: [x]) = [(['s'], [x])] := by
        have hkey : IsKey ['s'] := by
          refine ⟨by simp, fun c hc => ?_⟩
          obtain rfl := List.mem_singleton.mp hc
          decide
        have hjoin : scan pairRegexp (join [(['s'], [x])]) = [(['s'], [x])] :=
          scan_join (by simpa using ⟨hkey, hv⟩)
        exact hjoin
      have hx := h ('s' :: '=' :: [x])
      rw [mergeStr_bind, mergeStr_eq, hpair, hk _ (by simpa using hcomma.symm)
        (by simpa using hnl.symm), List.foldl_append, List.foldl_append] at hx
      exact Except.ok.inj hx
    have hx := congrArg sessionid (hset 'x' (by decide) (by decide))
    have hy := congrArg sessionid (hset 'y' (by decide) (by decide))
    have hname : Field.ofName ['s'] = some .sessionid := by decide
    rw [sessionid_setStr, sessionid_setStr, if_pos hname] at hx hy
    by_cases hf : Field.ofName k = some .sessionid
    · rw [if_pos hf] at hx
      simp at hx
    · rw [if_neg hf] at hx hy
      rw [hx] at hy
      simp at hy
  · intro h b
    rw [mergeStr_bind, mergeStr_eq, scan_append_comma b h]

/-- An empty value hides the pair that follows it. -/
theorem mergeStr_append_comma_hidden :
    fresh.mergeStr ("k=".toList ++ ',' :: "m=publish".toList) ≠
      fresh.mergeStr "k=".toList >>= fun d => d.mergeStr "m=publish".toList := by
  decide

end Rbsrt
