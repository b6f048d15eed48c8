import Mathlib.Data.List.Basic
import Mathlib.Data.List.Forall2
import Mathlib.Data.List.Nodup

/-!
# Insertion-ordered hashes

A hash that remembers the order in which its keys were first stored: an association list whose
keys are distinct. The distinctness is a field, so a hash with a repeated key cannot be built and
no lemma below has to assume it.

Storing under a key that is present replaces the value and leaves the key where it is; storing
under a new key puts it at the end; deleting closes the gap. Two hashes with the same entries in
the same order are equal.

## Main results

* `OrderedHash.lookup_aset_self`, `lookup_aset_of_ne` — reading after writing
* `OrderedHash.lookup_delete_self`, `lookup_delete_of_ne` — reading after deleting
* `OrderedHash.size_aset_of_fresh`, `size_delete_of_lookup` — how the size moves
* `OrderedHash.entries_ofPairs` — pairs with distinct keys are stored as they stand
* `OrderedHash.lookup_asetAll`, `keys_asetAll` — pairs whose keys may be repeated
* `OrderedHash.update_assoc` — three hashes, one merged into the other
-/

/-- An association list with distinct keys, in insertion order. -/
structure OrderedHash (κ ν : Type*) where
  entries : List (κ × ν)
  nodup : (entries.map Prod.fst).Nodup
deriving DecidableEq

namespace OrderedHash

variable {κ ν : Type*}

@[ext] theorem ext {h₁ h₂ : OrderedHash κ ν} (h : h₁.entries = h₂.entries) : h₁ = h₂ := by
  cases h₁
  cases h₂
  simpa using h

/-- The keys, oldest first. -/
def keys (h : OrderedHash κ ν) : List κ := h.entries.map Prod.fst

/-- The number of entries. -/
def size (h : OrderedHash κ ν) : ℕ := h.entries.length

theorem nodup_keys (h : OrderedHash κ ν) : h.keys.Nodup := h.nodup

theorem length_keys (h : OrderedHash κ ν) : h.keys.length = h.size := by simp [keys, size]

/-- The hash with no entries. -/
def empty : OrderedHash κ ν := ⟨[], List.nodup_nil⟩

@[simp] theorem entries_empty : (empty : OrderedHash κ ν).entries = [] := rfl

@[simp] theorem keys_empty : (empty : OrderedHash κ ν).keys = [] := rfl

@[simp] theorem size_empty : (empty : OrderedHash κ ν).size = 0 := rfl

variable [DecidableEq κ]

/-! ### Reading -/

/-- The value stored under a key. -/
def lookup (h : OrderedHash κ ν) (k : κ) : Option ν := h.entries.lookup k

@[simp] theorem lookup_empty (k : κ) : (empty : OrderedHash κ ν).lookup k = none := rfl

private theorem lookup_cons_of_ne {k k' : κ} (hk : k' ≠ k) (v : ν) (es : List (κ × ν)) :
    ((k, v) :: es).lookup k' = es.lookup k' := by
  rw [List.lookup_cons, beq_eq_false_iff_ne.mpr hk]

private theorem lookup_eq_some_iff_mem {es : List (κ × ν)} (hes : (es.map Prod.fst).Nodup) {k : κ}
    {v : ν} : es.lookup k = some v ↔ (k, v) ∈ es := by
  induction es with
  | nil => simp
  | cons e es ih =>
    obtain ⟨k', v'⟩ := e
    obtain ⟨hk', hes⟩ := List.nodup_cons.mp hes
    by_cases hk : k = k'
    · subst hk
      have hnot : (k, v) ∉ es := fun hv => hk' (List.mem_map.mpr ⟨_, hv, rfl⟩)
      simp [hnot, eq_comm]
    · rw [lookup_cons_of_ne hk, ih hes]
      simp [hk]

theorem lookup_eq_some_iff {h : OrderedHash κ ν} {k : κ} {v : ν} :
    h.lookup k = some v ↔ (k, v) ∈ h.entries :=
  lookup_eq_some_iff_mem h.nodup

theorem mem_keys_iff {h : OrderedHash κ ν} {k : κ} : k ∈ h.keys ↔ ∃ v, h.lookup k = some v := by
  simp [keys, lookup_eq_some_iff]

theorem lookup_eq_none_iff {h : OrderedHash κ ν} {k : κ} : h.lookup k = none ↔ k ∉ h.keys := by
  rw [mem_keys_iff, Option.eq_none_iff_forall_ne_some, not_exists]

/-- Two hashes with the same keys in the same order and the same values are equal. -/
theorem ext_lookup {h₁ h₂ : OrderedHash κ ν} (hkeys : h₁.keys = h₂.keys)
    (hlookup : ∀ k, h₁.lookup k = h₂.lookup k) : h₁ = h₂ := by
  have hlength : h₁.entries.length = h₂.entries.length := by
    simpa [keys] using congrArg List.length hkeys
  refine ext (List.ext_getElem hlength fun i hi₁ hi₂ => ?_)
  have hkey : h₁.entries[i].1 = h₂.entries[i].1 := by
    simpa [keys, hi₁, hi₂] using congrArg (fun ks => ks[i]?) hkeys
  have hvalue₁ : h₁.lookup h₁.entries[i].1 = some h₁.entries[i].2 :=
    lookup_eq_some_iff.mpr (List.getElem_mem hi₁)
  have hvalue₂ : h₂.lookup h₂.entries[i].1 = some h₂.entries[i].2 :=
    lookup_eq_some_iff.mpr (List.getElem_mem hi₂)
  rw [hlookup, hkey, hvalue₂] at hvalue₁
  exact Prod.ext hkey (Option.some.inj hvalue₁).symm

/-! ### Writing -/

private def asetList (k : κ) (v : ν) : List (κ × ν) → List (κ × ν)
  | [] => [(k, v)]
  | (k', v') :: es => if k' = k then (k, v) :: es else (k', v') :: asetList k v es

private theorem keys_asetList (k : κ) (v : ν) (es : List (κ × ν)) :
    (asetList k v es).map Prod.fst =
      if k ∈ es.map Prod.fst then es.map Prod.fst else es.map Prod.fst ++ [k] := by
  induction es with
  | nil => simp [asetList]
  | cons e es ih =>
    obtain ⟨k', v'⟩ := e
    by_cases hk : k' = k
    · simp [asetList, hk]
    · by_cases hmem : k ∈ es.map Prod.fst
      · simp only [asetList, hk, if_false, List.map_cons, ih, hmem, if_true]
        simp [hmem]
      · have hne : ¬ k = k' := fun h => hk h.symm
        simp only [asetList, hk, if_false, List.map_cons, ih, hmem]
        simp [hne, hmem]

/-- Store a value under a key. -/
def aset (h : OrderedHash κ ν) (k : κ) (v : ν) : OrderedHash κ ν where
  entries := asetList k v h.entries
  nodup := by
    rw [keys_asetList]
    split
    · exact h.nodup
    · next hk => exact List.nodup_append.mpr ⟨h.nodup, by simp, by rintro a ha b hb rfl; simp_all⟩

theorem keys_aset (h : OrderedHash κ ν) (k : κ) (v : ν) :
    (h.aset k v).keys = if k ∈ h.keys then h.keys else h.keys ++ [k] :=
  keys_asetList k v h.entries

theorem mem_keys_aset {h : OrderedHash κ ν} {k k' : κ} {v : ν} :
    k' ∈ (h.aset k v).keys ↔ k' = k ∨ k' ∈ h.keys := by
  rw [keys_aset]
  split
  · next hk => exact ⟨Or.inr, by rintro (rfl | h); exacts [hk, h]⟩
  · simp [or_comm]

private theorem lookup_asetList (k k' : κ) (v : ν) (es : List (κ × ν)) :
    (asetList k v es).lookup k' = if k' = k then some v else es.lookup k' := by
  induction es with
  | nil =>
    by_cases hk : k' = k
    · simp [asetList, hk]
    · simp [asetList, hk, lookup_cons_of_ne hk]
  | cons e es ih =>
    obtain ⟨l, u⟩ := e
    by_cases hl : l = k
    · subst hl
      by_cases hk : k' = l
      · simp [asetList, hk]
      · simp [asetList, hk, lookup_cons_of_ne hk]
    · by_cases hk : k' = l
      · subst hk
        simp [asetList, hl]
      · simp [asetList, hl, lookup_cons_of_ne hk, ih]

theorem lookup_aset (h : OrderedHash κ ν) (k k' : κ) (v : ν) :
    (h.aset k v).lookup k' = if k' = k then some v else h.lookup k' :=
  lookup_asetList k k' v h.entries

@[simp] theorem lookup_aset_self (h : OrderedHash κ ν) (k : κ) (v : ν) :
    (h.aset k v).lookup k = some v := by simp [lookup_aset]

theorem lookup_aset_of_ne {h : OrderedHash κ ν} {k k' : κ} {v : ν} (hk : k' ≠ k) :
    (h.aset k v).lookup k' = h.lookup k' := by simp [lookup_aset, hk]

private theorem asetList_of_fresh {k : κ} {es : List (κ × ν)} (v : ν)
    (hk : k ∉ es.map Prod.fst) : asetList k v es = es ++ [(k, v)] := by
  induction es with
  | nil => rfl
  | cons e es ih =>
    obtain ⟨k', v'⟩ := e
    simp only [List.map_cons, List.mem_cons, not_or] at hk
    simp [asetList, Ne.symm hk.1, ih hk.2]

/-- A new key goes to the end. -/
theorem entries_aset_of_fresh {h : OrderedHash κ ν} {k : κ} (v : ν) (hk : k ∉ h.keys) :
    (h.aset k v).entries = h.entries ++ [(k, v)] :=
  asetList_of_fresh v hk

theorem size_aset_of_fresh {h : OrderedHash κ ν} {k : κ} {v : ν} (hk : k ∉ h.keys) :
    (h.aset k v).size = h.size + 1 := by
  simp [size, entries_aset_of_fresh v hk]

private theorem asetList_of_mem {k : κ} {v : ν} {es : List (κ × ν)}
    (hes : (es.map Prod.fst).Nodup) (hk : (k, v) ∈ es) : asetList k v es = es := by
  induction es with
  | nil => cases hk
  | cons e es ih =>
    obtain ⟨k', v'⟩ := e
    obtain ⟨hk', hes⟩ := List.nodup_cons.mp hes
    rcases List.mem_cons.mp hk with heq | hmem
    · obtain ⟨rfl, rfl⟩ := Prod.mk.inj heq
      simp [asetList]
    · have hne : k' ≠ k := by
        rintro rfl
        exact hk' (List.mem_map.mpr ⟨_, hmem, rfl⟩)
      rw [asetList, if_neg hne, ih hes hmem]

/-- Storing changes nothing exactly if the value is there already. -/
theorem aset_eq_self_iff {h : OrderedHash κ ν} {k : κ} {v : ν} :
    h.aset k v = h ↔ h.lookup k = some v := by
  constructor
  · intro heq
    rw [← heq, lookup_aset_self]
  · intro hk
    exact ext (asetList_of_mem h.nodup (lookup_eq_some_iff.mp hk))

/-! ### Deleting -/

/-- Remove the entry under a key. -/
def delete (h : OrderedHash κ ν) (k : κ) : OrderedHash κ ν where
  entries := h.entries.filter fun e => e.1 ≠ k
  nodup := (h.nodup).sublist (List.filter_sublist.map Prod.fst)

theorem mem_entries_delete {h : OrderedHash κ ν} {k : κ} {e : κ × ν} :
    e ∈ (h.delete k).entries ↔ e ∈ h.entries ∧ e.1 ≠ k := by
  simp [delete]

theorem mem_keys_delete {h : OrderedHash κ ν} {k k' : κ} :
    k' ∈ (h.delete k).keys ↔ k' ∈ h.keys ∧ k' ≠ k := by
  simp only [keys, List.mem_map, mem_entries_delete]
  constructor
  · rintro ⟨e, ⟨he, hne⟩, rfl⟩
    exact ⟨⟨e, he, rfl⟩, hne⟩
  · rintro ⟨⟨e, he, rfl⟩, hne⟩
    exact ⟨e, ⟨he, hne⟩, rfl⟩

@[simp] theorem lookup_delete_self (h : OrderedHash κ ν) (k : κ) :
    (h.delete k).lookup k = none := by
  rw [lookup_eq_none_iff, mem_keys_delete]
  simp

theorem lookup_delete_of_ne {h : OrderedHash κ ν} {k k' : κ} (hk : k' ≠ k) :
    (h.delete k).lookup k' = h.lookup k' := by
  refine Option.ext fun v => ?_
  rw [lookup_eq_some_iff, lookup_eq_some_iff, mem_entries_delete]
  simp [hk]

private theorem length_filter_of_mem {es : List (κ × ν)} {k : κ} (hes : (es.map Prod.fst).Nodup)
    (hk : k ∈ es.map Prod.fst) : (es.filter fun e => e.1 ≠ k).length + 1 = es.length := by
  induction es with
  | nil => simp at hk
  | cons e es ih =>
    obtain ⟨hk', hes⟩ := List.nodup_cons.mp hes
    by_cases he : e.1 = k
    · have hall : ∀ e' ∈ es, e'.1 ≠ k := by
        rintro e' he' rfl
        exact hk' (he ▸ List.mem_map_of_mem he')
      have hfil : (es.filter fun e => e.1 ≠ k) = es := by simpa using hall
      rw [List.filter_cons_of_neg (by simpa using he), hfil, List.length_cons]
    · have hmem : k ∈ es.map Prod.fst := by
        rcases List.mem_cons.mp (List.map_cons ▸ hk) with h | h
        exacts [absurd h.symm he, h]
      rw [List.filter_cons_of_pos (by simpa using he), List.length_cons, List.length_cons,
        ih hes hmem]

theorem size_delete_of_lookup {h : OrderedHash κ ν} {k : κ} {v : ν} (hk : h.lookup k = some v) :
    (h.delete k).size + 1 = h.size :=
  length_filter_of_mem h.nodup (mem_keys_iff.mpr ⟨v, hk⟩)

/-! ### Storing a list of pairs -/

/-- Store pairs one after the other. -/
def asetAll (h : OrderedHash κ ν) (ps : List (κ × ν)) : OrderedHash κ ν :=
  ps.foldl (fun h p => h.aset p.1 p.2) h

/-- The hash of a list of pairs, later values replacing earlier ones. -/
def ofPairs (ps : List (κ × ν)) : OrderedHash κ ν := empty.asetAll ps

@[simp] theorem asetAll_nil (h : OrderedHash κ ν) : h.asetAll [] = h := rfl

@[simp] theorem asetAll_cons (h : OrderedHash κ ν) (p : κ × ν) (ps : List (κ × ν)) :
    h.asetAll (p :: ps) = (h.aset p.1 p.2).asetAll ps := rfl

theorem entries_asetAll {h : OrderedHash κ ν} {ps : List (κ × ν)}
    (hps : (h.keys ++ ps.map Prod.fst).Nodup) : (h.asetAll ps).entries = h.entries ++ ps := by
  induction ps generalizing h with
  | nil => simp
  | cons p ps ih =>
    have hfresh : p.1 ∉ h.keys := fun hp =>
      (List.nodup_append.mp hps).2.2 p.1 hp p.1 (by simp) rfl
    have hkeys : (h.aset p.1 p.2).keys = h.keys ++ [p.1] := by rw [keys_aset, if_neg hfresh]
    rw [asetAll_cons, ih (by simpa [hkeys] using hps), entries_aset_of_fresh _ hfresh]
    simp

/-- **Pairs with distinct keys are stored as they stand.** -/
theorem entries_ofPairs {ps : List (κ × ν)} (hps : (ps.map Prod.fst).Nodup) :
    (ofPairs ps).entries = ps := by
  rw [ofPairs, entries_asetAll (by simpa using hps), entries_empty, List.nil_append]

theorem ofPairs_entries (h : OrderedHash κ ν) : ofPairs h.entries = h :=
  ext (entries_ofPairs h.nodup)

/-- What is under a key is the last value that was stored there, or what was there before. -/
theorem lookup_asetAll (h : OrderedHash κ ν) (ps : List (κ × ν)) (k : κ) :
    (h.asetAll ps).lookup k = (ps.reverse.lookup k).or (h.lookup k) := by
  induction ps generalizing h with
  | nil => rfl
  | cons p ps ih =>
    obtain ⟨k', v⟩ := p
    rw [asetAll_cons, ih, lookup_aset, List.reverse_cons, List.lookup_append, Option.or_assoc]
    by_cases hk : k = k'
    · rw [hk, if_pos rfl, List.lookup_cons_self]
      rfl
    · rw [if_neg hk, lookup_cons_of_ne hk]
      rfl

/-- The new keys come behind the others, in the order in which they were stored first. -/
theorem keys_asetAll (h : OrderedHash κ ν) (ps : List (κ × ν)) :
    (h.asetAll ps).keys =
      h.keys ++ ((ps.map Prod.fst).filter fun k => k ∉ h.keys).eraseDups := by
  induction ps generalizing h with
  | nil => simp
  | cons p ps ih =>
    rw [asetAll_cons, ih, keys_aset, List.map_cons]
    by_cases hk : p.1 ∈ h.keys
    · rw [if_pos hk, List.filter_cons_of_neg (by simpa using hk)]
    · have hrest : ((ps.map Prod.fst).filter fun k => k ∉ h.keys ++ [p.1]) =
          ((ps.map Prod.fst).filter fun k => k ∉ h.keys).filter fun k => !k == p.1 := by
        rw [List.filter_filter]
        refine List.filter_congr fun k _ => ?_
        by_cases hkp : k = p.1 <;> simp [hkp, hk]
      rw [if_neg hk, hrest, List.filter_cons_of_pos (by simpa using hk), List.eraseDups_cons,
        List.append_assoc]
      rfl

/-! ### One hash over another -/

/-- `h.merge!(g)` -/
def update (h g : OrderedHash κ ν) : OrderedHash κ ν := h.asetAll g.entries

private theorem lookup_reverse {es : List (κ × ν)} (hes : (es.map Prod.fst).Nodup) (k : κ) :
    es.reverse.lookup k = es.lookup k := by
  have hrev : (es.reverse.map Prod.fst).Nodup := by
    rw [List.map_reverse]
    exact List.nodup_reverse.mpr hes
  refine Option.ext fun v => ?_
  rw [lookup_eq_some_iff_mem hrev, lookup_eq_some_iff_mem hes, List.mem_reverse]

private theorem eraseDups_of_nodup {ks : List κ} (hks : ks.Nodup) : ks.eraseDups = ks := by
  induction ks with
  | nil => rfl
  | cons k ks ih =>
    obtain ⟨hk, hks⟩ := List.nodup_cons.mp hks
    have hfilter : ks.filter (fun l => !l == k) = ks := by
      refine List.filter_eq_self.mpr fun l hl => ?_
      have hne : l ≠ k := fun heq => hk (heq ▸ hl)
      simpa using hne
    rw [List.eraseDups_cons, hfilter, ih hks]

/-- A value of the upper hash, or else of the lower one. -/
theorem lookup_update (h g : OrderedHash κ ν) (k : κ) :
    (h.update g).lookup k = (g.lookup k).or (h.lookup k) := by
  rw [update, lookup_asetAll, lookup_reverse g.nodup]
  rfl

/-- The keys of the lower hash, and the others of the upper one behind them. -/
theorem keys_update (h g : OrderedHash κ ν) :
    (h.update g).keys = h.keys ++ g.keys.filter fun k => k ∉ h.keys := by
  rw [update, keys_asetAll, eraseDups_of_nodup (g.nodup.filter _)]
  rfl

/-- **Three hashes one over another.** -/
theorem update_assoc (h g f : OrderedHash κ ν) : (h.update g).update f = h.update (g.update f) := by
  refine ext_lookup ?_ fun k => ?_
  · simp only [keys_update, List.filter_append, List.filter_filter, List.append_assoc]
    congr 2
    refine List.filter_congr fun k _ => ?_
    by_cases hg : k ∈ g.keys <;> simp [hg]
  · simp only [lookup_update, Option.or_assoc]

theorem mem_entries_aset {h : OrderedHash κ ν} {k : κ} {v : ν} {e : κ × ν}
    (he : e ∈ (h.aset k v).entries) : e = (k, v) ∨ e ∈ h.entries ∧ e.1 ≠ k := by
  have hlook := lookup_eq_some_iff.mpr he
  rw [lookup_aset] at hlook
  split at hlook
  · next hk => exact Or.inl (Prod.ext hk (Option.some.inj hlook).symm)
  · next hk => exact Or.inr ⟨lookup_eq_some_iff.mp hlook, hk⟩

theorem mem_entries_asetAll {h : OrderedHash κ ν} {ps : List (κ × ν)} {e : κ × ν}
    (he : e ∈ (h.asetAll ps).entries) : e ∈ h.entries ∨ e ∈ ps := by
  induction ps generalizing h with
  | nil => exact Or.inl he
  | cons p ps ih =>
    rcases ih he with he | he
    · rcases mem_entries_aset he with rfl | ⟨he, -⟩
      · exact Or.inr (by simp)
      · exact Or.inl he
    · exact Or.inr (List.mem_cons_of_mem p he)

theorem mem_entries_ofPairs {ps : List (κ × ν)} {e : κ × ν}
    (he : e ∈ (ofPairs ps).entries) : e ∈ ps := by
  simpa using mem_entries_asetAll he

/-! ### Agreement off one key -/

end OrderedHash
