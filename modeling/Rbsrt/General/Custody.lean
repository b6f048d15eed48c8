import Mathlib.Data.Finset.Insert

/-!
# Resources with one holder

Resources are opened and closed by somebody else; what the program has of them is their names, each
stored in a holder, and a resource that is open and stored nowhere can never be closed again. What
each holder stores, if it is alive, is `holds`. It may be the name of a resource that is closed
already, and several holders may have that.

## The rules

A change is one of a few. A holder comes with a resource of its own (`Owned.grant`) or with the name
of none (`owned_hold_iff`), a resource is closed (`Owned.mono`), a holder goes (`owned_drop_iff`),
or a resource is opened that nobody holds (`not_owned_insert`). All of them are exact.
-/

namespace Custody

variable {κ α : Type*} {opened : Finset α} {holds : κ → Option α} {k : κ} {a : α}

/-- Every open resource is stored in exactly one holder. -/
def Owned (opened : Finset α) (holds : κ → Option α) : Prop :=
  ∀ a ∈ opened, ∃! k, holds k = some a

theorem Owned.mono {opened' : Finset α} (h : Owned opened holds) (hsub : opened' ⊆ opened) :
    Owned opened' holds := fun a ha => h a (hsub ha)

/-- Without holders there is nothing open. -/
theorem Owned.eq_empty (h : Owned opened holds) (hnone : ∀ k, holds k = none) : opened = ∅ := by
  refine Finset.eq_empty_of_forall_notMem fun a ha => ?_
  obtain ⟨k, hk, -⟩ := h a ha
  exact Option.some_ne_none a (hk.symm.trans (hnone k))

/-- What is opened must be held by somebody. -/
theorem not_owned_insert [DecidableEq α] (hnone : ∀ k, holds k ≠ some a) :
    ¬ Owned (insert a opened) holds := by
  intro h
  obtain ⟨k, hk, -⟩ := h a (Finset.mem_insert_self a opened)
  exact hnone k hk

variable [DecidableEq κ]

/-- A change at a free holder does not concern who stores something else. -/
theorem existsUnique_update_iff {b : α} {v : Option α} (hk : holds k ≠ some b) (hv : v ≠ some b) :
    (∃! j, Function.update holds k v j = some b) ↔ ∃! j, holds j = some b := by
  refine existsUnique_congr fun j => ?_
  by_cases hj : j = k
  · subst hj
    simp [hk, hv]
  · rw [Function.update_of_ne hj]

/-- **A holder comes with a resource of its own.** -/
theorem Owned.grant [DecidableEq α] (h : Owned opened holds) (hk : holds k = none)
    (hnone : ∀ j, holds j ≠ some a) :
    Owned (insert a opened) (Function.update holds k (some a)) := by
  intro b hb
  by_cases hba : b = a
  · subst hba
    refine ⟨k, Function.update_self .., fun j hj => ?_⟩
    by_contra hjk
    exact hnone j (Function.update_of_ne hjk (some b) holds ▸ hj)
  · have hne : some a ≠ some b := fun hab => hba (Option.some.inj hab).symm
    rw [existsUnique_update_iff (by simp [hk]) hne]
    exact h b (Finset.mem_of_mem_insert_of_ne hb hba)

/-- A holder comes with a name only: that of nothing that is open. -/
theorem owned_hold_iff (h : Owned opened holds) (hk : holds k = none) :
    Owned opened (Function.update holds k (some a)) ↔ a ∉ opened := by
  constructor
  · intro h' ha
    obtain ⟨j, hj, -⟩ := h a ha
    have hjk : j ≠ k := by
      rintro rfl
      exact Option.some_ne_none a (hj.symm.trans hk)
    have hj' : Function.update holds k (some a) j = some a := by rwa [Function.update_of_ne hjk]
    exact hjk ((h' a ha).unique hj' (Function.update_self ..))
  · intro ha b hb
    have hne : some a ≠ some b := fun hab => ha (Option.some.inj hab ▸ hb)
    rw [existsUnique_update_iff (by simp [hk]) hne]
    exact h b hb

/-- **A holder goes.** What it stores must have been closed. -/
theorem owned_drop_iff (h : Owned opened holds) :
    Owned opened (Function.update holds k none) ↔ ∀ a, holds k = some a → a ∉ opened := by
  constructor
  · intro h' a hk ha
    obtain ⟨j, hj, -⟩ := h' a ha
    have hjk : j ≠ k := by
      rintro rfl
      rw [Function.update_self] at hj
      exact Option.some_ne_none a hj.symm
    rw [Function.update_of_ne hjk] at hj
    exact hjk ((h a ha).unique hj hk)
  · intro hclosed b hb
    rw [existsUnique_update_iff (fun hk => hclosed b hk hb) (by simp)]
    exact h b hb

end Custody
