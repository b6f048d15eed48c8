import Mathlib.Data.List.Basic
import Mathlib.Logic.Function.Basic
import Mathlib.Logic.Relation

/-!
# A heap with a collector

Objects have numbers and refer to other objects by them. What an object refers to is what it lets
the collector mark, `marked`; the numbers on the stacks and in variables are the roots, `held`.
Following the one from the other gives the objects that are `Reachable`, and a collector may free
any that are not.

A heap is `Safe` if nothing reachable has been freed. A program that only stores references it can
reach keeps it safe, and so does the collector: no change below makes an object reachable that was
not, other than a new one. This is where `marked` matters. A reference that a program can follow
but the collector cannot see is not covered.

## Main results

* `Heap.Reachable.induction` — what is closed under references has everything reachable in it
* `Heap.Safe.alloc`, `Heap.Safe.modify`, `Heap.Safe.hold`, `Heap.Safe.drop`, `Heap.Safe.free` — the
  changes
-/

/-- Objects by number, and the numbers that are held. -/
structure Heap (ω : Type*) where
  objects : ℕ → Option ω
  next : ℕ
  unused : ∀ k, next ≤ k → objects k = none
  held : List ℕ

namespace Heap

variable {ω : Type*}

/-- Nothing is there. -/
def empty : Heap ω := ⟨fun _ => none, 0, fun _ _ => rfl, []⟩

/-- A new object, which is held. -/
def alloc (o : ω) (h : Heap ω) : Heap ω where
  objects := Function.update h.objects h.next (some o)
  next := h.next + 1
  unused := by
    intro k hk
    rw [Function.update_of_ne (by omega)]
    exact h.unused k (by omega)
  held := h.next :: h.held

/-- Changing an object, if it is there. -/
def modify (k : ℕ) (f : ω → ω) (h : Heap ω) : Heap ω where
  objects := Function.update h.objects k ((h.objects k).map f)
  next := h.next
  unused := by
    intro j hj
    by_cases hjk : j = k
    · rw [hjk, Function.update_self, h.unused k (hjk ▸ hj)]
      rfl
    · rw [Function.update_of_ne hjk, h.unused j hj]
  held := h.held

/-- Holding an object. -/
def hold (k : ℕ) (h : Heap ω) : Heap ω := { h with held := k :: h.held }

/-- Holding it no longer. -/
def drop (k : ℕ) (h : Heap ω) : Heap ω := { h with held := h.held.erase k }

/-- Freeing an object. -/
def free (k : ℕ) (h : Heap ω) : Heap ω where
  objects := Function.update h.objects k none
  next := h.next
  unused := by
    intro j hj
    by_cases hjk : j = k
    · rw [hjk, Function.update_self]
    · rw [Function.update_of_ne hjk, h.unused j hj]
  held := h.held

/-- The object is there. -/
def Alive (h : Heap ω) (k : ℕ) : Prop := (h.objects k).isSome

instance (h : Heap ω) (k : ℕ) : Decidable (h.Alive k) := inferInstanceAs (Decidable (_ = true))

@[simp] theorem objects_alloc_self (o : ω) (h : Heap ω) :
    (h.alloc o).objects h.next = some o := Function.update_self _ _ _

theorem objects_alloc_of_ne {o : ω} {k : ℕ} {h : Heap ω} (hk : k ≠ h.next) :
    (h.alloc o).objects k = h.objects k := Function.update_of_ne hk _ _

@[simp] theorem objects_modify_self (k : ℕ) (f : ω → ω) (h : Heap ω) :
    (h.modify k f).objects k = (h.objects k).map f := Function.update_self _ _ _

theorem objects_modify_of_ne {k j : ℕ} {f : ω → ω} {h : Heap ω} (hj : j ≠ k) :
    (h.modify k f).objects j = h.objects j := Function.update_of_ne hj _ _

theorem objects_free_of_ne {k j : ℕ} {h : Heap ω} (hj : j ≠ k) :
    (h.free k).objects j = h.objects j := Function.update_of_ne hj _ _

theorem alive_alloc {o : ω} {k : ℕ} {h : Heap ω} :
    (h.alloc o).Alive k ↔ k = h.next ∨ h.Alive k := by
  by_cases hk : k = h.next
  · rw [Alive, hk, objects_alloc_self]
    exact iff_of_true rfl (Or.inl rfl)
  · rw [Alive, objects_alloc_of_ne hk]
    exact (or_iff_right hk).symm

theorem alive_modify {k j : ℕ} {f : ω → ω} {h : Heap ω} : (h.modify k f).Alive j ↔ h.Alive j := by
  by_cases hj : j = k
  · rw [Alive, hj, objects_modify_self, Option.isSome_map]
    rfl
  · rw [Alive, objects_modify_of_ne hj]
    rfl

/-! ### Reachability -/

variable {marked : ω → List ℕ} {h h' : Heap ω} {k j : ℕ}

/-- `k` is an object that lets `j` be marked. -/
def Refers (marked : ω → List ℕ) (h : Heap ω) (k j : ℕ) : Prop :=
  ∃ o, h.objects k = some o ∧ j ∈ marked o

/-- Found by following references from what is held. -/
def Reachable (marked : ω → List ℕ) (h : Heap ω) (k : ℕ) : Prop :=
  ∃ r ∈ h.held, Relation.ReflTransGen (h.Refers marked) r k

theorem Reachable.of_held (hk : k ∈ h.held) : h.Reachable marked k := ⟨k, hk, .refl⟩

theorem Reachable.refers (hk : h.Reachable marked k) (hkj : h.Refers marked k j) :
    h.Reachable marked j := by
  obtain ⟨r, hr, hrk⟩ := hk
  exact ⟨r, hr, hrk.tail hkj⟩

/-- **What holds of everything held and is passed on by references** holds of everything
reachable. -/
theorem Reachable.induction {P : ℕ → Prop} (hheld : ∀ r ∈ h.held, P r)
    (hrefers : ∀ a b, P a → h.Refers marked a b → P b) (hk : h.Reachable marked k) : P k := by
  obtain ⟨r, hr, hrk⟩ := hk
  induction hrk with
  | refl => exact hheld r hr
  | tail _ hbc ih => exact hrefers _ _ ih hbc

/-- A set of objects that is closed under references, as a list. -/
theorem not_reachable_of_closed (ks : List ℕ) (hheld : ∀ r ∈ h.held, r ∈ ks)
    (hclosed : ∀ a ∈ ks, ∀ b ∈ ((h.objects a).map marked).getD [], b ∈ ks) (hk : k ∉ ks) :
    ¬ h.Reachable marked k := by
  intro hreach
  refine hk (hreach.induction (P := (· ∈ ks)) hheld ?_)
  rintro a b ha ⟨o, ho, hb⟩
  refine hclosed a ha b ?_
  rw [ho]
  exact hb

/-! ### Safety -/

/-- Nothing reachable has been freed. -/
def Safe (marked : ω → List ℕ) (h : Heap ω) : Prop := ∀ k, h.Reachable marked k → h.Alive k

theorem safe_empty : Safe marked (empty : Heap ω) := by
  intro k hk
  refine (hk.induction (P := fun _ => False) (fun r hr => ?_) fun _ _ hfalse _ => hfalse).elim
  exact List.not_mem_nil hr

/-- A change after which no more is held, and no more referred to, than could be reached before. -/
theorem Safe.of_le (hsafe : Safe marked h) (hheld : ∀ r ∈ h'.held, h.Reachable marked r)
    (hrefers : ∀ a b, h.Reachable marked a → h'.Refers marked a b → h.Reachable marked b)
    (halive : ∀ a, h.Reachable marked a → h.Alive a → h'.Alive a) : Safe marked h' := by
  intro k hk
  have hbefore := hk.induction hheld hrefers
  exact halive k hbefore (hsafe k hbefore)

/-- **A new object** that refers to what can be reached. -/
theorem Safe.alloc (hsafe : Safe marked h) {o : ω} (ho : ∀ j ∈ marked o, h.Reachable marked j) :
    Safe marked (h.alloc o) := by
  intro k hk
  have hbefore : k = h.next ∨ h.Reachable marked k := by
    refine hk.induction (P := fun k => k = h.next ∨ h.Reachable marked k) ?_ ?_
    · intro r hr
      rcases List.mem_cons.mp hr with rfl | hr
      · exact Or.inl rfl
      · exact Or.inr (.of_held hr)
    · rintro a b ha ⟨o', ho', hb⟩
      by_cases hnext : a = h.next
      · rw [hnext, objects_alloc_self] at ho'
        obtain rfl := Option.some.inj ho'
        exact Or.inr (ho b hb)
      · rw [objects_alloc_of_ne hnext] at ho'
        exact Or.inr ((ha.resolve_left hnext).refers ⟨o', ho', hb⟩)
  exact alive_alloc.mpr (hbefore.imp_right (hsafe k))

/-- **A change of an object** that stores nothing in it but what can be reached. -/
theorem Safe.modify (hsafe : Safe marked h) {f : ω → ω}
    (hf : ∀ o, ∀ j ∈ marked (f o), j ∈ marked o ∨ h.Reachable marked j) :
    Safe marked (h.modify k f) := by
  refine hsafe.of_le (fun r hr => .of_held hr) ?_ fun a _ ha => alive_modify.mpr ha
  rintro a b ha ⟨o', ho', hb⟩
  by_cases hak : a = k
  · rw [hak, objects_modify_self, Option.map_eq_some_iff] at ho'
    obtain ⟨o, ho, rfl⟩ := ho'
    rcases hf o b hb with hold | hreach
    · exact ha.refers ⟨o, hak ▸ ho, hold⟩
    · exact hreach
  · rw [objects_modify_of_ne hak] at ho'
    exact ha.refers ⟨o', ho', hb⟩

theorem Safe.hold (hsafe : Safe marked h) (hk : h.Reachable marked k) : Safe marked (h.hold k) := by
  refine hsafe.of_le ?_ (fun a b ha hab => ha.refers hab) fun _ _ ha => ha
  intro r hr
  rcases List.mem_cons.mp hr with rfl | hr
  · exact hk
  · exact .of_held hr

theorem Safe.drop (hsafe : Safe marked h) : Safe marked (h.drop k) :=
  hsafe.of_le (fun _ hr => .of_held (List.mem_of_mem_erase hr)) (fun _ _ ha hab => ha.refers hab)
    fun _ _ ha => ha

/-- **The collector** frees what cannot be reached. -/
theorem Safe.free (hsafe : Safe marked h) (hk : ¬ h.Reachable marked k) :
    Safe marked (h.free k) := by
  refine hsafe.of_le (fun r hr => .of_held hr) ?_ ?_
  · rintro a b ha ⟨o, ho, hb⟩
    have hak : a ≠ k := fun heq => hk (heq ▸ ha)
    rw [objects_free_of_ne hak] at ho
    exact ha.refers ⟨o, ho, hb⟩
  · intro a ha halive
    have hak : a ≠ k := fun heq => hk (heq ▸ ha)
    rw [Alive, objects_free_of_ne hak]
    exact halive

end Heap
