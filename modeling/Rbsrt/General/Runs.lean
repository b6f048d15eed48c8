import Mathlib.Data.List.Basic

/-!
# Runs of a deterministic step function

A system whose environment has been read off into a list of inputs: `step` says what one input
does to a state, and a run is what a list of inputs does. Everything the environment decides
(which event comes next, what a library call returns, what a callback does) is part of the
input, so quantifying over lists of inputs is quantifying over every interleaving.

## The rules

`forall_mem_states` is the usual invariant rule, relative to a side condition that every input
meets in the state it is consumed in.

`forall_mem_states_iff` is its exact companion. A program that keeps a property only under some
condition `C` is described completely by *which* steps break it. When every step out of a good
state lands in a state with the property exactly if it meets `C`, a whole run keeps the property
exactly if all of its steps meet `C`. One step is all that has to be looked at. `along_congr` is
the same for a property of steps.

## Histories

`record` turns a step function with an output into one on states that remember their outputs.
Properties of what a system *did* then become ordinary invariants. `Precedes` and `NeverAfter`
are the two shapes such properties take below. An observer that follows a history and may object
to it (`watch`) establishes both: `precedes_of_watch` and `neverAfter_of_watch` say what it has to
keep track of.
-/

namespace Runs

variable {σ ι ω α : Type*}

/-! ### Executing a list of inputs -/

/-- The state after a list of inputs. -/
def exec (step : σ → ι → σ) (s : σ) (is : List ι) : σ := is.foldl step s

@[simp] theorem exec_nil (step : σ → ι → σ) (s : σ) : exec step s [] = s := rfl

@[simp] theorem exec_cons (step : σ → ι → σ) (s : σ) (i : ι) (is : List ι) :
    exec step s (i :: is) = exec step (step s i) is := rfl

theorem exec_append (step : σ → ι → σ) (s : σ) (is js : List ι) :
    exec step s (is ++ js) = exec step (exec step s is) js := List.foldl_append

/-- Inputs that arrive in batches are consumed one after the other. -/
theorem exec_flatten (step : σ → ι → σ) (s : σ) (bs : List (List ι)) :
    exec step s bs.flatten = exec (exec step) s bs := by
  induction bs generalizing s with
  | nil => rfl
  | cons b bs ih => rw [List.flatten_cons, exec_append, ih, exec_cons]

/-- The states a run passes through, one at the end of each input. -/
def states (step : σ → ι → σ) : σ → List ι → List σ
  | _, [] => []
  | s, i :: is => step s i :: states step (step s i) is

@[simp] theorem states_nil (step : σ → ι → σ) (s : σ) : states step s [] = [] := rfl

@[simp] theorem states_cons (step : σ → ι → σ) (s : σ) (i : ι) (is : List ι) :
    states step s (i :: is) = step s i :: states step (step s i) is := rfl

/-- A run ends in one of the states it passes through, or has not moved. -/
theorem exec_mem_states (step : σ → ι → σ) (s : σ) (is : List ι) :
    exec step s is = s ∨ exec step s is ∈ states step s is := by
  induction is generalizing s with
  | nil => exact Or.inl rfl
  | cons i is ih =>
    right
    rcases ih (step s i) with h | h
    · simp [h]
    · exact List.mem_cons_of_mem _ h

/-- Every input meets `C` in the state it is consumed in. -/
def Along (step : σ → ι → σ) (C : σ → ι → Prop) : σ → List ι → Prop
  | _, [] => True
  | s, i :: is => C s i ∧ Along step C (step s i) is

@[simp] theorem along_nil (step : σ → ι → σ) (C : σ → ι → Prop) (s : σ) :
    Along step C s [] := trivial

@[simp] theorem along_cons (step : σ → ι → σ) (C : σ → ι → Prop) (s : σ) (i : ι) (is : List ι) :
    Along step C s (i :: is) ↔ C s i ∧ Along step C (step s i) is := Iff.rfl

instance decidableAlong (step : σ → ι → σ) (C : σ → ι → Prop) [∀ s i, Decidable (C s i)] :
    ∀ (s : σ) (is : List ι), Decidable (Along step C s is)
  | _, [] => isTrue trivial
  | s, i :: is =>
    have := decidableAlong step C (step s i) is
    inferInstanceAs (Decidable (C s i ∧ Along step C (step s i) is))

/-- A condition that does not look at the state is a condition on every input. -/
theorem along_const {step : σ → ι → σ} {C : ι → Prop} {s : σ} {is : List ι} :
    Along step (fun _ i => C i) s is ↔ ∀ i ∈ is, C i := by
  induction is generalizing s with
  | nil => simp
  | cons i is ih => simp [ih]

theorem along_append {step : σ → ι → σ} {C : σ → ι → Prop} {s : σ} {is js : List ι} :
    Along step C s (is ++ js) ↔ Along step C s is ∧ Along step C (exec step s is) js := by
  induction is generalizing s with
  | nil => simp
  | cons i is ih => rw [List.cons_append, along_cons, along_cons, ih, and_assoc, exec_cons]

theorem Along.mono {step : σ → ι → σ} {C D : σ → ι → Prop} {s : σ} {is : List ι}
    (h : Along step C s is) (hCD : ∀ s i, C s i → D s i) : Along step D s is := by
  induction is generalizing s with
  | nil => trivial
  | cons i is ih => exact ⟨hCD s i h.1, ih h.2⟩

theorem Along.and {step : σ → ι → σ} {C D : σ → ι → Prop} {s : σ} {is : List ι}
    (hC : Along step C s is) (hD : Along step D s is) :
    Along step (fun s i => C s i ∧ D s i) s is := by
  induction is generalizing s with
  | nil => trivial
  | cons i is ih => exact ⟨⟨hC.1, hD.1⟩, ih hC.2 hD.2⟩

/-! ### The rules -/

variable {step : σ → ι → σ} {I Q : σ → Prop} {A C : σ → ι → Prop} {s : σ} {is : List ι}

/-- **The invariant rule.** What every step that meets `A` preserves holds in every state of a
run along which `A` is met. -/
theorem forall_mem_states (hstep : ∀ s i, I s → A s i → I (step s i)) (hs : I s)
    (hA : Along step A s is) : ∀ t ∈ states step s is, I t := by
  induction is generalizing s with
  | nil => simp
  | cons i is ih =>
    have hnext : I (step s i) := hstep s i hs hA.1
    simpa [hnext] using ih hnext hA.2

/-- The same for the state a run ends in. -/
theorem exec_induction (hstep : ∀ s i, I s → A s i → I (step s i)) (hs : I s)
    (hA : Along step A s is) : I (exec step s is) := by
  rcases exec_mem_states step s is with heq | hmem
  · rwa [heq]
  · exact forall_mem_states hstep hs hA _ hmem

/-- **The exact rule.** If a step out of a state with `I` reaches a state with `Q` exactly when
it meets `C`, and steps that meet `C` keep `I`, then a run keeps `Q` exactly when all of its
steps meet `C`. The assumptions `A` on the environment are met throughout. -/
theorem forall_mem_states_iff (hkeep : ∀ s i, I s → A s i → C s i → I (step s i))
    (hexact : ∀ s i, I s → A s i → (Q (step s i) ↔ C s i)) (hs : I s) (hA : Along step A s is) :
    (∀ t ∈ states step s is, Q t) ↔ Along step C s is := by
  induction is generalizing s with
  | nil => simp
  | cons i is ih =>
    simp only [states_cons, List.forall_mem_cons, along_cons]
    constructor
    · rintro ⟨hQ, hrest⟩
      have hC : C s i := (hexact s i hs hA.1).mp hQ
      exact ⟨hC, (ih (hkeep s i hs hA.1 hC) hA.2).mp hrest⟩
    · rintro ⟨hC, hrest⟩
      exact ⟨(hexact s i hs hA.1).mpr hC, (ih (hkeep s i hs hA.1 hC) hA.2).mpr hrest⟩

/-- **The pointwise rule.** Two conditions that agree on every step out of a state with `I` are met
by the same runs. -/
theorem along_congr {P : σ → ι → Prop} (hstep : ∀ s i, I s → A s i → I (step s i))
    (hiff : ∀ s i, I s → A s i → (P s i ↔ C s i)) (hs : I s) (hA : Along step A s is) :
    Along step P s is ↔ Along step C s is := by
  induction is generalizing s with
  | nil => simp
  | cons i is ih =>
    rw [along_cons, along_cons, hiff s i hs hA.1, ih (hstep s i hs hA.1) hA.2]

/-- What holds of every step out of a state with the invariant holds along every run. -/
theorem along_of_invariant {P : σ → ι → Prop} (hstep : ∀ s i, I s → I (step s i))
    (hP : ∀ s i, I s → P s i) (hs : I s) : Along step P s is := by
  induction is generalizing s with
  | nil => trivial
  | cons i is ih => exact ⟨hP s i hs, ih (hstep s i hs)⟩

/-! ### Histories -/

/-- A state together with everything put out so far. -/
structure Recorded (σ ω : Type*) where
  state : σ
  log : List ω

/-- A change of the state that is not seen. -/
def Recorded.update (r : Recorded σ ω) (f : σ → σ) : Recorded σ ω := ⟨f r.state, r.log⟩

/-- One more output. -/
def Recorded.tell (r : Recorded σ ω) (o : ω) : Recorded σ ω := ⟨r.state, r.log ++ [o]⟩

@[simp] theorem update_state (r : Recorded σ ω) (f : σ → σ) : (r.update f).state = f r.state := rfl

@[simp] theorem update_log (r : Recorded σ ω) (f : σ → σ) : (r.update f).log = r.log := rfl

@[simp] theorem tell_state (r : Recorded σ ω) (o : ω) : (r.tell o).state = r.state := rfl

@[simp] theorem tell_log (r : Recorded σ ω) (o : ω) : (r.tell o).log = r.log ++ [o] := rfl

/-- One step of a system with outputs, remembering them. -/
def record (step : σ → ι → σ × List ω) (r : Recorded σ ω) (i : ι) : Recorded σ ω :=
  ⟨(step r.state i).1, r.log ++ (step r.state i).2⟩

@[simp] theorem record_state (step : σ → ι → σ × List ω) (r : Recorded σ ω) (i : ι) :
    (record step r i).state = (step r.state i).1 := rfl

@[simp] theorem record_log (step : σ → ι → σ × List ω) (r : Recorded σ ω) (i : ι) :
    (record step r i).log = r.log ++ (step r.state i).2 := rfl

/-- Every `q` in the history comes after a `p`. -/
def Precedes (p q : α → Prop) (t : List α) : Prop :=
  ∀ t₁ x t₂, t = t₁ ++ x :: t₂ → q x → ∃ y ∈ t₁, p y

/-- After a `p` there is no `q` any more. With `p = q` this says *at most once*. -/
def NeverAfter (p q : α → Prop) (t : List α) : Prop := t.Pairwise fun x y => p x → ¬ q y

instance (p q : α → Prop) [DecidablePred p] [DecidablePred q] (t : List α) :
    Decidable (NeverAfter p q t) :=
  inferInstanceAs (Decidable (t.Pairwise fun x y => p x → ¬ q y))

theorem NeverAfter.of_append {p q : α → Prop} {t₁ t₂ : List α} {x : α}
    (h : NeverAfter p q (t₁ ++ x :: t₂)) (hp : p x) : ∀ y ∈ t₂, ¬ q y := fun y hy =>
  (List.pairwise_cons.mp (List.pairwise_append.mp h).2.1).1 y hy hp

/-! ### Observers -/

/-- What an observer that can object has made of a history, if it never objected. -/
def watch (δ : σ → α → Option σ) (s : σ) (t : List α) : Option σ := t.foldlM δ s

@[simp] theorem watch_nil (δ : σ → α → Option σ) (s : σ) : watch δ s [] = some s := rfl

@[simp] theorem watch_cons (δ : σ → α → Option σ) (s : σ) (x : α) (t : List α) :
    watch δ s (x :: t) = (δ s x).bind fun s' => watch δ s' t := rfl

theorem watch_append (δ : σ → α → Option σ) (s : σ) (t u : List α) :
    watch δ s (t ++ u) = (watch δ s t).bind fun s' => watch δ s' u := List.foldlM_append

theorem watch_concat {δ : σ → α → Option σ} {s s' s'' : σ} {t : List α} {x : α}
    (ht : watch δ s t = some s') (hx : δ s' x = some s'') : watch δ s (t ++ [x]) = some s'' := by
  rw [watch_append, ht, Option.bind_some, watch_cons, hx, Option.bind_some, watch_nil]

/-- An accepted history, cut after its first element. -/
theorem exists_of_watch_cons {δ : σ → α → Option σ} {s s₂ : σ} {x : α} {t : List α}
    (h : watch δ s (x :: t) = some s₂) : ∃ s₁, δ s x = some s₁ ∧ watch δ s₁ t = some s₂ :=
  Option.bind_eq_some_iff.mp (watch_cons δ s x t ▸ h)

/-- An accepted history, cut at one of its elements. -/
theorem watch_split {δ : σ → α → Option σ} {s s₃ : σ} {t₁ t₂ : List α} {x : α}
    (h : watch δ s (t₁ ++ x :: t₂) = some s₃) :
    ∃ s₁ s₂, watch δ s t₁ = some s₁ ∧ δ s₁ x = some s₂ ∧ watch δ s₂ t₂ = some s₃ := by
  rw [watch_append, Option.bind_eq_some_iff] at h
  obtain ⟨s₁, h₁, h⟩ := h
  obtain ⟨s₂, h₂, h₃⟩ := exists_of_watch_cons h
  exact ⟨s₁, s₂, h₁, h₂, h₃⟩

variable {δ : σ → α → Option σ} {p q : α → Prop} {t : List α} {s' : σ}

/-- What every step that is not objected to preserves holds at the end. -/
theorem watch_induction {R : σ → Prop}
    (hstep : ∀ s, ∀ x ∈ t, ∀ s', δ s x = some s' → R s → R s')
    (hs : R s) (h : watch δ s t = some s') : R s' := by
  induction t generalizing s with
  | nil => exact Option.some.inj h ▸ hs
  | cons x t ih =>
    obtain ⟨s₂, h₂, h₃⟩ := exists_of_watch_cons h
    exact ih (fun r y hy => hstep r y (List.mem_cons_of_mem x hy)) (hstep s x (by simp) s₂ h₂ hs) h₃

/-- Something an observer begins without, gets only from a `p`, and wants to have at a `q`. -/
theorem precedes_of_watch {R : σ → Prop} (hs : ¬ R s)
    (hget : ∀ s x s', δ s x = some s' → ¬ p x → ¬ R s → ¬ R s')
    (hwant : ∀ s x s', δ s x = some s' → q x → R s) (h : watch δ s t = some s') :
    Precedes p q t := by
  rintro t₁ x t₂ rfl hq
  obtain ⟨s₁, s₂, h₁, h₂, -⟩ := watch_split h
  by_contra hnone
  have hnot : ¬ R s₁ := watch_induction (R := fun r => ¬ R r)
    (fun r y hy r' hr => hget r y r' hr fun hp => hnone ⟨y, hy, hp⟩) hs h₁
  exact hnot (hwant s₁ x s₂ h₂ hq)

/-- Something an observer has from a `p` on, never loses again, and does not want at a `q`. -/
theorem neverAfter_of_watch {R : σ → Prop} (hget : ∀ s x s', δ s x = some s' → p x → R s')
    (hkeep : ∀ s x s', δ s x = some s' → R s → R s')
    (hwant : ∀ s x s', δ s x = some s' → R s → ¬ q x) (h : watch δ s t = some s') :
    NeverAfter p q t := by
  induction t generalizing s with
  | nil => exact List.Pairwise.nil
  | cons x t ih =>
    obtain ⟨s₂, h₂, h₃⟩ := exists_of_watch_cons h
    refine List.pairwise_cons.mpr ⟨fun y hy hp => ?_, ih h₃⟩
    obtain ⟨u₁, u₂, rfl⟩ := List.append_of_mem hy
    obtain ⟨r₁, r₂, hr₁, hr₂, -⟩ := watch_split h₃
    have hR : R r₁ := watch_induction (fun s x _ => hkeep s x) (hget s x s₂ h₂ hp) hr₁
    exact hwant r₁ y r₂ hr₂ hR

end Runs
