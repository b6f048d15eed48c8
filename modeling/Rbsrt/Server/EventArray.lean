import Rbsrt.Server.Loop

/-!
# The array of events

`srt_epoll_uwait` writes the events of a batch into an array on the stack of `rbsrt_server_start`,
and the `for` loop runs up to the number it returns. When more sockets are ready than the array
has entries, this number is one more than there are: libsrt says so by returning `fdsSize + 1`.
The loop then reads one entry past the end, and handles whatever it finds there as an event.

The number makes its way from `rbsrt_server_epoll_wait` to the loop through a `void *`
(`pointerOfInt`, `intOfPointer`); that loses nothing.

## Main results

* `exec_pass` — a run of the loop over event arrays is a run of `Server.Loop` over batches
* `reportedOnly_iff` — the events that are handled were reported exactly if no more than 1024
  sockets were ready at once
-/

namespace Rbsrt

namespace Server

variable {w : ℕ}

/-! ### One pass of the `while` loop -/

/-- `SRT_EPOLL_EVENT events[1024]`, and `args.num_events` -/
def maxEvents : ℕ := 1024

/-- `(void *)(uintptr_t)n` -/
def pointerOfInt (n : BitVec 32) : BitVec 64 := n.signExtend 64

/-- `(int)(uintptr_t)p` -/
def intOfPointer (p : BitVec 64) : BitVec 32 := p.setWidth 32

theorem intOfPointer_pointerOfInt (n : BitVec 32) : intOfPointer (pointerOfInt n) = n := by
  refine BitVec.eq_of_getLsbD_eq fun i hi => ?_
  have hi' : i < 64 := by omega
  simp [intOfPointer, pointerOfInt, BitVec.getElem_signExtend, hi, hi']

/-- What the environment does in one pass: what `srt_epoll_uwait` finds, what lies in memory from
the array on before the call, and the answers while the events are handled. -/
structure Pass where
  uwait : Uwait
  memory : ℕ → Event
  answers : ℕ → Answers

namespace Pass

/-- `num_events` -/
def numEvents (p : Pass) : BitVec 32 := intOfPointer (pointerOfInt (p.uwait.returned maxEvents))

/-- `args.events[i]`, after the call. -/
def read (p : Pass) (i : ℕ) : Event := p.uwait.fill maxEvents p.memory i

/-- The indices the `for` loop goes through, unless an exception leaves it. -/
def indices (p : Pass) : List ℕ := List.range p.numEvents.toInt.toNat

/-- The events at these indices. -/
def batch (p : Pass) : List (Event × Answers) := p.indices.map fun i => (p.read i, p.answers i)

end Pass

/-- One index of the `for` loop. What it puts out is the index it reads. -/
def handleIndex (p : Pass) (h : History w) (i : ℕ) : History w × List ℕ :=
  if h.state.raised then (h, []) else (handleEvent h (p.read i, p.answers i), [i])

/-- The `for` loop, with the indices that are read. -/
def handleIndices (p : Pass) (h : History w) : Runs.Recorded (History w) ℕ :=
  Runs.exec (Runs.record (handleIndex p)) ⟨h, []⟩ p.indices

/-- One pass of the `while` loop. -/
def pass (h : History w) (p : Pass) : History w := (handleIndices p h).state

/-! ### Passes are batches -/

variable {h : History w} {p : Pass}

/-- Whatever the indices are, the events at them are handled in order. -/
theorem state_exec_handleIndex (r : Runs.Recorded (History w) ℕ) (is : List ℕ) :
    (Runs.exec (Runs.record (handleIndex p)) r is).state =
      Runs.exec handleEvent r.state (is.map fun i => (p.read i, p.answers i)) := by
  induction is generalizing r with
  | nil => rfl
  | cons i is ih =>
    rw [Runs.exec_cons, ih, List.map_cons, Runs.exec_cons, Runs.record_state]
    congr 1
    rw [handleIndex, handleEvent]
    split <;> rfl

theorem pass_eq (h : History w) (p : Pass) : pass h p = Runs.exec handleEvent h p.batch :=
  state_exec_handleIndex ⟨h, []⟩ p.indices

/-- **A run over event arrays is a run over batches.** -/
theorem exec_pass (socket : SRTSOCKET) (ps : List Pass) :
    Runs.exec pass (start w socket) ps = run w socket (ps.map Pass.batch) := by
  have hpass : ∀ (ps : List Pass) (h : History w),
      Runs.exec pass h ps = Runs.exec (Runs.exec handleEvent) h (ps.map Pass.batch) := by
    intro ps
    induction ps with
    | nil => exact fun _ => rfl
    | cons p ps ih => exact fun h => (ih (pass h p)).trans (by rw [pass_eq]; rfl)
  exact hpass ps (start w socket)

/-! ### The indices -/

theorem indices_eq (p : Pass) : p.indices = List.range (p.uwait.announced maxEvents) := by
  rw [Pass.indices, Pass.numEvents, intOfPointer_pointerOfInt, Uwait.toNat_returned _ (by decide)]

/-- Only indices of the loop are read. -/
theorem mem_indices_of_mem_log (r : Runs.Recorded (History w) ℕ) (is : List ℕ) :
    ∀ i ∈ (Runs.exec (Runs.record (handleIndex p)) r is).log, i ∈ r.log ∨ i ∈ is := by
  induction is generalizing r with
  | nil => exact fun i hi => Or.inl hi
  | cons j is ih =>
    intro i hi
    rcases ih _ i hi with h | h
    · rw [Runs.record_log, List.mem_append, handleIndex] at h
      rcases h with h | h
      · exact Or.inl h
      · split at h
        · simp at h
        · exact Or.inr (List.mem_cons.mpr (Or.inl (List.mem_singleton.mp h)))
    · exact Or.inr (List.mem_cons_of_mem j h)

/-- If no block raises, all of them are read. -/
theorem log_exec_handleIndex (hblock : ∀ i, (p.answers i).block.result ≠ none)
    (r : Runs.Recorded (History w) ℕ) (hraised : r.state.state.raised = false) (is : List ℕ) :
    (Runs.exec (Runs.record (handleIndex p)) r is).log = r.log ++ is ∧
      (Runs.exec (Runs.record (handleIndex p)) r is).state.state.raised = false := by
  induction is generalizing r with
  | nil => exact ⟨(List.append_nil _).symm, hraised⟩
  | cons j is ih =>
    have hstep : handleIndex p r.state j = (handleEvent r.state (p.read j, p.answers j), [j]) := by
      rw [handleIndex, hraised]
      rfl
    have hnext := ih (Runs.record (handleIndex p) r j)
      (by rw [Runs.record_state, hstep]; exact handleEvent_raised hraised (hblock j))
    rw [Runs.exec_cons]
    refine ⟨hnext.1.trans ?_, hnext.2⟩
    rw [Runs.record_log, hstep, List.append_assoc]
    rfl

/-! ### Runs -/

/-- Every event that is handled is in the array, was written by this call, and is one that was
found. -/
def ReportedOnly (h : History w) (p : Pass) : Prop :=
  ∀ i ∈ (handleIndices p h).log,
    i < maxEvents ∧ i < p.uwait.written maxEvents ∧ p.uwait.Reports (p.read i)

theorem reportedOnly_of_fits (h : History w) (hfits : p.uwait.Fits maxEvents) :
    ReportedOnly h p := by
  intro i hi
  have hmem : i ∈ p.indices := by
    rcases mem_indices_of_mem_log ⟨h, []⟩ p.indices i hi with hlog | hmem
    · simp at hlog
    · exact hmem
  rw [indices_eq, List.mem_range] at hmem
  have hwritten : i < p.uwait.written maxEvents ∧ p.uwait.written maxEvents ≤ maxEvents := by
    cases hu : p.uwait with
    | error code neg => simp [hu, Uwait.announced] at hmem
    | ready events =>
      have hle : events.length ≤ maxEvents := by rwa [hu] at hfits
      rw [hu, Uwait.announced] at hmem
      exact ⟨Nat.lt_min.mpr ⟨by omega, by omega⟩, Nat.min_le_right _ _⟩
  exact ⟨by omega, hwritten.1, Uwait.reports_fill p.memory hwritten.1⟩

/-- If no block raises, a batch that does not fit makes the loop read past the end. -/
theorem fits_of_reportedOnly (hraised : h.state.raised = false)
    (hblock : ∀ i, (p.answers i).block.result ≠ none) (hreported : ReportedOnly h p) :
    p.uwait.Fits maxEvents := by
  have hlog := (log_exec_handleIndex hblock ⟨h, []⟩ hraised p.indices).1
  cases hu : p.uwait with
  | error code neg => trivial
  | ready events =>
    by_contra hnot
    have hmany : maxEvents < events.length := Nat.lt_of_not_le hnot
    have hlast : maxEvents ∈ (handleIndices p h).log := by
      rw [handleIndices, hlog, indices_eq, hu, List.nil_append]
      exact List.mem_range.mpr (Nat.lt_min.mpr ⟨hmany, Nat.lt_succ_self _⟩)
    exact absurd (hreported maxEvents hlast).1 (Nat.lt_irrefl _)

/-- **Only reported events are handled exactly if every batch fits into the array.** That it
fits is enough in any run; it is necessary in runs in which no block raises, since an exception
leaves the loop before it reads too far. -/
theorem reportedOnly_iff (socket : SRTSOCKET) (ps : List Pass) :
    ((∀ p ∈ ps, p.uwait.Fits maxEvents) → Runs.Along pass ReportedOnly (start w socket) ps) ∧
      ((∀ p ∈ ps, ∀ i, (p.answers i).block.result ≠ none) →
        (Runs.Along pass ReportedOnly (start w socket) ps ↔
          ∀ p ∈ ps, p.uwait.Fits maxEvents)) := by
  refine ⟨fun hfits => (Runs.along_const.mpr hfits).mono fun h p => reportedOnly_of_fits h,
    fun hblock => ?_⟩
  have hconst : Runs.Along pass (fun _ p => p.uwait.Fits maxEvents) (start w socket) ps ↔
      ∀ p ∈ ps, p.uwait.Fits maxEvents := Runs.along_const
  rw [← hconst]
  refine Runs.along_congr (I := fun h : History w => h.state.raised = false)
    (A := fun _ p => ∀ i, (p.answers i).block.result ≠ none) ?_ ?_ rfl
    (Runs.along_const.mpr hblock)
  · exact fun h p hraised hp => (log_exec_handleIndex hp ⟨h, []⟩ hraised p.indices).2
  · exact fun h p hraised hp =>
      ⟨fits_of_reportedOnly hraised hp, reportedOnly_of_fits h⟩

/-- One pass in which `n` sockets are ready, all connected, with nothing to read. -/
def readyPass (n : ℕ) : Pass where
  uwait := .ready (List.replicate n (readable 2 []).1)
  memory := fun _ => (readable 3 []).1
  answers := fun _ => (readable 2 []).2

theorem fits_readyPass (n : ℕ) : (readyPass n).uwait.Fits maxEvents ↔ n ≤ maxEvents := by
  rw [readyPass, Uwait.Fits, List.length_replicate]

theorem returns_readyPass (n i : ℕ) : ((readyPass n).answers i).block.result ≠ none :=
  Option.some_ne_none true

theorem reportedOnly_full : Runs.Along pass ReportedOnly (start 64 1) [readyPass 1024] :=
  ((reportedOnly_iff 1 [readyPass 1024]).2 fun p hp i => by
    rw [List.mem_singleton.mp hp]
    exact returns_readyPass 1024 i).mpr fun p hp => by
      rw [List.mem_singleton.mp hp, fits_readyPass]
      decide

/-- One more, and `events[1024]` is read. -/
theorem not_reportedOnly_overfull :
    ¬ Runs.Along pass ReportedOnly (start 64 1) [readyPass 1025] := by
  rintro ⟨hreported, -⟩
  have hfits := fits_of_reportedOnly (h := start 64 1) rfl (returns_readyPass 1025) hreported
  exact absurd ((fits_readyPass 1025).mp hfits) (by decide)

end Server

end Rbsrt
