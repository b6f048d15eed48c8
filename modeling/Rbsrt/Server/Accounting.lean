import Mathlib.Data.Finset.Card
import Mathlib.Data.Finset.Range
import Rbsrt.Server.Loop

/-!
# Connection accounting

`#connection_count` reports a counter that the loop keeps next to the table of connections. Both
are updated in three places: accepting adds one to each, removing takes one from each, and
rejecting takes one from the counter alone, for a connection it was never added for.

## The ledger

What the loop does to the counter and the table is a machine of its own with four kinds of
entries (`Ledger.post`), and `ledger_handleEvent` says which entry an event posts. Everything else
about accounting is about ledgers: a balanced one stays balanced under every entry but a
rejection, and under a rejection never. The counter has at least as many bits as a socket id, so
that it cannot overflow: there are fewer keys than values.

## Main results

* `ledger_handleEvent` — what an event posts
* `Ledger.Balanced.post_iff` — one entry
* `accounting_iff` — a run keeps the books exactly if no connection is rejected in it
-/

namespace Rbsrt

namespace Server

variable {w : ℕ}

/-! ### Ledgers -/

/-- The counter and the table. -/
structure Ledger (w : ℕ) where
  count : BitVec w
  table : OrderedHash SRTSOCKET ℕ

/-- What an event does to them. -/
inductive Entry
  | nothing
  | accept (fd : SRTSOCKET) (connection : ℕ)
  | reject
  | remove (fd : SRTSOCKET)

namespace Ledger

/-- Post an entry. -/
def post (l : Ledger w) : Entry → Ledger w
  | .nothing => l
  | .accept fd c => ⟨l.count + 1, l.table.aset fd c⟩
  | .reject => ⟨l.count - 1, l.table⟩
  | .remove fd =>
    match l.table.lookup fd with
    | none => l
    | some _ => ⟨l.count - 1, l.table.delete fd⟩

/-- The counter is the number of connections. -/
def Balanced (l : Ledger w) : Prop := l.count.toNat = l.table.size

/-- What is accepted has a valid id that is not in use. -/
def Admits (l : Ledger w) : Entry → Prop
  | .accept fd _ => fd ≠ SRT_INVALID_SOCK ∧ fd ∉ l.table.keys
  | _ => True

theorem Admits.invalid_not_mem_post {l : Ledger w} {e : Entry} (he : l.Admits e)
    (hvalid : SRT_INVALID_SOCK ∉ l.table.keys) : SRT_INVALID_SOCK ∉ (l.post e).table.keys := by
  cases e with
  | nothing => exact hvalid
  | accept fd c =>
    rw [post, OrderedHash.mem_keys_aset, not_or]
    exact ⟨he.1.symm, hvalid⟩
  | reject => exact hvalid
  | remove fd =>
    rw [post]
    split
    · exact hvalid
    · rw [OrderedHash.mem_keys_delete]
      exact fun h => hvalid h.1

/-- There are fewer valid socket ids than values of the counter. -/
theorem size_lt {l : Ledger w} (hw : 32 ≤ w) (hvalid : SRT_INVALID_SOCK ∉ l.table.keys) :
    l.table.size < 2 ^ w := by
  have hnodup : (l.table.keys.map BitVec.toNat).Nodup :=
    l.table.nodup_keys.map fun _ _ => BitVec.eq_of_toNat_eq
  have hsub : (l.table.keys.map BitVec.toNat).toFinset ⊆ Finset.range (2 ^ 32 - 1) := by
    intro n hn
    obtain ⟨fd, hfd, rfl⟩ := List.mem_map.mp (List.mem_toFinset.mp hn)
    have hne : fd.toNat ≠ 2 ^ 32 - 1 := fun h =>
      hvalid ((BitVec.eq_of_toNat_eq h : fd = SRT_INVALID_SOCK) ▸ hfd)
    have hlt : fd.toNat < 2 ^ 32 := fd.isLt
    exact Finset.mem_range.mpr (by omega)
  have hcard := Finset.card_le_card hsub
  rw [List.toFinset_card_of_nodup hnodup, List.length_map, OrderedHash.length_keys,
    Finset.card_range] at hcard
  have hpow : 2 ^ 32 ≤ 2 ^ w := Nat.pow_le_pow_right (by omega) hw
  omega

theorem toNat_one (hw : 32 ≤ w) : (1 : BitVec w).toNat = 1 := by
  show 1 % 2 ^ w = 1
  exact Nat.mod_eq_of_lt (Nat.one_lt_two_pow (by omega))

/-- Counting down mod `2 ^ w`. -/
theorem toNat_sub_one {x : BitVec w} (hw : 32 ≤ w) :
    (x - 1).toNat = if x.toNat = 0 then 2 ^ w - 1 else x.toNat - 1 := by
  have hpow : 2 ^ 32 ≤ 2 ^ w := Nat.pow_le_pow_right (by omega) hw
  have hlt : x.toNat < 2 ^ w := x.isLt
  rw [BitVec.toNat_sub, toNat_one hw]
  split
  · next hzero => rw [hzero, Nat.mod_eq_of_lt (by omega), Nat.add_zero]
  · next hpos =>
    have hsum : 2 ^ w - 1 + x.toNat = x.toNat - 1 + 2 ^ w := by omega
    rw [hsum, Nat.add_mod_right, Nat.mod_eq_of_lt (by omega)]

/-- **One entry.** A balanced ledger without invalid ids is balanced after an entry exactly if the
entry is not a rejection. -/
theorem Balanced.post_iff {l : Ledger w} {e : Entry} (h : l.Balanced) (hw : 32 ≤ w)
    (hvalid : SRT_INVALID_SOCK ∉ l.table.keys) (he : l.Admits e) :
    (l.post e).Balanced ↔ e ≠ .reject := by
  have hlt := size_lt hw (he.invalid_not_mem_post hvalid)
  have hpow : 2 ^ 32 ≤ 2 ^ w := Nat.pow_le_pow_right (by omega) hw
  rw [Balanced] at h
  cases e with
  | nothing => simpa [post, Balanced] using h
  | accept fd c =>
    have hsize : (l.table.aset fd c).size = l.table.size + 1 :=
      OrderedHash.size_aset_of_fresh he.2
    have hcount : (l.count + 1).toNat = (l.table.aset fd c).size := by
      rw [BitVec.toNat_add, toNat_one hw, h, ← hsize]
      exact Nat.mod_eq_of_lt hlt
    exact iff_of_true hcount Entry.noConfusion
  | reject =>
    refine iff_of_false (fun hpost => ?_) (fun hne => hne rfl)
    have hcount : (l.count - 1).toNat = l.table.size := hpost
    rw [toNat_sub_one hw] at hcount
    split at hcount <;> omega
  | remove fd =>
    refine iff_of_true ?_ Entry.noConfusion
    rw [post]
    cases hlook : l.table.lookup fd with
    | none => exact h
    | some c =>
      have hsize := OrderedHash.size_delete_of_lookup hlook
      have hcount : (l.count - 1).toNat = (l.table.delete fd).size := by
        rw [toNat_sub_one hw]
        split <;> omega
      exact hcount

end Ledger

/-! ### The ledger of a server -/

/-- The ledger in a server's state. -/
def ledger (h : History w) : Ledger w := ⟨h.state.numConnections, h.state.connectionsBySocket⟩

/-- What an event posts. -/
def entry (h : History w) (i : Event × Answers) : Entry :=
  if h.state.raised then .nothing
  else
    match i.2.getsockstate, i.2.block.result with
    | .listening, some true => .accept i.2.accept h.state.allocated
    | .listening, some false => .reject
    | .closed, _ | .nonexist, _ | .broken, _ => .remove i.1.fd
    | _, _ => .nothing

theorem ledger_of_sameTables {h h' : History w} (hsame : SameTables h.state h'.state) :
    ledger h' = ledger h := by
  rw [ledger, ledger, hsame.numConnections, hsame.connectionsBySocket]

theorem ledger_callBlock (h : History w) (actions : List Action) :
    ledger (callBlock h actions) = ledger h :=
  ledger_of_sameTables (callBlock_sameTables h actions)

theorem ledger_acceptBranch (h : History w) (a : Answers) :
    ledger (acceptBranch h a) = (ledger h).post
      (match a.block.result with
        | none => .nothing
        | some true => .accept a.accept h.state.allocated
        | some false => .reject) := by
  have hsame := callBlock_sameTables (presentConnection h a.accept) a.block.actions
  have hcount : _ = h.state.numConnections := hsame.numConnections
  have htable : _ = h.state.connectionsBySocket := hsame.connectionsBySocket
  have hsocket := socket_callBlock_presentConnection h a.accept a.block.actions
  rw [acceptBranch]
  cases hresult : a.block.result with
  | none => exact congrArg₂ Ledger.mk hcount htable
  | some accepted =>
    cases accepted with
    | false => exact congrArg₂ Ledger.mk (congrArg (· - 1) hcount) htable
    | true =>
      refine congrArg₂ Ledger.mk (congrArg (· + 1) hcount) ?_
      exact congrArg₂ (OrderedHash.aset · · h.state.allocated) htable hsocket

theorem ledger_closeConnection (h : History w) (c : ℕ) (a : Answers) :
    ledger (closeConnection h c a) = ledger h := by
  rw [closeConnection]
  cases (h.state.heap c).atCloseBlock with
  | none => rfl
  | some block =>
    have hcall := ledger_callBlock (h.tell (.callAtClose c block)) a.block.actions
    cases a.block.result with
    | none => exact hcall
    | some _ => exact hcall

theorem ledger_removeBranch (h : History w) (sock : SRTSOCKET) (a : Answers) :
    ledger (removeBranch h sock a) = (ledger h).post (.remove sock) := by
  rw [removeBranch, Ledger.post]
  simp only [Runs.update_state, epollRemoveUsock, ledger]
  cases h.state.connectionsBySocket.lookup sock with
  | none => rfl
  | some c => exact ledger_closeConnection _ c a

theorem ledger_deliver (h : History w) (c : ℕ) (data : Bytes) (a : Answers) :
    ledger (deliver h c data a) = ledger h := by
  rw [deliver]
  cases (h.state.heap c).atDataBlock with
  | none => rfl
  | some block =>
    have hcall := ledger_callBlock (h.tell (.callAtData c block data)) a.block.actions
    cases a.block.result with
    | none => exact hcall
    | some _ => exact hcall

theorem ledger_dataBranch (h : History w) (event : Event) (a : Answers) :
    ledger (dataBranch h event a) = ledger h := by
  rw [dataBranch]
  split
  · split
    · next byte bytes _ =>
      simp only [Runs.tell_state]
      cases h.state.connectionsBySocket.lookup event.fd with
      | none => rfl
      | some c => exact ledger_deliver _ c _ a
    · rfl
  · rfl

/-- **The loop keeps a ledger**: an event posts its entry. -/
theorem ledger_handleEvent (h : History w) (i : Event × Answers) :
    ledger (handleEvent h i) = (ledger h).post (entry h i) := by
  rw [handleEvent, entry]
  split
  · rfl
  · cases hstate : i.2.getsockstate with
    | listening =>
      rw [ledger_acceptBranch]
      cases i.2.block.result with
      | none => rfl
      | some accepted => cases accepted <;> rfl
    | closed => exact ledger_removeBranch h i.1.fd i.2
    | nonexist => exact ledger_removeBranch h i.1.fd i.2
    | broken => exact ledger_removeBranch h i.1.fd i.2
    | connected => exact ledger_dataBranch h i.1 i.2
    | _ => rfl

/-! ### Runs -/

/-- What is assumed of `srt_accept`: it succeeds, and the id it returns is not in use. -/
def AcceptsFresh (h : History w) (i : Event × Answers) : Prop :=
  i.2.getsockstate = .listening →
    i.2.accept ≠ SRT_INVALID_SOCK ∧ i.2.accept ∉ h.state.connectionsBySocket.keys

/-- The acceptor block runs and rejects. -/
def Rejects (h : History w) (i : Event × Answers) : Prop :=
  h.state.raised = false ∧ i.2.getsockstate = .listening ∧ i.2.block.result = some false

/-- The counter is the number of registered connections. -/
def CountsConnections (h : History w) : Prop :=
  h.state.numConnections.toNat = h.state.connectionsBySocket.size

instance (h : History w) (i : Event × Answers) : Decidable (AcceptsFresh h i) :=
  inferInstanceAs (Decidable (_ → _))

instance (h : History w) (i : Event × Answers) : Decidable (Rejects h i) :=
  inferInstanceAs (Decidable (_ ∧ _))

instance (h : History w) : Decidable (CountsConnections h) := inferInstanceAs (Decidable (_ = _))

theorem AcceptsFresh.admits {h : History w} {i : Event × Answers} (hi : AcceptsFresh h i) :
    (ledger h).Admits (entry h i) := by
  rw [entry]
  split
  · trivial
  · split
    · next hstate _ => exact hi hstate
    all_goals trivial

theorem entry_eq_reject_iff {h : History w} {i : Event × Answers} :
    entry h i = .reject ↔ Rejects h i := by
  rw [entry, Rejects]
  cases h.state.raised with
  | true => simp
  | false => cases i.2.getsockstate <;> rcases i.2.block.result with _ | (_ | _) <;> simp

/-- **A run keeps the books exactly if it rejects no connection.** -/
theorem accounting_iff (hw : 32 ≤ w) (socket : SRTSOCKET) (batches : Batches)
    (hfresh : Throughout (w := w) AcceptsFresh socket batches) :
    (∀ h ∈ reached w socket batches, CountsConnections h) ↔
      Throughout (w := w) (fun h i => ¬ Rejects h i) socket batches := by
  refine Runs.forall_mem_states_iff (A := AcceptsFresh)
    (I := fun h => (ledger h).Balanced ∧ SRT_INVALID_SOCK ∉ (ledger h).table.keys)
    ?_ ?_ ?_ hfresh
  · rintro h i ⟨hbal, hvalid⟩ hi hnot
    rw [ledger_handleEvent]
    exact ⟨(hbal.post_iff hw hvalid hi.admits).mpr (mt entry_eq_reject_iff.mp hnot),
      hi.admits.invalid_not_mem_post hvalid⟩
  · rintro h i ⟨hbal, hvalid⟩ hi
    have hpost : CountsConnections (handleEvent h i) ↔ ((ledger h).post (entry h i)).Balanced := by
      rw [← ledger_handleEvent]
      rfl
    rw [hpost, hbal.post_iff hw hvalid hi.admits, ne_eq, entry_eq_reject_iff]
  · exact ⟨by simp [ledger, start, Ledger.Balanced], List.not_mem_nil⟩

theorem accounting_twoPeers :
    (∃ h ∈ reached 64 1 twoPeers, h.state.numConnections = 2) ∧
      ∀ h ∈ reached 64 1 twoPeers, CountsConnections h :=
  ⟨by decide, (accounting_iff (by decide) 1 _ (by rw [Throughout]; decide)).mpr
    (by rw [Throughout]; decide)⟩

/-- One rejected connection, and the count is `2 ^ 64 - 1`. -/
theorem not_accounting_rejected :
    Throughout (w := 64) AcceptsFresh 1 [[knock 2 ⟨[], some false⟩]] ∧
      ¬ ∀ h ∈ reached 64 1 [[knock 2 ⟨[], some false⟩]], CountsConnections h := by
  refine ⟨by rw [Throughout]; decide, fun hall => ?_⟩
  exact absurd (hall _ (List.mem_singleton_self _)) (by decide)

end Server

end Rbsrt
