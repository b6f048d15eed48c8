import Mathlib.Data.Int.Init

/-!
# `SRT::Stats`

The getters of `rbstats.c` hand one field each of libsrt's statistics to Ruby. The counters here are
64 bits wide, and the macros the getters convert them with, `INT2NUM` and `UINT2NUM`, take an `int`
and an `unsigned int`. So while a counter grows, its getter falls back by 2^32 every 2^32 steps, an
`int` for the first time after 2^31 of them, into the negative numbers.

Two readings of a counter are then in order if there is no such boundary between them, and
otherwise exactly if the counter has grown by more than the boundaries took away.

## Main results

* `narrow_inOrder_iff` — narrowed numbers in order
* `Counter.get_eq` — every getter narrows its field
* `inOrder_iff` — when two readings are in order
-/

namespace Rbsrt

/-! ### Narrowing -/

/-- How many boundaries lie at or below `x`: the numbers that have the remainder `-offset` by
`m`. -/
def passed (m offset x : ℤ) : ℤ := (x + offset) / m

/-- What a number is narrowed to: it falls back by `m` at every boundary. -/
def narrow (m offset x : ℤ) : ℤ := x - m * passed m offset x

/-- **Narrowed numbers in order.** -/
theorem narrow_inOrder_iff (m offset x y : ℤ) :
    (narrow m offset x ≤ narrow m offset y ∧
        (narrow m offset x = narrow m offset y → x = y)) ↔
      x = y ∨ m * (passed m offset y - passed m offset x) < y - x := by
  have hdiff : narrow m offset y - narrow m offset x =
      y - x - m * (passed m offset y - passed m offset x) := by
    rw [narrow, narrow, Int.mul_sub]
    omega
  constructor
  · rintro ⟨hle, heq⟩
    rcases Int.lt_or_eq_of_le hle with hlt | hsame
    · right
      omega
    · exact Or.inl (heq hsame)
  · rintro (rfl | hlt)
    · exact ⟨Int.le_refl _, fun _ => rfl⟩
    · have hstrict : narrow m offset x < narrow m offset y := by omega
      exact ⟨Int.le_of_lt hstrict, fun heq => absurd heq (Int.ne_of_lt hstrict)⟩

/-! ### The conversions -/

/-- `INT2NUM(x)`, the argument converted to an `int`. -/
def int2num (x : BitVec 64) : ℤ := (x.setWidth 32).toInt

/-- `UINT2NUM(x)`, the argument converted to an `unsigned int`. -/
def uint2num (x : BitVec 64) : ℤ := (x.setWidth 32).toNat

theorem int2num_eq {x : BitVec 64} (h : 0 ≤ x.toInt) :
    int2num x = narrow 4294967296 2147483648 x.toInt := by
  have hnat : x.toInt = x.toNat := by
    rw [BitVec.toInt_eq_toNat_cond] at h ⊢
    split at h
    · next hlt => rw [if_pos hlt]
    · have hx := x.isLt
      omega
  rw [int2num, BitVec.toInt_setWidth, hnat, narrow, passed, Int.bmod_def]
  split <;> omega

theorem uint2num_eq (x : BitVec 64) : uint2num x = narrow 4294967296 0 x.toNat := by
  rw [uint2num, BitVec.toNat_setWidth, narrow, passed]
  omega

/-! ### The statistics -/

/-- The 64-bit fields of `SRT_TRACEBSTATS` that are converted as `int`s or `unsigned int`s. -/
structure TraceBStats where
  msTimeStamp : BitVec 64
  pktSentTotal : BitVec 64
  pktRecvTotal : BitVec 64
  usSndDurationTotal : BitVec 64
  byteSentTotal : BitVec 64
  byteRecvTotal : BitVec 64
  byteRcvLossTotal : BitVec 64
  byteRetransTotal : BitVec 64
  byteSndDropTotal : BitVec 64
  byteRcvDropTotal : BitVec 64
  byteRcvUndecryptTotal : BitVec 64
  usSndDuration : BitVec 64
  byteSent : BitVec 64
  byteRecv : BitVec 64
  byteRcvLoss : BitVec 64
  byteRetrans : BitVec 64
  byteSndDrop : BitVec 64
  byteRcvDrop : BitVec 64
  byteRcvUndecrypt : BitVec 64

/-- A getter that converts with `INT2NUM`. -/
def getInt (field : TraceBStats → BitVec 64) (perf : TraceBStats) : ℤ := int2num (field perf)

/-- A getter that converts with `UINT2NUM`. -/
def getUInt (field : TraceBStats → BitVec 64) (perf : TraceBStats) : ℤ := uint2num (field perf)

/-- `rbsrt_stat_get_mstimestamp` -/
def getMsTimeStamp : TraceBStats → ℤ := getInt TraceBStats.msTimeStamp

/-- `rbsrt_stat_get_pktsenttotal` -/
def getPktSentTotal : TraceBStats → ℤ := getInt TraceBStats.pktSentTotal

/-- `rbsrt_stat_get_pktrecvtotal` -/
def getPktRecvTotal : TraceBStats → ℤ := getInt TraceBStats.pktRecvTotal

/-- `rbsrt_stat_get_ussnddurationtotal` -/
def getUsSndDurationTotal : TraceBStats → ℤ := getInt TraceBStats.usSndDurationTotal

/-- `rbsrt_stat_get_bytesenttotal` -/
def getByteSentTotal : TraceBStats → ℤ := getUInt TraceBStats.byteSentTotal

/-- `rbsrt_stat_get_byterecvtotal` -/
def getByteRecvTotal : TraceBStats → ℤ := getUInt TraceBStats.byteRecvTotal

/-- `rbsrt_stat_get_bytercvlosstotal` -/
def getByteRcvLossTotal : TraceBStats → ℤ := getUInt TraceBStats.byteRcvLossTotal

/-- `rbsrt_stat_get_byteretranstotal` -/
def getByteRetransTotal : TraceBStats → ℤ := getUInt TraceBStats.byteRetransTotal

/-- `rbsrt_stat_get_bytesnddroptotal` -/
def getByteSndDropTotal : TraceBStats → ℤ := getUInt TraceBStats.byteSndDropTotal

/-- `rbsrt_stat_get_bytercvdroptotal` -/
def getByteRcvDropTotal : TraceBStats → ℤ := getUInt TraceBStats.byteRcvDropTotal

/-- `rbsrt_stat_get_bytercvundecrypttotal` -/
def getByteRcvUndecryptTotal : TraceBStats → ℤ := getUInt TraceBStats.byteRcvUndecryptTotal

/-- `rbsrt_stat_get_ussndduration` -/
def getUsSndDuration : TraceBStats → ℤ := getInt TraceBStats.usSndDuration

/-- `rbsrt_stat_get_bytesent` -/
def getByteSent : TraceBStats → ℤ := getUInt TraceBStats.byteSent

/-- `rbsrt_stat_get_byterecv` -/
def getByteRecv : TraceBStats → ℤ := getUInt TraceBStats.byteRecv

/-- `rbsrt_stat_get_bytercvloss` -/
def getByteRcvLoss : TraceBStats → ℤ := getUInt TraceBStats.byteRcvLoss

/-- `rbsrt_stat_get_byteretrans` -/
def getByteRetrans : TraceBStats → ℤ := getUInt TraceBStats.byteRetrans

/-- `rbsrt_stat_get_bytesnddrop` -/
def getByteSndDrop : TraceBStats → ℤ := getUInt TraceBStats.byteSndDrop

/-- `rbsrt_stat_get_bytercvdrop` -/
def getByteRcvDrop : TraceBStats → ℤ := getUInt TraceBStats.byteRcvDrop

/-- `rbsrt_stat_get_bytercvundecrypt` -/
def getByteRcvUndecrypt : TraceBStats → ℤ := getUInt TraceBStats.byteRcvUndecrypt

/-- The getters. -/
inductive Counter
  | msTimeStamp
  | pktSentTotal
  | pktRecvTotal
  | usSndDurationTotal
  | byteSentTotal
  | byteRecvTotal
  | byteRcvLossTotal
  | byteRetransTotal
  | byteSndDropTotal
  | byteRcvDropTotal
  | byteRcvUndecryptTotal
  | usSndDuration
  | byteSent
  | byteRecv
  | byteRcvLoss
  | byteRetrans
  | byteSndDrop
  | byteRcvDrop
  | byteRcvUndecrypt

namespace Counter

/-- The field a getter reads. -/
def field : Counter → TraceBStats → BitVec 64
  | msTimeStamp => TraceBStats.msTimeStamp
  | pktSentTotal => TraceBStats.pktSentTotal
  | pktRecvTotal => TraceBStats.pktRecvTotal
  | usSndDurationTotal => TraceBStats.usSndDurationTotal
  | byteSentTotal => TraceBStats.byteSentTotal
  | byteRecvTotal => TraceBStats.byteRecvTotal
  | byteRcvLossTotal => TraceBStats.byteRcvLossTotal
  | byteRetransTotal => TraceBStats.byteRetransTotal
  | byteSndDropTotal => TraceBStats.byteSndDropTotal
  | byteRcvDropTotal => TraceBStats.byteRcvDropTotal
  | byteRcvUndecryptTotal => TraceBStats.byteRcvUndecryptTotal
  | usSndDuration => TraceBStats.usSndDuration
  | byteSent => TraceBStats.byteSent
  | byteRecv => TraceBStats.byteRecv
  | byteRcvLoss => TraceBStats.byteRcvLoss
  | byteRetrans => TraceBStats.byteRetrans
  | byteSndDrop => TraceBStats.byteSndDrop
  | byteRcvDrop => TraceBStats.byteRcvDrop
  | byteRcvUndecrypt => TraceBStats.byteRcvUndecrypt

/-- `int64_t` fields, as opposed to `uint64_t`. -/
def isSigned : Counter → Bool
  | msTimeStamp | pktSentTotal | pktRecvTotal | usSndDurationTotal | usSndDuration => true
  | _ => false

/-- What the field of a snapshot says. -/
def value (k : Counter) (perf : TraceBStats) : ℤ :=
  if k.isSigned then (k.field perf).toInt else (k.field perf).toNat

/-- What the getter returns. -/
def get : Counter → TraceBStats → ℤ
  | msTimeStamp => getMsTimeStamp
  | pktSentTotal => getPktSentTotal
  | pktRecvTotal => getPktRecvTotal
  | usSndDurationTotal => getUsSndDurationTotal
  | byteSentTotal => getByteSentTotal
  | byteRecvTotal => getByteRecvTotal
  | byteRcvLossTotal => getByteRcvLossTotal
  | byteRetransTotal => getByteRetransTotal
  | byteSndDropTotal => getByteSndDropTotal
  | byteRcvDropTotal => getByteRcvDropTotal
  | byteRcvUndecryptTotal => getByteRcvUndecryptTotal
  | usSndDuration => getUsSndDuration
  | byteSent => getByteSent
  | byteRecv => getByteRecv
  | byteRcvLoss => getByteRcvLoss
  | byteRetrans => getByteRetrans
  | byteSndDrop => getByteSndDrop
  | byteRcvDrop => getByteRcvDrop
  | byteRcvUndecrypt => getByteRcvUndecrypt

/-- Where the first boundary is put: `int`s fall back after 2^31 steps, `unsigned int`s after
2^32. -/
def offset (k : Counter) : ℤ := if k.isSigned then 2147483648 else 0

/-- **Every getter narrows its field.** -/
theorem get_eq (k : Counter) {perf : TraceBStats} (h : 0 ≤ k.value perf) :
    k.get perf = narrow 4294967296 k.offset (k.value perf) := by
  have hsigned : k.isSigned = true → k.get perf = int2num (k.field perf) := by
    cases k <;> first | exact fun _ => rfl | exact fun hk => by cases hk
  have hunsigned : k.isSigned = false → k.get perf = uint2num (k.field perf) := by
    cases k <;> first | exact fun _ => rfl | exact fun hk => by cases hk
  rw [value] at h ⊢
  cases hk : k.isSigned with
  | true =>
    simp only [hk, if_true] at h
    rw [hsigned hk, int2num_eq h, offset, hk]
    rfl
  | false =>
    rw [hunsigned hk, uint2num_eq, offset, hk]
    rfl

/-- Two readings are in order, and equal only if the field has not changed. -/
def InOrder (k : Counter) (s t : TraceBStats) : Prop :=
  k.get s ≤ k.get t ∧ (k.get s = k.get t → k.value s = k.value t)

instance (k : Counter) (s t : TraceBStats) : Decidable (k.InOrder s t) :=
  inferInstanceAs (Decidable (_ ∧ _))

/-- How many boundaries the field has passed: every 2^32 steps one, the first after 2^31 for an
`int`. -/
def boundaries (k : Counter) (perf : TraceBStats) : ℤ :=
  passed 4294967296 k.offset (k.value perf)

/-- **When two readings are in order.** Exactly if the counter has not changed, or has grown by more
than 2^32 for every boundary in between. -/
theorem inOrder_iff (k : Counter) {s t : TraceBStats} (hs : 0 ≤ k.value s)
    (hle : k.value s ≤ k.value t) :
    k.InOrder s t ↔
      k.value s = k.value t ∨
        4294967296 * (k.boundaries t - k.boundaries s) < k.value t - k.value s := by
  rw [InOrder, k.get_eq hs, k.get_eq (Int.le_trans hs hle)]
  exact narrow_inOrder_iff 4294967296 k.offset (k.value s) (k.value t)

end Counter

/-- A snapshot in which all counters are the same. -/
def counted (n : BitVec 64) : TraceBStats :=
  ⟨n, n, n, n, n, n, n, n, n, n, n, n, n, n, n, n, n, n, n⟩

/-- A counter that has grown by more than a boundary takes away. -/
theorem inOrder_counted :
    Counter.pktSentTotal.InOrder (counted 0) (counted 4294967301) :=
  (Counter.inOrder_iff _ (by decide) (by decide)).mpr (Or.inr (by decide))

/-- One more packet, or one more byte, and the reading is back where it started or below. -/
theorem not_inOrder_boundary :
    ¬ Counter.pktSentTotal.InOrder (counted 2147483647) (counted 2147483648) ∧
      ¬ Counter.byteSentTotal.InOrder (counted 4294967295) (counted 4294967296) :=
  ⟨by decide, by decide⟩

end Rbsrt
