import EventEngine.Ring.Contents
import Mathlib.Data.Set.Insert

/-!
# The ring invariant and what each side promises the other

`RingInv` ties the bytes of the ring to the history of published events, which is ghost
data. The producer changes only the slot at the write position while that slot is free,
and then the producer cursor; the consumer changes only the consumer cursor; the creator
changes only the state word. Each of these promises is what another side relies on.

Besides the history, a side keeps the set of memories seen since its current call began.
That set is where the instant of a call is found at which its result is justified.
-/

namespace EventEngine.Ring

open Concurrency Memory

/-- What a group of results assumes of a ring. `start` is the position at which the
history begins. In a `trusted` ring the slots were written through the API only. A `quiet`
ring is closed only while no publication is in progress. -/
structure Setting where
  geometry : Geometry
  start : Nat
  trusted : Prop
  quiet : Prop

/-- The ghost data of one side: all published events, and the memories seen in its call. -/
structure History where
  events : List Event
  seen : Set Span

/-- The bytes that `initialize` writes once: the preamble and all reserved bytes. -/
structure Formatted (g : Geometry) (m : Span) : Prop where
  memory : invalidMemory m.toRegion = false
  size : m.size = g.size
  magic : m.read magicOffset 4 = ringMagic
  version : m.u16 layoutVersionOffset = ringLayoutVersion
  headerBytes : (m.u16 headerBytesOffset).toNat = ringHeaderBytes
  segmentBytes : (m.u64 segmentBytesOffset).toNat = g.size
  slotCount : m.u32 slotCountOffset = g.config.slotCount
  slotStride : (m.u32 slotStrideOffset).toNat = g.stride
  slotPayloadCapacity : m.u32 slotPayloadCapacityOffset = g.config.slotPayloadCapacity
  reserved : m.u32 reservedOffset = 0
  instanceId : m.u64 instanceIdOffset ≠ 0
  preambleReserved : ∀ i < 20, m.u8 (reservedBytesOffset + i) = 0
  producerReserved : ∀ i < 56, m.u8 (producerOffset + cursorReservedOffset + i) = 0
  consumerReserved : ∀ i < 56, m.u8 (consumerOffset + cursorReservedOffset + i) = 0

/-- The memories are the same apart from the state word, the cursors and the slots. -/
structure SamePreamble (m m' : Span) : Prop where
  region : m'.toRegion = m.toRegion
  fields : Span.Agree 0 40 m m'
  preambleReserved : Span.Agree 44 64 m m'
  producerReserved : Span.Agree 72 128 m m'
  consumerReserved : Span.Agree 136 192 m m'

theorem Formatted.congr {g : Geometry} {m m' : Span} (h : Formatted g m)
    (same : SamePreamble m m') : Formatted g m' where
  memory := by rw [same.region]; exact h.memory
  size := by
    have := congrArg Region.size same.region
    exact this.trans h.size
  magic := (Span.read_congr same.fields (by decide) (by decide)).trans h.magic
  version := (Span.u16_congr same.fields (by decide) (by decide)).trans h.version
  headerBytes := by rw [Span.u16_congr same.fields (by decide) (by decide)]; exact h.headerBytes
  segmentBytes := by rw [Span.u64_congr same.fields (by decide) (by decide)]; exact h.segmentBytes
  slotCount := (Span.u32_congr same.fields (by decide) (by decide)).trans h.slotCount
  slotStride := by rw [Span.u32_congr same.fields (by decide) (by decide)]; exact h.slotStride
  slotPayloadCapacity :=
    (Span.u32_congr same.fields (by decide) (by decide)).trans h.slotPayloadCapacity
  reserved := (Span.u32_congr same.fields (by decide) (by decide)).trans h.reserved
  instanceId := by rw [Span.u64_congr same.fields (by decide) (by decide)]; exact h.instanceId
  preambleReserved i hi := by
    refine (same.preambleReserved _ ?_ ?_).trans (h.preambleReserved i hi)
    all_goals simp only [reservedBytesOffset]; omega
  producerReserved i hi := by
    refine (same.producerReserved _ ?_ ?_).trans (h.producerReserved i hi)
    all_goals simp only [producerOffset, cursorReservedOffset]; omega
  consumerReserved i hi := by
    refine (same.consumerReserved _ ?_ ?_).trans (h.consumerReserved i hi)
    all_goals simp only [consumerOffset, cursorReservedOffset]; omega

/-- The invariant of a ring with the history `events`. -/
structure RingInv (c : Setting) (m : Span) (events : List Event) : Prop where
  formatted : Formatted c.geometry m
  state : stateOf m = stateReady ∨ stateOf m = stateClosed
  start_le : c.start ≤ readPos m
  read_le : readPos m ≤ writePos m
  write_le : writePos m ≤ readPos m + c.geometry.slots
  write_eq : writePos m = c.start + events.length
  queued : c.trusted → ∀ p, readPos m ≤ p → p < writePos m →
    c.geometry.SlotValid m p ∧ events[p - c.start]? = some (c.geometry.slotEvent m p)
  reserved : c.trusted → ∀ p, c.geometry.SlotReserved m p

/-- The part of a handle that is fixed when it is created. -/
structure HandleGeometry (g : Geometry) (l : SpscRing) : Prop where
  header : l.header = some 0
  slots : l.slots = ringHeaderBytes
  slotCount : l.slotCount = g.config.slotCount
  slotStride : l.slotStride.toNat = g.stride
  slotPayloadCapacity : l.slotPayloadCapacity = g.config.slotPayloadCapacity

/-- A producer's handle: its cached read position is not ahead of the real one. -/
structure ProducerHandle (g : Geometry) (l : SpscRing) (m : Span) : Prop
    extends HandleGeometry g l where
  cached : l.cachedReadPosition.toNat ≤ readPos m

/-- A consumer's handle: its cached write position is not ahead of the real one, and a
held slot is the one at the read position. -/
structure ConsumerHandle (g : Geometry) (l : SpscRing) (m : Span) : Prop
    extends HandleGeometry g l where
  cached : l.cachedWritePosition.toNat ≤ writePos m
  held : l.acquired = true → l.acquiredPosition.toNat = readPos m ∧ readPos m < writePos m

/-- Masking and stride arithmetic give the exact slot of a position. -/
theorem HandleGeometry.slotAddress {g : Geometry} {l : SpscRing} (h : HandleGeometry g l)
    (p : UInt64) : l.slotAddress p = g.slotAt p.toNat := by
  have hle := (g.slotAt_add_stride_le p.toNat).2
  have hsize := g.size_eq.2
  have hmul : g.stride * (p.toNat % g.slots) < 2 ^ 64 := by
    simp only [Geometry.slotAt, ringHeaderBytes] at hle
    omega
  rw [SpscRing.slotAddress, h.slots, h.slotCount, UInt64.toNat_mul, g.and_mask,
    UInt32.toNat_toUInt64, h.slotStride, Nat.mod_eq_of_lt hmul, Geometry.slotAt]

/-- What the other sides do while the producer works: the consumer cursor advances and
the ring may be closed. -/
structure ProducerRely (c : Setting) (m : Span) (hist : List Event) (m' : Span)
    (hist' : List Event) : Prop where
  region : m'.toRegion = m.toRegion
  history : hist' = hist
  header : Span.Agree 0 40 m m'
  middle : Span.Agree 44 128 m m'
  rest : ∀ a, 136 ≤ a → m'.bytes a = m.bytes a
  read : readPos m ≤ readPos m'
  state : stateOf m' = stateOf m ∨ stateOf m' = stateClosed
  quiet : c.quiet → stateOf m' = stateOf m

/-- What the other sides do while the consumer works: events are appended, queued slots
stay as they are, and the ring may be closed, after which a quiet ring gets no events. -/
structure ConsumerRely (c : Setting) (m : Span) (hist : List Event) (m' : Span)
    (hist' : List Event) : Prop where
  region : m'.toRegion = m.toRegion
  history : hist <+: hist'
  read : m'.u64 consumerOffset = m.u64 consumerOffset
  write : writePos m ≤ writePos m'
  slots : ∀ p, readPos m ≤ p → p < writePos m →
    Span.Agree (c.geometry.slotAt p) (c.geometry.slotAt p + c.geometry.stride) m m'
  state : stateOf m' = stateOf m ∨ stateOf m' = stateClosed
  quiet : c.quiet → stateOf m = stateClosed → hist' = hist

/-- What one access of the producer does; `event` is the event of its current call. -/
structure ProducerGuar (c : Setting) (event : Option Event) (m : Span)
    (hist : List Event) (m' : Span) (hist' : List Event) : Prop where
  region : m'.toRegion = m.toRegion
  read : m'.u64 consumerOffset = m.u64 consumerOffset
  state : stateOf m' = stateOf m
  slots : ∀ p, readPos m ≤ p → p < writePos m →
    Span.Agree (c.geometry.slotAt p) (c.geometry.slotAt p + c.geometry.stride) m m'
  history : (m'.u64 producerOffset = m.u64 producerOffset ∧ hist' = hist) ∨
    (writePos m' = writePos m + 1 ∧ (∃ e, event = some e ∧ hist' = hist ++ [e]) ∧
      (c.quiet → stateOf m = stateReady))

/-- What one access of the consumer does. -/
structure ConsumerGuar (m : Span) (hist : List Event) (m' : Span)
    (hist' : List Event) : Prop where
  region : m'.toRegion = m.toRegion
  history : hist' = hist
  below : ∀ a, a < 128 → m'.bytes a = m.bytes a
  above : ∀ a, 136 ≤ a → m'.bytes a = m.bytes a
  read : readPos m ≤ readPos m'

/-- What the creator's closing access does. -/
structure CreatorGuar (m : Span) (hist : List Event) (m' : Span)
    (hist' : List Event) : Prop where
  region : m'.toRegion = m.toRegion
  history : hist' = hist
  below : ∀ a, a < 40 → m'.bytes a = m.bytes a
  above : ∀ a, 44 ≤ a → m'.bytes a = m.bytes a
  state : stateOf m' = stateClosed

end EventEngine.Ring
