import EventEngine.Ring.Setup

/-!
# What the bytes of a ring mean

The two cursors, the state word and the event in a slot, as functions of the memory. The
bounded queue without caches is stated over them: what a call would return if it could
look at the whole ring at one instant.
-/

namespace EventEngine.Ring

open Memory

/-- The write position, as an exact number. -/
def writePos (m : Span) : Nat := (m.u64 producerOffset).toNat

/-- The read position, as an exact number. -/
def readPos (m : Span) : Nat := (m.u64 consumerOffset).toNat

def stateOf (m : Span) : UInt32 := m.u32 stateOffset

namespace Geometry

variable (g : Geometry)

/-- The view of the slot that logical position `p` uses. -/
def slotView (m : Span) (p : Nat) : EventView ByteRange where
  streamId := m.u32 (g.slotAt p + streamIdOffset)
  sequence := m.u64 (g.slotAt p + eventSequenceOffset)
  sourceTimestampNs := m.u64 (g.slotAt p + sourceTimestampOffset)
  payload := ⟨g.slotAt p + ringSlotMetadataBytes,
    (m.u32 (g.slotAt p + payloadLengthOffset)).toNat⟩

/-- The event in the slot that logical position `p` uses. -/
def slotEvent (m : Span) (p : Nat) : Event := (g.slotView m p).resolve m

/-- Both reserved words of the slot are zero. -/
def SlotReserved (m : Span) (p : Nat) : Prop :=
  m.u32 (g.slotAt p + slotReservedOffset) = 0 ∧
    m.u32 (g.slotAt p + slotReservedOffset + 4) = 0

/-- The slot passes the check of `try_acquire`. -/
def SlotValid (m : Span) (p : Nat) : Prop :=
  (m.u32 (g.slotAt p + payloadLengthOffset)).toNat ≤ g.capacity ∧ g.SlotReserved m p

/-- The events in the queue, oldest first. -/
def queuedEvents (m : Span) : List Event :=
  (List.range (writePos m - readPos m)).map fun i => g.slotEvent m (readPos m + i)

/-- The bounded queue's answer to a publication, without caches. -/
def uncachedPublish (m : Span) (event : Event) : PublishResult :=
  if stateOf m ≠ stateReady ∨
      (event.payload.length ≤ g.capacity ∧ m.u64 producerOffset = maxPosition) then .closed
  else if event.payload.length > g.capacity then .payloadTooLarge
  else if (g.queuedEvents m).length = g.slots then .full
  else .ok

/-- The bounded queue's answer to an acquisition with no slot held, without caches. -/
def uncachedAcquire (m : Span) : Except AcquireError Event :=
  match g.queuedEvents m with
  | event :: _ => .ok event
  | [] => .error (if stateOf m = stateClosed then .closed else .empty)

@[simp] theorem length_queuedEvents (m : Span) :
    (g.queuedEvents m).length = writePos m - readPos m := by
  simp [queuedEvents]

theorem uncachedAcquire_of_lt {m : Span} (h : readPos m < writePos m) :
    g.uncachedAcquire m = .ok (g.slotEvent m (readPos m)) := by
  obtain ⟨k, hk⟩ := Nat.exists_eq_succ_of_ne_zero (Nat.sub_ne_zero_of_lt h)
  simp [uncachedAcquire, queuedEvents, hk, List.range_succ_eq_map]

theorem uncachedAcquire_of_eq {m : Span} (h : readPos m = writePos m) :
    g.uncachedAcquire m =
      .error (if stateOf m = stateClosed then .closed else .empty) := by
  simp [uncachedAcquire, queuedEvents, h]

/-- The slot's bytes lie in one stride, so memories that agree there hold one event. -/
theorem slotView_congr {m m' : Span} {p : Nat}
    (h : Span.Agree (g.slotAt p) (g.slotAt p + g.stride) m m') :
    g.slotView m' p = g.slotView m p := by
  have hstride := g.metadata_add_capacity_le_stride
  simp only [slotView, streamIdOffset, eventSequenceOffset, sourceTimestampOffset,
    payloadLengthOffset]
  rw [Span.u32_congr h (by omega) (by omega), Span.u64_congr h (by omega) (by omega),
    Span.u64_congr h (by omega) (by omega), Span.u32_congr h (by omega) (by omega)]

theorem slotReserved_congr {m m' : Span} {p : Nat}
    (h : Span.Agree (g.slotAt p) (g.slotAt p + g.stride) m m') :
    g.SlotReserved m' p ↔ g.SlotReserved m p := by
  have hstride := g.metadata_add_capacity_le_stride
  simp only [SlotReserved, slotReservedOffset]
  rw [Span.u32_congr h (by omega) (by omega), Span.u32_congr h (by omega) (by omega)]

theorem slotValid_congr {m m' : Span} {p : Nat}
    (h : Span.Agree (g.slotAt p) (g.slotAt p + g.stride) m m') :
    g.SlotValid m' p ↔ g.SlotValid m p := by
  have hstride := g.metadata_add_capacity_le_stride
  simp only [SlotValid, payloadLengthOffset, g.slotReserved_congr h]
  rw [Span.u32_congr h (by omega) (by omega)]

/-- A payload that fits the capacity lies inside its slot. -/
theorem slotEvent_congr {m m' : Span} {p : Nat}
    (h : Span.Agree (g.slotAt p) (g.slotAt p + g.stride) m m')
    (hlen : (m.u32 (g.slotAt p + payloadLengthOffset)).toNat ≤ g.capacity) :
    g.slotEvent m' p = g.slotEvent m p := by
  have hstride := g.metadata_add_capacity_le_stride
  have hread : m'.read (g.slotView m p).payload.offset (g.slotView m p).payload.length =
      m.read (g.slotView m p).payload.offset (g.slotView m p).payload.length :=
    Span.read_congr h (by simp only [slotView]; omega)
      (by simp only [slotView, ringSlotMetadataBytes]; omega)
  simp only [slotEvent, g.slotView_congr h, EventView.resolve, hread]

end Geometry

end EventEngine.Ring
