import EventEngine.Ring.Ownership
import EventEngine.Ring.Sequential

/-!
# What a rejected call leaves in the handle

Both operations overwrite the cached copy of the other side's cursor before they check it.
A call that meets inconsistent cursors returns an error and keeps the bad copy. This module
says for which bad values the next call on the repaired memory answers as if the failed
call had not been made.
-/

namespace EventEngine.Ring

open Concurrency Memory

variable {g : Geometry} {l l' : SpscRing} {m m' : Span} {event : Event}

/-- A consistent ring that accepts publications and whose queued slots are valid. -/
structure ReadyRing (g : Geometry) (m : Span) : Prop extends Consistent g m where
  ready : stateOf m = stateReady
  valid : ∀ p, readPos m ≤ p → p < writePos m → g.SlotValid m p

/-- `m'` is `m` with other cursors and other slot headers. -/
structure Overwritten (g : Geometry) (m m' : Span) : Prop where
  region : m'.toRegion = m.toRegion
  bytes : ∀ a, m'.bytes a = m.bytes a ∨
    (producerOffset ≤ a ∧ a < producerOffset + 8) ∨
    (consumerOffset ≤ a ∧ a < consumerOffset + 8) ∨
    ∃ p, g.slotAt p ≤ a ∧ a < g.slotAt p + ringSlotMetadataBytes

/-- The state word is not overwritten. -/
theorem Overwritten.state (h : Overwritten g m m') : stateOf m' = stateOf m := by
  have hagree : Span.Agree 40 44 m m' := by
    intro a hlo hhi
    obtain hsame | hproducer | hconsumer | ⟨p, hslot, -⟩ := h.bytes a
    · exact hsame
    · rw [producerOffset] at hproducer
      omega
    · rw [consumerOffset] at hconsumer
      omega
    · have hheader := (g.slotAt_add_stride_le p).1
      omega
  exact Span.u32_congr hagree (Nat.le_refl _) (Nat.le_refl _)

/-- The cached write cursor after an acquisition that met an invalid slot. -/
theorem obtain_invalid (h : (l.obtain m').1 = .error .invalidSlot) :
    (l.obtain m').2 =
      if l.cachedWritePosition ≤ m'.u64 consumerOffset then
        { l with cachedWritePosition := m'.u64 producerOffset }
      else l := by
  have hinspect : ∀ {k : SpscRing} {read write : UInt64},
      (k.inspect read write m').1 = .error .invalidSlot → (k.inspect read write m').2 = k := by
    intro k read write hk
    rw [SpscRing.inspect] at hk ⊢
    split_ifs at hk ⊢
    · rfl
    · rfl
  rw [SpscRing.obtain] at h ⊢
  by_cases hacquired : l.acquired = true
  · rw [if_pos hacquired] at h
    cases h
  · rw [if_neg hacquired] at h ⊢
    by_cases hcached : l.cachedWritePosition ≤ m'.u64 consumerOffset
    · rw [if_pos hcached] at h ⊢
      rw [if_pos hcached]
      by_cases hempty : m'.u64 consumerOffset = m'.u64 producerOffset
      · rw [if_pos hempty] at h
        split at h <;> cases h
      · rw [if_neg hempty] at h ⊢
        exact hinspect h
    · rw [if_neg hcached] at h ⊢
      rw [if_neg hcached]
      exact hinspect h

/-- When a rejected acquisition leaves no trace. -/
def AcquireTraceless (g : Geometry) (l : SpscRing) (m m' : Span) : Prop :=
  readPos m' < l.cachedWritePosition.toNat ∨
  writePos m' ≤ readPos m ∨
  (readPos m < writePos m ∧ writePos m' ≤ readPos m + g.slots)

/-- When a rejected publication leaves no trace in the next one, of a payload of `size` bytes. -/
def PublishTraceless (g : Geometry) (m m' : Span) (size : Nat) : Prop :=
  g.capacity < size ∨
  m.u64 producerOffset = maxPosition ∨
  writePos m < readPos m + g.slots ∨
  g.slots ≤ (m.u64 producerOffset - m'.u64 consumerOffset).toNat

theorem ReadyRing.slotAnswer (h : ReadyRing g m) (hqueued : readPos m < writePos m) :
    g.slotAnswer m (readPos m) = .ok (g.slotView m (readPos m)) :=
  if_pos (h.valid _ (Nat.le_refl _) hqueued)

/-- The answers from a correct and from an arbitrary cached write cursor. -/
theorem ReadyRing.cachedAnswer_iff (h : ReadyRing g m) {cached : Nat} :
    g.cachedAnswer m cached = g.acquireAnswer m ↔
      cached ≤ readPos m ∨ (readPos m < writePos m ∧ cached ≤ readPos m + g.slots) := by
  have hle := h.read_le
  rw [Geometry.cachedAnswer]
  by_cases hbehind : cached ≤ readPos m
  · simp [hbehind]
  · rw [if_neg hbehind, Geometry.acquireAnswer]
    by_cases hempty : readPos m = writePos m
    · rw [if_pos hempty]
      constructor
      · intro heq
        rw [Geometry.slotAnswer] at heq
        split_ifs at heq <;> simp at heq
      · omega
    · have hqueued : readPos m < writePos m := by omega
      rw [if_neg hempty, h.slotAnswer hqueued]
      by_cases hlap : cached ≤ readPos m + g.slots
      · simp [hlap, hqueued]
      · simp [hlap, hbehind]

/-- The next acquisition after a rejected one. -/
theorem acquire_after_rejected (hm : ReadyRing g m) (hl : ConsumerHandle g l m)
    (hrejected : (l.obtain m').1 = .error .invalidSlot) :
    ((l.obtain m').2.obtain m).1 = (l.obtain m).1 ↔ AcquireTraceless g l m m' := by
  have hfree : l.acquired = false := by
    by_contra hacquired
    rw [SpscRing.obtain, if_pos (Bool.not_eq_false _ ▸ hacquired)] at hrejected
    cases hrejected
  have horiginal : (l.obtain m).1 = g.acquireAnswer m := by
    rw [hl.toHandleGeometry.obtain hfree hm.read_le hm.write_le]
    exact cachedAnswer_of_le hl.cached hm.write_le
  rw [horiginal, obtain_invalid hrejected]
  by_cases hcached : l.cachedWritePosition ≤ m'.u64 consumerOffset
  · have hgeometry : HandleGeometry g { l with cachedWritePosition := m'.u64 producerOffset } :=
      ⟨hl.header, hl.slots, hl.slotCount, hl.slotStride, hl.slotPayloadCapacity⟩
    have hnot : ¬ readPos m' < l.cachedWritePosition.toNat :=
      Nat.not_lt.mpr (UInt64.le_iff_toNat_le.mp hcached)
    rw [if_pos hcached, hgeometry.obtain hfree hm.read_le hm.write_le, hm.cachedAnswer_iff,
      AcquireTraceless, or_iff_right hnot]
    rfl
  · have hlt : readPos m' < l.cachedWritePosition.toNat := by
      rw [UInt64.le_iff_toNat_le, Nat.not_le] at hcached
      exact hcached
    rw [if_neg hcached, horiginal]
    exact ⟨fun _ => .inl hlt, fun _ => rfl⟩

/-- A publication that is refused because of inconsistent cursors has looked at the
consumer's cursor. -/
theorem refreshes_of_closed {size : Nat} (hstate : stateOf m' = stateReady)
    (hlast : m'.u64 producerOffset ≠ maxPosition) (h : (l.admission size m').1 = .closed) :
    l.Refreshes size m' := by
  rw [SpscRing.admission] at h
  split_ifs at h
  · case pos hnot => exact absurd hstate hnot
  · case pos hsize hfull _ => exact ⟨hstate, Nat.not_lt.mp hsize, hlast, hfull⟩

/-- The answers to a publication from a correct and from an arbitrary cached read cursor. -/
theorem ReadyRing.cachedPublish_iff (h : ReadyRing g m) :
    g.cachedPublish m event.payload.length (m'.u64 consumerOffset) = g.uncachedPublish m event ↔
      PublishTraceless g m m' event.payload.length := by
  have hread := h.read_le
  have hwrite := h.write_le
  constructor
  · intro hsame
    by_contra htraced
    simp only [PublishTraceless, not_or, not_lt, not_le] at htraced
    obtain ⟨hfits, hlast, hfull, hcached⟩ := htraced
    -- The publication is admitted although every slot is taken.
    have hsize : ¬ event.payload.length > g.capacity := Nat.not_lt.mpr hfits
    have hopen : ¬ (stateOf m ≠ stateReady ∨
        (event.payload.length ≤ g.capacity ∧ m.u64 producerOffset = maxPosition)) :=
      not_or.mpr ⟨not_not.mpr h.ready, fun hmax => hlast hmax.2⟩
    have hlength : writePos m - readPos m = g.slots := by omega
    rw [Geometry.cachedPublish, if_neg (not_not.mpr h.ready), if_neg hsize, if_neg hlast,
      if_pos hcached, Geometry.uncachedPublish, if_neg hopen, if_neg hsize,
      Geometry.length_queuedEvents, if_pos hlength] at hsame
    cases hsame
  · intro htraceless
    have hdistance : (m.u64 producerOffset - m.u64 consumerOffset).toNat =
        writePos m - readPos m := toNat_distance hread
    have hcurrent : g.cachedPublish m event.payload.length (m.u64 consumerOffset) =
        g.uncachedPublish m event := cachedPublish_of_le (Nat.le_refl _) hread
    rw [← hcurrent, Geometry.cachedPublish, Geometry.cachedPublish, hdistance]
    obtain hlarge | hmax | hroom | hbehind := htraceless
    · have hsize : event.payload.length > g.capacity := hlarge
      simp only [hsize, if_true]
    · simp only [hmax, if_true]
    · have hnotFull : ¬ writePos m = readPos m + g.slots := by omega
      simp only [hnotFull, if_false, ite_self]
    · by_cases hfull : writePos m = readPos m + g.slots
      · have hnoRoom : ¬ writePos m - readPos m < g.slots := by omega
        rw [if_neg (Nat.not_lt.mpr hbehind), if_neg hnoRoom]
      · simp only [hfull, if_false, ite_self]

/-- The next publication after a rejected one. -/
theorem publish_after_rejected {size : Nat} (hm : ReadyRing g m) (hover : Overwritten g m m')
    (hl : ProducerHandle g l m) (hlast : m'.u64 producerOffset ≠ maxPosition)
    (hrejected : (l.admission size m').1 = .closed) :
    ((l.admission size m').2.admission event.payload.length m).1 =
      (l.admission event.payload.length m).1 ↔ PublishTraceless g m m' event.payload.length := by
  have hrefreshes := refreshes_of_closed (hover.state.trans hm.ready) hlast hrejected
  have hgeometry : HandleGeometry g { l with cachedReadPosition := m'.u64 consumerOffset } :=
    ⟨hl.header, hl.slots, hl.slotCount, hl.slotStride, hl.slotPayloadCapacity⟩
  have horiginal : (l.admission event.payload.length m).1 = g.uncachedPublish m event :=
    (hl.toHandleGeometry.admission _ hm.read_le hm.write_le).trans
      (cachedPublish_of_le hl.cached hm.read_le)
  rw [horiginal, admit_handle, if_pos hrefreshes,
    hgeometry.admission _ hm.read_le hm.write_le]
  exact hm.cachedPublish_iff

/-- A rejected call leaves no trace exactly under the two conditions. The calls are whole
runs of the operations; the failed one runs on the overwritten memory, the next one on the
restored memory. -/
theorem rejected_leaves_no_trace_iff (hm : ReadyRing g m) (hover : Overwritten g m m') :
    (ConsumerHandle g l m → ∀ l' m'',
      (SpscRing.tryAcquire l).run (@spanExec Unit) () m' = (.error .invalidSlot, l', m'') →
      (((SpscRing.tryAcquire l').run (@spanExec Unit) () m).1 =
          ((SpscRing.tryAcquire l).run (@spanExec Unit) () m).1 ↔ AcquireTraceless g l m m')) ∧
    (ProducerHandle g l m → ∀ event l' m'',
      (SpscRing.tryPublish event l).run (@spanExec Unit) () m' = (.closed, l', m'') →
      m'.u64 producerOffset ≠ maxPosition →
      ∀ later, (((SpscRing.tryPublish later l').run (@spanExec Unit) () m).1 =
          ((SpscRing.tryPublish later l).run (@spanExec Unit) () m).1 ↔
        PublishTraceless g m m' later.payload.length)) := by
  constructor
  · intro hl l' m'' hrun
    rw [SpscRing.tryAcquire_run hl.header] at hrun
    simp only [Prod.mk.injEq] at hrun
    obtain ⟨hrejected, rfl, -⟩ := hrun
    have hheader : (l.obtain m').2.header = some 0 := by
      rw [obtain_invalid hrejected]
      split_ifs <;> exact hl.header
    rw [SpscRing.tryAcquire_run hheader, SpscRing.tryAcquire_run hl.header]
    exact acquire_after_rejected hm hl hrejected
  · intro hl event l' m'' hrun hlast later
    rw [SpscRing.tryPublish_run _ hl.header] at hrun
    simp only [Prod.mk.injEq] at hrun
    obtain ⟨hrejected, rfl, -⟩ := hrun
    have hheader : (l.admission event.payload.length m').2.header = some 0 := by
      rw [admit_handle]
      split_ifs <;> exact hl.header
    rw [SpscRing.tryPublish_run _ hheader, SpscRing.tryPublish_run _ hl.header]
    exact publish_after_rejected hm hover hl hlast hrejected

/-- A fresh ring is ready, and the handle of its creator may serve either side. -/
theorem Initialized.readyRing {handle : SpscRing} (h : Initialized g handle m) :
    ReadyRing g m ∧ ProducerHandle g handle m ∧ ConsumerHandle g handle m := by
  obtain ⟨rfl, hinv, hready⟩ := h.spec False
  have hempty : writePos m = 0 := hinv.write_eq
  refine ⟨⟨hinv.consistent, hready, ?_⟩, g.producerHandle true m, g.consumerHandle true m⟩
  intro p _ hp
  rw [hempty] at hp
  exact absurd hp (Nat.not_lt_zero p)

/-- Memory with other cursors. -/
def withCursors (m : Span) (read write : UInt64) : Span :=
  (m.write producerOffset (leBytes 8 write.toNat)).write consumerOffset (leBytes 8 read.toNat)

theorem overwritten_withCursors (g : Geometry) (m : Span) (read write : UInt64) :
    Overwritten g m (withCursors m read write) where
  region := rfl
  bytes a := by
    by_cases hconsumer : consumerOffset ≤ a ∧ a < consumerOffset + 8
    · exact .inr (.inr (.inl hconsumer))
    · by_cases hproducer : producerOffset ≤ a ∧ a < producerOffset + 8
      · exact .inr (.inl hproducer)
      · refine .inl ?_
        rw [withCursors, Span.write_bytes_outside (by rw [length_leBytes]; omega),
          Span.write_bytes_outside (by rw [length_leBytes]; omega)]

/-- On an empty ring, a call that met a read cursor ahead of the write cursor makes the next
one return a slot that was never published. -/
theorem rejected_acquire_leaves_trace :
    ReadyRing sampleGeometry sampleMemory ∧
    Overwritten sampleGeometry sampleMemory (withCursors sampleMemory 2 1) ∧
    ConsumerHandle sampleGeometry sampleHandle sampleMemory ∧
    ((SpscRing.tryAcquire sampleHandle).run (@spanExec Unit) ()
      (withCursors sampleMemory 2 1)).1 = .error .invalidSlot ∧
    ((SpscRing.tryAcquire sampleHandle).run (@spanExec Unit) () sampleMemory).1 =
      .error .empty ∧
    ((SpscRing.tryAcquire ((SpscRing.tryAcquire sampleHandle).run (@spanExec Unit) ()
      (withCursors sampleMemory 2 1)).2.1).run (@spanExec Unit) () sampleMemory).1 =
        .ok ⟨0, 0, 0, ⟨224, 0⟩⟩ := by
  obtain ⟨hready, -, hconsumer⟩ := initialized_sample.readyRing
  refine ⟨hready, overwritten_withCursors _ _ 2 1, hconsumer, ?_, ?_, ?_⟩
  · decide +kernel
  · decide +kernel
  · decide +kernel

/-- An acquisition that met a write cursor behind the read cursor leaves no trace, and neither
does a publication that met a full ring with a read cursor ahead of the write cursor. -/
theorem rejected_leaves_no_trace_iff_sample :
    ((SpscRing.tryAcquire ((SpscRing.tryAcquire sampleHandle).run (@spanExec Unit) ()
      (withCursors sampleMemory 1 0)).2.1).run (@spanExec Unit) () sampleMemory).1 =
        .error .empty ∧
    ((SpscRing.tryPublish sampleEvent ((SpscRing.tryPublish sampleEvent sampleHandle).run
      (@spanExec Unit) () (withCursors sampleMemory 3 2)).2.1).run (@spanExec Unit) ()
        sampleMemory).1 = .ok := by
  obtain ⟨hready, hproducer, hconsumer⟩ := initialized_sample.readyRing
  constructor
  · have hempty : ((SpscRing.tryAcquire sampleHandle).run (@spanExec Unit) () sampleMemory).1 =
        .error .empty := by decide +kernel
    rw [← hempty]
    refine (((rejected_leaves_no_trace_iff hready
      (overwritten_withCursors sampleGeometry sampleMemory 1 0)).1 hconsumer _
      (withCursors sampleMemory 1 0) ?_).mpr ?_)
    · refine Prod.ext ?_ (Prod.ext rfl ?_)
      · decide +kernel
      · rw [SpscRing.tryAcquire_run rfl]
    · refine .inr (.inl ?_)
      decide +kernel
  · have hok : ((SpscRing.tryPublish sampleEvent sampleHandle).run (@spanExec Unit) ()
        sampleMemory).1 = .ok := by decide +kernel
    have hrejected : ((SpscRing.tryPublish sampleEvent sampleHandle).run (@spanExec Unit) ()
        (withCursors sampleMemory 3 2)).1 = .closed := by decide +kernel
    have hroom : PublishTraceless sampleGeometry sampleMemory (withCursors sampleMemory 3 2)
        sampleEvent.payload.length := by
      refine .inr (.inr (.inl ?_))
      decide +kernel
    rw [← hok]
    exact ((rejected_leaves_no_trace_iff hready
      (overwritten_withCursors sampleGeometry sampleMemory 3 2)).2 hproducer sampleEvent _ _
      (Prod.ext hrejected rfl) (by decide +kernel) sampleEvent).mpr hroom

end EventEngine.Ring
