import EventEngine.Ring.Queue

/-!
# Calls without interference

What each per-event operation returns, what becomes of the handle and what it leaves in
memory when nobody else moves during the call, for any handle with a header and any memory.
The checks of a call look at four words only; where the cached cursors are not ahead of the
real ones their values make no difference.
-/

namespace EventEngine.Ring

open Concurrency Memory

variable {ω : Type} {w : ω} {l : SpscRing} {m : Span} {event : Event}

section Runs

variable {ℓ α : Type} {l : ℓ} (offset : Nat) (m : Span)

theorem loadU64_run (next : UInt64 → Method spanAccess ℓ α) :
    ((loadU64 offset >>= next) l).run spanExec w m =
      (next (m.u64 offset) l).run spanExec w m := rfl

theorem assign_run (f : ℓ → ℓ) (next : Unit → Method spanAccess ℓ α) :
    ((Method.assign f >>= next) l).run spanExec w m = (next () (f l)).run spanExec w m := rfl

theorem pure_run (a : α) : ((pure a : Method spanAccess ℓ α) l).run spanExec w m = (a, l, m) :=
  rfl

theorem ite_run {c : Prop} [Decidable c] (x y : Method spanAccess ℓ α) :
    ((if c then x else y) l).run spanExec w m =
      if c then (x l).run spanExec w m else (y l).run spanExec w m := by
  by_cases h : c
  · rw [if_pos h, if_pos h]
  · rw [if_neg h, if_neg h]

end Runs

theorem copyPayload_run (offset : Nat) (payload : Bytes) (m : Span) :
    (copyPayload offset payload l).run spanExec w m =
      ((), l, m.write offset payload) := by
  induction payload generalizing offset m with
  | nil =>
      rw [Span.write_nil]
      rfl
  | cons byte rest ih =>
      rw [← List.singleton_append, ← Span.write_write]
      exact ih (offset + 1) (m.write offset [byte])

namespace SpscRing

/-- The memory after the header and the payload of an event were stored at `slot`. -/
def filled (slot : Nat) (event : Event) (m : Span) : Span :=
  ((((m.write (slot + eventSequenceOffset) (leBytes 8 event.sequence.toNat)).write
    (slot + sourceTimestampOffset) (leBytes 8 event.sourceTimestampNs.toNat)).write
    (slot + streamIdOffset) (leBytes 4 event.streamId.toNat)).write
    (slot + payloadLengthOffset)
    (leBytes 4 (UInt32.ofNat event.payload.length).toNat)).write
    (slot + ringSlotMetadataBytes) event.payload

/-- The memory after a publication at `position`. -/
def published (l : SpscRing) (position : UInt64) (event : Event) (m : Span) : Span :=
  (filled (l.slotAddress position) event m).write producerOffset
    (leBytes 8 (position + 1).toNat)

/-- What `try_publish` answers for a payload of `size` bytes, and the handle it leaves. -/
def admission (l : SpscRing) (size : Nat) (m : Span) : PublishResult × SpscRing :=
  let write := m.u64 producerOffset
  let read := m.u64 consumerOffset
  if m.u32 stateOffset ≠ stateReady then (.closed, l)
  else if size > l.slotPayloadCapacity.toNat then (.payloadTooLarge, l)
  else if write = maxPosition then (.closed, l)
  else if write - l.cachedReadPosition ≥ l.slotCount.toUInt64 then
    let refreshed := { l with cachedReadPosition := read }
    if read > write ∨ write - read > l.slotCount.toUInt64 then (.closed, refreshed)
    else if write - read = l.slotCount.toUInt64 then (.full, refreshed)
    else (.ok, refreshed)
  else (.ok, l)

/-- The check of a slot header. -/
def rejects (l : SpscRing) (slot : Nat) (m : Span) : Bool :=
  decide (m.u32 (slot + payloadLengthOffset) > l.slotPayloadCapacity) ||
    m.u32 (slot + slotReservedOffset) != 0 || m.u32 (slot + slotReservedOffset + 4) != 0

/-- The view of the slot at an address. -/
def viewAt (slot : Nat) (m : Span) : EventView ByteRange where
  streamId := m.u32 (slot + streamIdOffset)
  sequence := m.u64 (slot + eventSequenceOffset)
  sourceTimestampNs := m.u64 (slot + sourceTimestampOffset)
  payload := ⟨slot + ringSlotMetadataBytes, (m.u32 (slot + payloadLengthOffset)).toNat⟩

/-- What `try_acquire` answers once it works with the write cursor `write`. -/
def inspect (l : SpscRing) (read write : UInt64) (m : Span) :
    Except AcquireError (EventView ByteRange) × SpscRing :=
  if read > write ∨ write - read > l.slotCount.toUInt64 then (.error .invalidSlot, l)
  else if l.rejects (l.slotAddress read) m = true then (.error .invalidSlot, l)
  else (.ok (viewAt (l.slotAddress read) m),
    { l with acquiredPosition := read, acquired := true })

/-- What `try_acquire` answers, and the handle it leaves. -/
def obtain (l : SpscRing) (m : Span) : Except AcquireError (EventView ByteRange) × SpscRing :=
  let write := m.u64 producerOffset
  let read := m.u64 consumerOffset
  if l.acquired = true then (.error .alreadyAcquired, l)
  else if read ≥ l.cachedWritePosition then
    let refreshed := { l with cachedWritePosition := write }
    if read = write then
      (.error (if m.u32 stateOffset = stateClosed then .closed else .empty), refreshed)
    else refreshed.inspect read write m
  else l.inspect read l.cachedWritePosition m

theorem publishAt_run (self : SpscRing) (position : UInt64) (m : Span) :
    (self.publishAt 0 position event l).run spanExec w m =
      (.ok, l, self.published position event m) := by
  have hfill : (fillSlotHeader (self.slotAddress position) event l).run spanExec w m = _ := rfl
  rw [publishAt, Method.bind_apply, Process.run_bind_of hfill, Method.bind_apply,
    Process.run_bind_of (copyPayload_run ..)]
  rfl

/-- A publication stores if and only if it is admitted. -/
theorem tryPublish_run (event : Event) (hheader : l.header = some 0) (m : Span) :
    (tryPublish event l).run spanExec w m =
      ((l.admission event.payload.length m).1, (l.admission event.payload.length m).2,
        if (l.admission event.payload.length m).1 = .ok then
          l.published (m.u64 producerOffset) event m
        else m) := by
  rw [tryPublish, Method.bind_apply, Method.self_apply, Process.bind_done]
  simp only [hheader, loadU32_run, loadU64_run, assign_run, pure_run, ite_run, publishAt_run,
    Nat.zero_add]
  rw [admission]
  split_ifs
  all_goals simp_all

theorem invalidSlot_run (slot : Nat) (m : Span) :
    (invalidSlot slot l.slotPayloadCapacity l).run spanExec w m = (l.rejects slot m, l, m) := by
  rw [invalidSlot]
  simp only [loadU32_run, ite_run, pure_run, rejects]
  split_ifs <;> simp_all

theorem acquireAt_run (self : SpscRing) (hsame : self.slotPayloadCapacity = l.slotPayloadCapacity)
    (haddress : self.slotAddress = l.slotAddress) (hcount : self.slotCount = l.slotCount)
    (read write : UInt64) (m : Span) :
    (self.acquireAt read write l).run spanExec w m =
      ((l.inspect read write m).1, (l.inspect read write m).2, m) := by
  rw [acquireAt, ite_run, inspect, hcount, haddress, hsame]
  split
  · rfl
  · rw [Method.bind_apply, Process.run_bind_of (invalidSlot_run ..)]
    cases l.rejects (l.slotAddress read) m with
    | true => rfl
    | false => rfl

/-- An acquisition stores nothing. -/
theorem tryAcquire_run (hheader : l.header = some 0) (m : Span) :
    (tryAcquire l).run spanExec w m = ((l.obtain m).1, (l.obtain m).2, m) := by
  rw [tryAcquire, Method.bind_apply, Method.self_apply, Process.bind_done]
  cases hsome : l.header with
  | none => exact absurd (hheader.symm.trans hsome) (by simp)
  | some header =>
      obtain rfl : 0 = header := Option.some.inj (hheader.symm.trans hsome)
      simp only [ite_run, pure_run, loadU64_run, loadU32_run, assign_run, Nat.zero_add]
      rw [obtain]
      generalize hrefreshed : { l with cachedWritePosition := m.u64 producerOffset } = refreshed
      have hcapacity : l.slotPayloadCapacity = refreshed.slotPayloadCapacity := by
        rw [← hrefreshed]
      have haddress : l.slotAddress = refreshed.slotAddress := by
        funext position
        simp only [← hrefreshed, slotAddress]
      have hcount : l.slotCount = refreshed.slotCount := by rw [← hrefreshed]
      dsimp only
      split_ifs
      · rfl
      · rfl
      · rfl
      · rw [acquireAt_run l hcapacity haddress hcount]
      · rw [acquireAt_run l rfl rfl rfl]

theorem release_run (hheader : l.header = some 0) (m : Span) :
    (release l).run spanExec w m =
      if l.acquired = true then
        (true, { l with acquired := false, acquiredPosition := 0 },
          m.write consumerOffset (leBytes 8 (l.acquiredPosition + 1).toNat))
      else (false, l, m) := by
  rw [release, Method.bind_apply, Method.self_apply, Process.bind_done, ite_run]
  simp only [hheader, Option.getD_some, Nat.zero_add, storeU64_run, assign_run, pure_run]

theorem closePublication_run (hheader : l.header = some 0) (m : Span) :
    (closePublication l).run spanExec w m =
      if l.initializer = true then
        (true, l, m.write stateOffset (leBytes 4 stateClosed.toNat))
      else (false, l, m) := by
  rw [closePublication, Method.bind_apply, Method.self_apply, Process.bind_done, ite_run]
  simp only [hheader, Option.getD_some, Nat.zero_add, storeU32_run, pure_run]

end SpscRing

section Answers

variable {g : Geometry} {read write : UInt64}

instance (g : Geometry) (m : Span) (p : Nat) : Decidable (g.SlotReserved m p) :=
  instDecidableAnd

instance (g : Geometry) (m : Span) (p : Nat) : Decidable (g.SlotValid m p) :=
  instDecidableAnd

/-- The answer of an acquisition that finds an event at position `p`. -/
def Geometry.slotAnswer (g : Geometry) (m : Span) (p : Nat) :
    Except AcquireError (EventView ByteRange) :=
  if g.SlotValid m p then .ok (g.slotView m p) else .error .invalidSlot

/-- The answer of an acquisition with no slot held and no cached cursor. -/
def Geometry.acquireAnswer (g : Geometry) (m : Span) :
    Except AcquireError (EventView ByteRange) :=
  if readPos m = writePos m then
    .error (if stateOf m = stateClosed then .closed else .empty)
  else g.slotAnswer m (readPos m)

/-- A distance between cursors is out of range. -/
theorem out_of_range_iff (read write : UInt64) (h : HandleGeometry g l) :
    (read > write ∨ write - read > l.slotCount.toUInt64) ↔
      ¬ (read.toNat ≤ write.toNat ∧ write.toNat ≤ read.toNat + g.slots) := by
  have hcount : l.slotCount.toUInt64.toNat = g.slots := by
    rw [h.slotCount, UInt32.toNat_toUInt64]
    rfl
  by_cases hle : read.toNat ≤ write.toNat
  · rw [gt_iff_lt, gt_iff_lt, UInt64.lt_iff_toNat_lt, UInt64.lt_iff_toNat_lt, hcount,
      toNat_distance hle]
    omega
  · rw [gt_iff_lt, UInt64.lt_iff_toNat_lt]
    omega

theorem HandleGeometry.rejects (h : HandleGeometry g l) (p : UInt64) (m : Span) :
    l.rejects (l.slotAddress p) m = true ↔ ¬ g.SlotValid m p.toNat := by
  simp only [SpscRing.rejects, h.slotAddress, h.slotPayloadCapacity, Bool.or_eq_true,
    decide_eq_true_eq, bne_iff_ne, Geometry.SlotValid, Geometry.SlotReserved, Geometry.capacity,
    gt_iff_lt, UInt32.lt_iff_toNat_lt]
  rw [not_and_or, not_and_or, not_le, or_assoc]

theorem viewAt_slotAddress (h : HandleGeometry g l) (p : UInt64) (m : Span) :
    SpscRing.viewAt (l.slotAddress p) m = g.slotView m p.toNat := by
  rw [h.slotAddress]
  rfl

/-- The inspection of a slot, in terms of positions. -/
theorem HandleGeometry.inspect (h : HandleGeometry g l) (m : Span) :
    l.inspect read write m =
      if read.toNat ≤ write.toNat ∧ write.toNat ≤ read.toNat + g.slots ∧
          g.SlotValid m read.toNat then
        (.ok (g.slotView m read.toNat), { l with acquiredPosition := read, acquired := true })
      else (.error .invalidSlot, l) := by
  rw [SpscRing.inspect]
  simp only [out_of_range_iff _ _ h, h.rejects, viewAt_slotAddress h]
  split_ifs <;> first | rfl | omega | tauto

/-- What a call answers from a cached write cursor that is ahead of the read cursor. -/
def Geometry.cachedAnswer (g : Geometry) (m : Span) (cached : Nat) :
    Except AcquireError (EventView ByteRange) :=
  if cached ≤ readPos m then g.acquireAnswer m
  else if cached ≤ readPos m + g.slots then g.slotAnswer m (readPos m)
  else .error .invalidSlot

/-- The handle after an acquisition that worked with the write cursor `cached`. -/
def SpscRing.afterAcquire (l : SpscRing) (read cached : UInt64)
    (answer : Except AcquireError (EventView ByteRange)) : SpscRing :=
  if answer.isOk = true then
    { l with cachedWritePosition := cached, acquiredPosition := read, acquired := true }
  else { l with cachedWritePosition := cached }

/-- The write cursor that an acquisition works with. -/
def SpscRing.refreshedWrite (l : SpscRing) (m : Span) : UInt64 :=
  if l.cachedWritePosition.toNat ≤ readPos m then m.u64 producerOffset
  else l.cachedWritePosition

/-- The answer of an acquisition for any value of the cached cursor, in a consistent ring. -/
theorem HandleGeometry.obtain (h : HandleGeometry g l) (hfree : l.acquired = false)
    (hread : readPos m ≤ writePos m) (hwrite : writePos m ≤ readPos m + g.slots) :
    l.obtain m = (g.cachedAnswer m l.cachedWritePosition.toNat,
      l.afterAcquire (m.u64 consumerOffset) (l.refreshedWrite m)
        (g.cachedAnswer m l.cachedWritePosition.toNat)) := by
  have hrefreshed : HandleGeometry g { l with cachedWritePosition := m.u64 producerOffset } :=
    ⟨h.header, h.slots, h.slotCount, h.slotStride, h.slotPayloadCapacity⟩
  have hge : m.u64 consumerOffset ≥ l.cachedWritePosition ↔
      l.cachedWritePosition.toNat ≤ readPos m := UInt64.le_iff_toNat_le
  have heq : m.u64 consumerOffset = m.u64 producerOffset ↔ readPos m = writePos m :=
    UInt64.toNat_inj.symm
  rw [SpscRing.obtain, SpscRing.refreshedWrite, if_neg (Bool.eq_false_iff.mp hfree)]
  simp only [hge, heq, hrefreshed.inspect, h.inspect]
  by_cases hcached : l.cachedWritePosition.toNat ≤ readPos m
  · rw [if_pos hcached, if_pos hcached, Geometry.cachedAnswer, if_pos hcached,
      Geometry.acquireAnswer]
    by_cases hempty : readPos m = writePos m
    · rw [if_pos hempty, if_pos hempty]
      rfl
    · rw [if_neg hempty, if_neg hempty, Geometry.slotAnswer]
      change (if readPos m ≤ writePos m ∧ writePos m ≤ readPos m + g.slots ∧
        g.SlotValid m (readPos m) then _ else _) = _
      by_cases hvalid : g.SlotValid m (readPos m)
      · rw [if_pos ⟨hread, hwrite, hvalid⟩, if_pos hvalid]
        rfl
      · rw [if_neg (fun hall => hvalid hall.2.2), if_neg hvalid]
        rfl
  · rw [if_neg hcached, if_neg hcached, Geometry.cachedAnswer, if_neg hcached]
    change (if readPos m ≤ l.cachedWritePosition.toNat ∧
      l.cachedWritePosition.toNat ≤ readPos m + g.slots ∧ g.SlotValid m (readPos m) then _
      else _) = _
    by_cases hlap : l.cachedWritePosition.toNat ≤ readPos m + g.slots
    · rw [if_pos hlap, Geometry.slotAnswer]
      by_cases hvalid : g.SlotValid m (readPos m)
      · rw [if_pos ⟨by omega, hlap, hvalid⟩, if_pos hvalid]
        rfl
      · rw [if_neg (fun hall => hvalid hall.2.2), if_neg hvalid]
        rfl
    · rw [if_neg (fun hall => hlap hall.2.1), if_neg hlap]
      rfl

/-- A cache that is not ahead of the real cursor does not change the answer. -/
theorem cachedAnswer_of_le {cached : Nat} (hcached : cached ≤ writePos m)
    (hwrite : writePos m ≤ readPos m + g.slots) : g.cachedAnswer m cached = g.acquireAnswer m := by
  rw [Geometry.cachedAnswer]
  by_cases hle : cached ≤ readPos m
  · rw [if_pos hle]
  · rw [if_neg hle, if_pos (by omega), Geometry.acquireAnswer, if_neg (by omega)]

/-- What a publication answers from a cached read cursor. -/
def Geometry.cachedPublish (g : Geometry) (m : Span) (size : Nat) (cached : UInt64) :
    PublishResult :=
  if stateOf m ≠ stateReady then .closed
  else if size > g.capacity then .payloadTooLarge
  else if m.u64 producerOffset = maxPosition then .closed
  else if (m.u64 producerOffset - cached).toNat < g.slots then .ok
  else if writePos m = readPos m + g.slots then .full
  else .ok

/-- A publication looks at the consumer's cursor. -/
def SpscRing.Refreshes (l : SpscRing) (size : Nat) (m : Span) : Prop :=
  stateOf m = stateReady ∧ size ≤ l.slotPayloadCapacity.toNat ∧
    m.u64 producerOffset ≠ maxPosition ∧
    l.slotCount.toUInt64 ≤ m.u64 producerOffset - l.cachedReadPosition

instance (l : SpscRing) (size : Nat) (m : Span) : Decidable (l.Refreshes size m) :=
  instDecidableAnd

/-- The handle after a publication, admitted or refused, in any memory. -/
theorem admit_handle (l : SpscRing) (size : Nat) (m : Span) :
    (l.admission size m).2 =
      if l.Refreshes size m then { l with cachedReadPosition := m.u64 consumerOffset } else l := by
  rw [SpscRing.admission]
  by_cases hstate : m.u32 stateOffset = stateReady
  · by_cases hsize : size ≤ l.slotPayloadCapacity.toNat
    · by_cases hlast : m.u64 producerOffset = maxPosition
      · rw [if_neg (not_not.mpr hstate), if_neg (Nat.not_lt.mpr hsize), if_pos hlast,
          if_neg fun h => h.2.2.1 hlast]
      · rw [if_neg (not_not.mpr hstate), if_neg (Nat.not_lt.mpr hsize), if_neg hlast]
        by_cases hfull : l.slotCount.toUInt64 ≤ m.u64 producerOffset - l.cachedReadPosition
        · rw [if_pos hfull, if_pos (show l.Refreshes size m from ⟨hstate, hsize, hlast, hfull⟩)]
          split_ifs <;> rfl
        · rw [if_neg hfull, if_neg fun h => hfull h.2.2.2]
    · rw [if_neg (not_not.mpr hstate), if_pos (Nat.lt_of_not_le hsize),
        if_neg fun h => hsize h.2.1]
  · rw [if_pos hstate, if_neg fun h => hstate h.1]

/-- The answer of a publication for any value of the cached cursor, in a consistent ring. -/
theorem HandleGeometry.admission (h : HandleGeometry g l) (size : Nat)
    (hread : readPos m ≤ writePos m) (hwrite : writePos m ≤ readPos m + g.slots) :
    (l.admission size m).1 = g.cachedPublish m size l.cachedReadPosition := by
  have hcapacity : l.slotPayloadCapacity.toNat = g.capacity := by
    rw [h.slotPayloadCapacity]
    rfl
  have hcount : l.slotCount.toUInt64.toNat = g.slots := by
    rw [h.slotCount, UInt32.toNat_toUInt64]
    rfl
  have hroom : m.u64 producerOffset - l.cachedReadPosition ≥ l.slotCount.toUInt64 ↔
      ¬ (m.u64 producerOffset - l.cachedReadPosition).toNat < g.slots := by
    rw [ge_iff_le, UInt64.le_iff_toNat_le, hcount, not_lt]
  have hrange := out_of_range_iff (m.u64 consumerOffset) (m.u64 producerOffset) h
  have hfull : m.u64 producerOffset - m.u64 consumerOffset = l.slotCount.toUInt64 ↔
      writePos m = readPos m + g.slots := by
    rw [← UInt64.toNat_inj, toNat_distance hread, hcount]
    change writePos m - readPos m = g.slots ↔ _
    omega
  have hin : (m.u64 consumerOffset).toNat ≤ (m.u64 producerOffset).toNat ∧
      (m.u64 producerOffset).toNat ≤ (m.u64 consumerOffset).toNat + g.slots := ⟨hread, hwrite⟩
  rw [SpscRing.admission, Geometry.cachedPublish, hcapacity, stateOf]
  simp only [hroom, hrange, hfull, hin, and_self, not_true_eq_false, if_false, ite_not]
  split_ifs <;> rfl

/-- A cache that is not ahead of the real cursor does not change the answer. -/
theorem cachedPublish_of_le {cached : UInt64} (hcached : cached.toNat ≤ readPos m)
    (hread : readPos m ≤ writePos m) :
    g.cachedPublish m event.payload.length cached = g.uncachedPublish m event := by
  have hdistance : (m.u64 producerOffset - cached).toNat = writePos m - cached.toNat :=
    toNat_distance (Nat.le_trans hcached hread)
  rw [Geometry.cachedPublish, Geometry.uncachedPublish, hdistance, Geometry.length_queuedEvents]
  by_cases hstate : stateOf m = stateReady
  · by_cases hsize : event.payload.length ≤ g.capacity
    · by_cases hlast : m.u64 producerOffset = maxPosition
      · simp [hstate, hsize, hlast]
      · simp only [hstate, hsize, hlast, ne_eq, not_true_eq_false, if_false, and_false, or_self,
          Nat.not_lt.mpr hsize]
        split_ifs <;> first | rfl | omega
    · simp [hstate, hsize, Nat.lt_of_not_le hsize]
  · simp [hstate]

end Answers

end EventEngine.Ring
