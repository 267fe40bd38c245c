import EventEngine.Ring.Layout

/-!
# The ring handle and its per-event operations

`SpscRing` is the handle that a producer or a consumer holds, with the geometry copied
from the header and the cached copy of the other side's cursor. Every load or store of
the shared memory is one access of the method, in the order of the source; a payload is
copied byte by byte. Assignments to the handle's own fields are no accesses.
-/

namespace EventEngine.Ring

open Concurrency Memory

inductive AcquireError where
  | empty
  | closed
  | alreadyAcquired
  | invalidSlot
  deriving DecidableEq, Repr

/-- The largest cursor value, at which publication stops. -/
def maxPosition : UInt64 := 0xFFFFFFFFFFFFFFFF

/-- Below the last position the next cursor is exact. -/
theorem toNat_add_one {position : UInt64} (h : position ≠ maxPosition) :
    (position + 1).toNat = position.toNat + 1 := by
  have hlt := position.toNat_lt
  have hne : position.toNat ≠ maxPosition.toNat := fun heq => h (UInt64.toNat_inj.mp heq)
  rw [show maxPosition.toNat = 2 ^ 64 - 1 from rfl] at hne
  rw [UInt64.toNat_add, UInt64.toNat_one, Nat.mod_eq_of_lt (by omega)]

/-- A ring handle. Pointers are offsets into the mapping: `header` is null after a move,
and `slots` is then zero. -/
structure SpscRing where
  header : Option Nat
  slots : Nat
  slotCount : UInt32
  slotStride : UInt32
  slotPayloadCapacity : UInt32
  cachedReadPosition : UInt64
  cachedWritePosition : UInt64
  acquiredPosition : UInt64
  acquired : Bool
  initializer : Bool
  deriving DecidableEq, Repr

/-- The header fields of a slot; the payload follows them. -/
def fillSlotHeader (header : Nat) (event : Event) : Method spanAccess SpscRing Unit := do
  storeU64 (header + eventSequenceOffset) event.sequence
  storeU64 (header + sourceTimestampOffset) event.sourceTimestampNs
  storeU32 (header + streamIdOffset) event.streamId
  storeU32 (header + payloadLengthOffset) (UInt32.ofNat event.payload.length)

/-- Copy a payload, one byte at a time. -/
def copyPayload (offset : Nat) : Bytes → Method spanAccess SpscRing Unit
  | [] => pure ()
  | b :: rest => do
      store offset [b]
      copyPayload (offset + 1) rest

/-- The three reserved or bounded words of a slot header, checked in this order. -/
def invalidSlot (slot : Nat) (payloadCapacity : UInt32) : Method spanAccess SpscRing Bool := do
  let payloadLength ← loadU32 (slot + payloadLengthOffset)
  if payloadLength > payloadCapacity then return true
  else
    let reserved0 ← loadU32 (slot + slotReservedOffset)
    if reserved0 ≠ 0 then return true
    else
      let reserved1 ← loadU32 (slot + slotReservedOffset + 4)
      return reserved1 != 0

namespace SpscRing

/-- The address of the slot at a logical position: masking, then 64-bit stride arithmetic. -/
def slotAddress (self : SpscRing) (position : UInt64) : Nat :=
  self.slots +
    (self.slotStride.toUInt64 * (position &&& (self.slotCount - 1).toUInt64)).toNat

/-- The rest of `try_publish` once the slot is known to be free. -/
def publishAt (self : SpscRing) (header : Nat) (writePos : UInt64) (event : Event) :
    Method spanAccess SpscRing PublishResult := do
  let slot := self.slotAddress writePos
  fillSlotHeader slot event
  copyPayload (slot + ringSlotMetadataBytes) event.payload
  storeU64 (header + producerOffset) (writePos + 1)
  return .ok

def tryPublish (event : Event) : Method spanAccess SpscRing PublishResult := do
  let self ← Method.self
  match self.header with
  | none => return .closed
  | some header =>
      let state ← loadU32 (header + stateOffset)
      if state ≠ stateReady then return .closed
      else if event.payload.length > self.slotPayloadCapacity.toNat then
        return .payloadTooLarge
      else
        let writePos ← loadU64 (header + producerOffset)
        if writePos = maxPosition then return .closed
        else if writePos - self.cachedReadPosition ≥ self.slotCount.toUInt64 then
          let readPos ← loadU64 (header + consumerOffset)
          Method.assign fun self => { self with cachedReadPosition := readPos }
          if readPos > writePos ∨ writePos - readPos > self.slotCount.toUInt64 then
            return .closed
          else if writePos - readPos = self.slotCount.toUInt64 then return .full
          else self.publishAt header writePos event
        else self.publishAt header writePos event

/-- The rest of `try_acquire` once the write cursor is known. The payload length is
loaded twice: by the check and for the view. -/
def acquireAt (self : SpscRing) (readPos writePos : UInt64) :
    Method spanAccess SpscRing (Except AcquireError (EventView ByteRange)) := do
  if readPos > writePos ∨ writePos - readPos > self.slotCount.toUInt64 then
    return .error .invalidSlot
  else
    let slot := self.slotAddress readPos
    if ← invalidSlot slot self.slotPayloadCapacity then return .error .invalidSlot
    else
      Method.assign fun self => { self with acquiredPosition := readPos, acquired := true }
      let streamId ← loadU32 (slot + streamIdOffset)
      let sequence ← loadU64 (slot + eventSequenceOffset)
      let sourceTimestampNs ← loadU64 (slot + sourceTimestampOffset)
      let payloadLength ← loadU32 (slot + payloadLengthOffset)
      return .ok
        { streamId, sequence, sourceTimestampNs
          payload := ⟨slot + ringSlotMetadataBytes, payloadLength.toNat⟩ }

def tryAcquire :
    Method spanAccess SpscRing (Except AcquireError (EventView ByteRange)) := do
  let self ← Method.self
  match self.header with
  | none => return .error .closed
  | some header =>
      if self.acquired then return .error .alreadyAcquired
      else
        let readPos ← loadU64 (header + consumerOffset)
        if readPos ≥ self.cachedWritePosition then
          let state ← loadU32 (header + stateOffset)
          let writePos ← loadU64 (header + producerOffset)
          Method.assign fun self => { self with cachedWritePosition := writePos }
          if readPos = writePos then
            return .error (if state = stateClosed then .closed else .empty)
          else self.acquireAt readPos writePos
        else self.acquireAt readPos self.cachedWritePosition

/-- A handle that holds a slot has a header, so the pointer is not null here. -/
def release : Method spanAccess SpscRing Bool := do
  let self ← Method.self
  if self.acquired then
    storeU64 (self.header.getD 0 + consumerOffset) (self.acquiredPosition + 1)
    Method.assign fun self => { self with acquired := false, acquiredPosition := 0 }
    return true
  else return false

/-- Only the handle that `initialize` returned may close, and it has a header. -/
def closePublication : Method spanAccess SpscRing Bool := do
  let self ← Method.self
  if self.initializer then
    storeU32 (self.header.getD 0 + stateOffset) stateClosed
    return true
  else return false

/-- What a handle is after its contents were moved out. -/
def movedFrom : SpscRing where
  header := none
  slots := 0
  slotCount := 0
  slotStride := 0
  slotPayloadCapacity := 0
  cachedReadPosition := 0
  cachedWritePosition := 0
  acquiredPosition := 0
  acquired := false
  initializer := false

/-- The move constructor: the new handle and what the old one becomes. -/
def move (other : SpscRing) : SpscRing × SpscRing := (other, movedFrom)

end SpscRing

end EventEngine.Ring
