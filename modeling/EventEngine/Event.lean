import EventEngine.Memory.Span

/-!
# Events and counters

The data types that the queues, the sender and the receiver exchange. An event whose
payload is a byte list is a value; an event whose payload is a `ByteRange` is a view that
has to be read from the memory it points into.
-/

namespace EventEngine

open Memory

/-- `length` bytes starting at `offset` of some region of memory. -/
structure ByteRange where
  offset : Nat
  length : Nat
  deriving DecidableEq, Repr

structure EventView (Payload : Type) where
  streamId : UInt32
  sequence : UInt64
  sourceTimestampNs : UInt64
  payload : Payload
  deriving DecidableEq, Repr

/-- An event by value. -/
abbrev Event := EventView Bytes

/-- The event a view denotes while its bytes are in the given memory. -/
def EventView.resolve (view : EventView ByteRange) (m : Span) : Event :=
  { view with payload := m.read view.payload.offset view.payload.length }

inductive PublishResult where
  | ok
  | full
  | payloadTooLarge
  | closed
  deriving DecidableEq, Repr

/-- The counters that the sender and the receiver update. -/
structure EngineStats where
  eventsIn : UInt64 := 0
  eventsOut : UInt64 := 0
  packetsSent : UInt64 := 0
  packetsReceived : UInt64 := 0
  gapsDetected : UInt64 := 0
  packetsMissed : UInt64 := 0
  duplicateOrOldPackets : UInt64 := 0
  wrongSessionPackets : UInt64 := 0
  malformedPackets : UInt64 := 0
  eventsDropped : UInt64 := 0
  encodeErrors : UInt64 := 0
  sendErrors : UInt64 := 0
  ingressErrors : UInt64 := 0
  receiveErrors : UInt64 := 0
  egressFull : UInt64 := 0
  egressErrors : UInt64 := 0
  deriving DecidableEq, Repr

/-- A counter that is right before an increment is right after it. -/
theorem EngineStats.increment {counter : UInt64} {n k : Nat} (hcounter : counter = .ofNat n)
    (hk : k = n + 1) : counter + 1 = .ofNat k := by
  rw [hcounter, hk, UInt64.ofNat_add]
  rfl

end EventEngine
