import EventEngine.Concurrency.Thread
import EventEngine.Protocol.Codec
import EventEngine.Receiver.GapDetector
import EventEngine.Transport

/-!
# The receiver's thread

`Receiver::run`, cut at the stop flag, the socket and the calls on the egress ring. What a
call on the ring does in its turn is the business of the ring; to this thread it is one
access with an answer.
-/

namespace EventEngine

open Concurrency Memory Protocol Transport

/-- The members that `run` reads and writes, besides the egress ring and the socket. -/
structure Receiver where
  stats : EngineStats := {}
  gapDetector : GapDetector := {}
  deriving DecidableEq, Repr

inductive ReceiverOp where
  | loadStop
  | receive
  | tryPublish (event : Event)
  | closePublication
  deriving DecidableEq, Repr

abbrev ReceiverOp.Res : ReceiverOp → Type
  | .loadStop => Bool
  | .receive => Received
  | .tryPublish _ => PublishResult
  | .closePublication => Bool

abbrev receiverAccess : Signature := ⟨ReceiverOp, ReceiverOp.Res⟩

namespace Receiver

/-- The move constructor: the new object and what is left of the other one, each with its
stop flag. -/
def move (other : Receiver) (stopRequested : Bool) : (Receiver × Bool) × (Receiver × Bool) :=
  ((other, stopRequested), (other, true))

def perform (op : ReceiverOp) : Method receiverAccess Receiver op.Res :=
  Method.perform (S := receiverAccess) op

/-- Add to the counters. -/
def count (f : EngineStats → EngineStats) : Method receiverAccess Receiver Unit :=
  Method.assign fun self => { self with stats := f self.stats }

/-- Publish an accepted event; the loop ends when the ring is closed. -/
def publish (event : Event) : Method receiverAccess Receiver Bool := do
  count fun s => { s with eventsIn := s.eventsIn + 1 }
  let published ← perform (.tryPublish event)
  if published = .ok then
    count fun s => { s with eventsOut := s.eventsOut + 1 }
    return true
  else
    count fun s => { s with eventsDropped := s.eventsDropped + 1 }
    if published = .full then
      count fun s => { s with egressFull := s.egressFull + 1 }
    else
      count fun s => { s with egressErrors := s.egressErrors + 1 }
    return published ≠ .closed

/-- Filter a decoded packet by session and sequence. -/
def filter (decoded : DecodedDataView) : Method receiverAccess Receiver Bool := do
  let self ← Method.self
  let checked := self.gapDetector.check decoded.sessionId decoded.packetSequence
  Method.assign fun self => { self with gapDetector := checked.2 }
  if checked.1.status ≠ .accepted then
    if checked.1.status = .duplicateOrOld then
      count fun s => { s with duplicateOrOldPackets := s.duplicateOrOldPackets + 1 }
    else
      count fun s => { s with wrongSessionPackets := s.wrongSessionPackets + 1 }
    count fun s => { s with eventsDropped := s.eventsDropped + 1 }
    return true
  else
    if checked.1.gap > 0 then
      count fun s => { s with
        gapsDetected := s.gapsDetected + 1, packetsMissed := s.packetsMissed + checked.1.gap }
    publish decoded.event

/-- What a receive error does; true if the loop goes on. -/
def receiveError (error : UdpError) : Method receiverAccess Receiver Bool := do
  if error.code = .timeout ∨ error.errorNumber = eintr then return true
  else if error.code = .datagramTooLarge then
    count fun s => { s with packetsReceived := s.packetsReceived + 1 }
    count fun s => { s with malformedPackets := s.malformedPackets + 1 }
    return true
  else
    count fun s => { s with receiveErrors := s.receiveErrors + 1 }
    return false

/-- What a datagram does. -/
def receiveDatagram (datagram : Bytes) : Method receiverAccess Receiver Bool := do
  count fun s => { s with packetsReceived := s.packetsReceived + 1 }
  match decodeData datagram with
  | .error _ =>
      count fun s => { s with malformedPackets := s.malformedPackets + 1 }
      return true
  | .ok decoded => filter decoded

/-- One turn of the loop, with the test of the stop flag. -/
def turn : Method receiverAccess Receiver Bool := do
  let stopRequested ← perform .loadStop
  if stopRequested then return false
  else
    match ← perform .receive with
    | .error error => receiveError error
    | .ok datagram => receiveDatagram datagram

def run : Loop receiverAccess Receiver where
  body := turn
  after := do
    let _ ← perform .closePublication

end Receiver

end EventEngine
