import EventEngine.Concurrency.Thread
import EventEngine.Protocol.Codec
import EventEngine.Ring.Handle
import EventEngine.Transport

/-!
# The sender's thread

`Sender::run`, cut at the stop flag, the calls on the ingress ring, the bytes that the
encoder copies out of shared memory, and the sends. The sleep on an empty ring and the busy
spin that replaces it are no accesses.
-/

namespace EventEngine

open Concurrency Memory Protocol Transport EventEngine.Ring

/-- The members of a sender, besides the ingress ring, the socket and the stop flag. -/
structure Sender where
  maxDatagramBytes : UInt32
  destinations : List UdpAddress
  sessionId : UInt32
  packetSequence : UInt64
  stats : EngineStats
  deriving DecidableEq, Repr

/-- A sender whose `run` is executing, with the part of the local packet buffer that may be
used. -/
structure SenderFrame extends Sender where
  output : Bytes
  deriving DecidableEq, Repr

inductive SenderOp where
  | loadStop
  | requestStop
  | tryAcquire
  | readByte (offset : Nat)
  | release
  | sendTo (datagram : Bytes) (destination : UdpAddress)
  deriving DecidableEq, Repr

abbrev SenderOp.Res : SenderOp → Type
  | .loadStop => Bool
  | .requestStop => Unit
  | .tryAcquire => Except AcquireError (EventView ByteRange)
  | .readByte _ => UInt8
  | .release => Bool
  | .sendTo _ _ => Bool

abbrev senderAccess : Signature := ⟨SenderOp, SenderOp.Res⟩

namespace Sender

/-- The last packet sequence; it ends the session. -/
def maxSequence : UInt64 := 0xFFFFFFFFFFFFFFFF

/-- The move constructor: the new object and what is left of the other one, each with its
stop flag. -/
def move (other : Sender) (stopRequested : Bool) : (Sender × Bool) × (Sender × Bool) :=
  ((other, stopRequested), ({ other with destinations := [] }, true))

/-- The locals of `run`: the packet buffer, zeroed, and its first `max_datagram_bytes`. -/
def frame (self : Sender) : SenderFrame :=
  { self with output := (List.replicate maxPacketBytes 0).take self.maxDatagramBytes.toNat }

def perform (op : SenderOp) : Method senderAccess SenderFrame op.Res :=
  Method.perform (S := senderAccess) op

/-- Add to the counters. -/
def count (f : EngineStats → EngineStats) : Method senderAccess SenderFrame Unit :=
  Method.assign fun self => { self with stats := f self.stats }

/-- Copy a payload out of shared memory, byte by byte. -/
def readPayload (offset : Nat) : Nat → Method senderAccess SenderFrame Bytes
  | 0 => pure []
  | n + 1 => do
      let b ← perform (.readByte offset)
      let rest ← readPayload (offset + 1) n
      return b :: rest

/-- `encode_data` into the packet buffer, with a payload that lies in shared memory. -/
def encode (event : EventView ByteRange) :
    Method senderAccess SenderFrame (Except EncodeError Nat) := do
  let self ← Method.self
  match encodedSize event event.payload.length self.sessionId self.packetSequence
      self.output.length with
  | .error e => return .error e
  | .ok packetSize =>
      let payload ← readPayload event.payload.offset event.payload.length
      Method.assign fun self => { self with
        output := writePacket { event with payload } self.sessionId self.packetSequence
          packetSize self.output }
      return .ok packetSize

/-- Send one datagram to every destination; true if some send succeeded. -/
def sendAll (datagram : Bytes) (sentToAny : Bool) :
    List UdpAddress → Method senderAccess SenderFrame Bool
  | [] => pure sentToAny
  | destination :: rest => do
      if ← perform (.sendTo datagram destination) then
        count fun s => { s with packetsSent := s.packetsSent + 1 }
        sendAll datagram true rest
      else
        count fun s => { s with sendErrors := s.sendErrors + 1 }
        sendAll datagram sentToAny rest

/-- Advance the packet sequence, or end the session instead of wrapping to zero. -/
def advance : Method senderAccess SenderFrame Bool := do
  let self ← Method.self
  if self.packetSequence = maxSequence then
    let _ ← perform .requestStop
    return false
  else
    Method.assign fun self => { self with packetSequence := self.packetSequence + 1 }
    return true

/-- What follows the release of the slot. -/
def deliver : Except EncodeError Nat → Method senderAccess SenderFrame Bool
  | .error _ => do
      count fun s => { s with encodeErrors := s.encodeErrors + 1 }
      count fun s => { s with eventsDropped := s.eventsDropped + 1 }
      return true
  | .ok packetSize => do
      let self ← Method.self
      let sentToAny ← sendAll (self.output.take packetSize) false self.destinations
      if sentToAny then
        count fun s => { s with eventsOut := s.eventsOut + 1 }
        advance
      else
        count fun s => { s with eventsDropped := s.eventsDropped + 1 }
        advance

/-- An acquired event: encode it, give its slot back, and send it. -/
def consume (event : EventView ByteRange) : Method senderAccess SenderFrame Bool := do
  count fun s => { s with eventsIn := s.eventsIn + 1 }
  let encoded ← encode event
  let _ ← perform .release
  deliver encoded

/-- One turn of the loop, with the test of the stop flag. -/
def turn : Method senderAccess SenderFrame Bool := do
  let stopRequested ← perform .loadStop
  if stopRequested then return false
  else
    match ← perform .tryAcquire with
    | .error .empty => return true
    | .error .closed => return false
    | .error _ =>
        count fun s => { s with ingressErrors := s.ingressErrors + 1 }
        return false
    | .ok event => consume event

def run : Loop senderAccess SenderFrame where
  body := turn
  after := pure ()

end Sender

end EventEngine
