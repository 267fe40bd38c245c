import EventEngine.Memory.Alignment
import EventEngine.Protocol.ByteIo

/-!
# Encoding and decoding a DATA packet

`encodeData` checks its arguments, then overwrites a prefix of the caller's buffer.
`decodeData` accepts or rejects one whole datagram. The encoder's checks look at the payload's
length only, so they are a definition of their own; the bytes are copied afterwards.
-/

namespace EventEngine.Protocol

open Memory

def magic : UInt8 := 0x4c
def version : UInt8 := 1

inductive MessageType where
  | invalid
  | data
  | nack
  deriving DecidableEq, Repr

def MessageType.value : MessageType → UInt8
  | .invalid => 0
  | .data => 1
  | .nack => 2

def commonHeaderBytes : Nat := 8
def dataFixedBytes : Nat := 36
def eventFrameHeaderBytes : Nat := 6
def eventFrameAlignmentBytes : Nat := 4
def maxPacketBytes : Nat := 1416
def minDataPacketBytes : Nat := 44
def maxSingleEventPayloadBytes : Nat := 1374

inductive EncodeError where
  | invalidSessionId
  | invalidPacketSequence
  | invalidEventSequence
  | payloadTooLarge
  | outputTooSmall
  deriving DecidableEq, Repr

inductive DecodeError where
  | truncated
  | invalidMagic
  | unsupportedVersion
  | unsupportedType
  | packetLengthMismatch
  | packetTooLarge
  | invalidSessionId
  | invalidPacketSequence
  | invalidEventSequence
  | malformedFrame
  | nonZeroPadding
  | arithmeticOverflow
  | unsupportedBatch
  deriving DecidableEq, Repr

/-- A decoded packet; the payload is copied out of the datagram. -/
structure DecodedDataView where
  sessionId : UInt32
  packetSequence : UInt64
  event : Event
  deriving DecidableEq, Repr

section Encoder

variable {Payload : Type}

/-- The checks of `encode_data`, up to the first store: the size of the packet. -/
def encodedSize (event : EventView Payload) (payloadSize : Nat) (sessionId : UInt32)
    (packetSequence : UInt64) (outputSize : Nat) : Except EncodeError Nat :=
  if sessionId = 0 then .error .invalidSessionId
  else if packetSequence = 0 then .error .invalidPacketSequence
  else if event.sequence = 0 then .error .invalidEventSequence
  else if payloadSize > maxSingleEventPayloadBytes then .error .payloadTooLarge
  else
    let frameSize :=
      alignUp sizeBits (payloadSize + eventFrameHeaderBytes) eventFrameAlignmentBytes
    let packetSize := frameSize + dataFixedBytes
    if packetSize > outputSize then .error .outputTooSmall
    else .ok packetSize

/-- The stores of `encode_data`, in order. -/
def writePacket (event : Event) (sessionId : UInt32) (packetSequence : UInt64)
    (packetSize : Nat) (output : Bytes) : Bytes :=
  let payloadSize := event.payload.length
  let output := writeAt output 0 [magic]
  let output := writeAt output 1 [(version <<< 4) ||| MessageType.data.value]
  let output := writeU16 output 2 (UInt16.ofNat packetSize)
  let output := writeU32 output 4 sessionId
  let output := writeU64 output 8 packetSequence
  let output := writeU64 output 16 event.sequence
  let output := writeU64 output 24 event.sourceTimestampNs
  let output := writeU32 output 32 event.streamId
  let output := writeU32 output 36 0
  let output := writeU16 output 40 (UInt16.ofNat payloadSize)
  let output := writeAt output 42 event.payload
  writeAt output (42 + payloadSize) (List.replicate (packetSize - (42 + payloadSize)) 0)

/-- `encode_data`: the result and the buffer it leaves. -/
def encodeData (event : Event) (sessionId : UInt32) (packetSequence : UInt64)
    (output : Bytes) : Except EncodeError Nat × Bytes :=
  match encodedSize event event.payload.length sessionId packetSequence output.length with
  | .error e => (.error e, output)
  | .ok packetSize =>
      (.ok packetSize, writePacket event sessionId packetSequence packetSize output)

end Encoder

/-- The part of `decode_data` behind the common header. -/
def decodeFrame (packet : Bytes) (sessionId : UInt32) : Except DecodeError DecodedDataView :=
  let packetSequence := readU64 packet 8
  if packetSequence = 0 then .error .invalidPacketSequence
  else
    let eventSequence := readU64 packet 16
    if eventSequence = 0 then .error .invalidEventSequence
    else
      let sourceTimestampNs := readU64 packet 24
      let streamId := readU32 packet 32
      if readU32 packet 36 ≠ 0 then .error .malformedFrame
      else
        let payloadSize := (readU16 packet 40).toNat
        if payloadSize > maxSingleEventPayloadBytes then .error .malformedFrame
        else
          let frameSize :=
            alignUp sizeBits (eventFrameHeaderBytes + payloadSize) eventFrameAlignmentBytes
          if ¬ hasBytes packet.length dataFixedBytes frameSize then .error .malformedFrame
          else
            let payloadOffset := dataFixedBytes + eventFrameHeaderBytes
            let padding := bytesAt packet (payloadOffset + payloadSize)
              (dataFixedBytes + frameSize - (payloadOffset + payloadSize))
            if ¬ padding.all (· == 0) then .error .nonZeroPadding
            else if packet.length ≠ dataFixedBytes + frameSize then .error .unsupportedBatch
            else .ok {
              sessionId, packetSequence
              event := {
                streamId, sourceTimestampNs
                sequence := eventSequence
                payload := bytesAt packet payloadOffset payloadSize } }

def decodeData (packet : Bytes) : Except DecodeError DecodedDataView :=
  if packet.length < commonHeaderBytes then .error .truncated
  else if packet.length > maxPacketBytes then .error .packetTooLarge
  else if readU8 packet 0 ≠ magic then .error .invalidMagic
  else
    let versionAndType := readU8 packet 1
    if versionAndType >>> 4 ≠ version then .error .unsupportedVersion
    else if versionAndType &&& 0x0f ≠ MessageType.data.value then .error .unsupportedType
    else if (readU16 packet 2).toNat ≠ packet.length then .error .packetLengthMismatch
    else
      let sessionId := readU32 packet 4
      if sessionId = 0 then .error .invalidSessionId
      else if packet.length < minDataPacketBytes then .error .truncated
      else decodeFrame packet sessionId

end EventEngine.Protocol
